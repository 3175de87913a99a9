/-!
# Sets of symbols

A set of symbols is a list in strictly increasing order, so equal sets are equal
lists.  The order of names is that of their code points.  `symbolSet` makes the
set of a list (`mem_symbolSet`, `symbolSet_sorted`).
-/

namespace BuildFix

/-- The names are in strictly increasing order. -/
def Increasing (xs : List String) : Prop := xs.Pairwise (· < ·)

/-- A set with one more symbol. -/
def insertSymbol (s : String) : List String → List String
  | [] => [s]
  | x :: xs =>
      if s < x then s :: x :: xs
      else if s = x then x :: xs
      else x :: insertSymbol s xs

/-- The set of the symbols of a list. -/
def symbolSet (xs : List String) : List String := xs.foldr insertSymbol []

theorem mem_insertSymbol {s t : String} {xs : List String} :
    t ∈ insertSymbol s xs ↔ t = s ∨ t ∈ xs := by
  induction xs with
  | nil => simp [insertSymbol]
  | cons x xs ih =>
      unfold insertSymbol
      split
      · simp
      · split
        · rename_i h
          subst h
          simp
        · simp only [List.mem_cons, ih]
          grind

theorem mem_symbolSet {t : String} {xs : List String} : t ∈ symbolSet xs ↔ t ∈ xs := by
  induction xs with
  | nil => simp [symbolSet]
  | cons x xs ih =>
      rw [symbolSet, List.foldr_cons, mem_insertSymbol, List.mem_cons]
      exact or_congr_right ih

theorem lt_of_not_lt_of_ne {s t : String} (h : ¬s < t) (hne : s ≠ t) : t < s := by
  apply String.not_le.1
  intro hle
  exact hne (String.le_antisymm hle (String.not_lt.1 h))

theorem increasing_insertSymbol {s : String} {xs : List String} (h : Increasing xs) :
    Increasing (insertSymbol s xs) := by
  unfold Increasing at h ⊢
  induction xs with
  | nil => simp [insertSymbol]
  | cons x xs ih =>
      have hx := List.pairwise_cons.1 h
      unfold insertSymbol
      split
      · rename_i hlt
        refine List.pairwise_cons.2 ⟨fun t ht => ?_, h⟩
        rcases List.mem_cons.1 ht with rfl | ht
        · exact hlt
        · exact String.lt_trans hlt (hx.1 t ht)
      · split
        · exact h
        · rename_i hlt hne
          refine List.pairwise_cons.2 ⟨fun t ht => ?_, ih hx.2⟩
          rcases mem_insertSymbol.1 ht with rfl | ht
          · exact lt_of_not_lt_of_ne hlt hne
          · exact hx.1 t ht

theorem symbolSet_sorted (xs : List String) : Increasing (symbolSet xs) := by
  induction xs with
  | nil => exact List.Pairwise.nil
  | cons x xs ih => exact increasing_insertSymbol ih

example : symbolSet ["z", "a", "m", "a"] = ["a", "m", "z"] := by decide +kernel

end BuildFix
