import BuildFix.Proofs.Loads.Revision
import Mathlib.Data.List.Nodup

/-!
# The load that takes the place of another

A load that has to change is replaced by one that has the wanted symbols in
increasing order.  For each of them stand the arguments that were there, or a new
one if there was none (`symbolArgs`).  Behind the symbols stand the arguments
that are no symbols of the table.

Sorting keeps arguments of one value in their order (`filter_mergeSort`), and a
sorted list is determined by its arguments of each value
(`eq_of_pairwise_valueLE`).  So the symbols that `SymbolTable.reviseLoad` sorts
are these (`revisedSymbols_eq_flatMap`).

`reviseLoad_minimal` says which of the three outcomes a load has.
-/

namespace BuildFix

/-! ## Sorting by value -/

/-- The value of a string, by which the symbols of a load are sorted. -/
def sortValue (e : Expr) : String := e.string?.getD ""

section Sorting

variable {xs ys : List Expr}

theorem valueLE_iff {a b : Expr} : valueLE a b = true ↔ sortValue a ≤ sortValue b := by
  simp [valueLE, sortValue]

theorem valueLE_of_eq {a b : Expr} (h : sortValue a = sortValue b) : valueLE a b = true :=
  valueLE_iff.2 (h ▸ String.le_refl _)

theorem valueLE_trans (a b c : Expr) (hab : valueLE a b = true) (hbc : valueLE b c = true) :
    valueLE a c = true :=
  valueLE_iff.2 (String.le_trans (valueLE_iff.1 hab) (valueLE_iff.1 hbc))

theorem valueLE_total (a b : Expr) : (valueLE a b || valueLE b a) = true := by
  rw [Bool.or_eq_true, valueLE_iff, valueLE_iff]
  exact String.le_total _ _

/-- Sorting keeps the arguments of one value, in their order. -/
theorem filter_mergeSort (v : String) (xs : List Expr) :
    (xs.mergeSort valueLE).filter (sortValue · == v) = xs.filter (sortValue · == v) := by
  have hsame : (xs.filter (sortValue · == v)).Pairwise fun a b => valueLE a b = true := by
    refine List.pairwise_of_forall_mem_list fun a ha b hb => valueLE_of_eq ?_
    have hav : sortValue a = v := by simpa using (List.mem_filter.1 ha).2
    have hbv : sortValue b = v := by simpa using (List.mem_filter.1 hb).2
    exact hav.trans hbv.symm
  have hsub : (xs.filter (sortValue · == v)).Sublist (xs.mergeSort valueLE) :=
    List.sublist_mergeSort valueLE_trans valueLE_total hsame List.filter_sublist
  have hfilter : (xs.filter (sortValue · == v)).Sublist
      ((xs.mergeSort valueLE).filter (sortValue · == v)) := by
    simpa using hsub.filter (sortValue · == v)
  have hperm := (List.mergeSort_perm xs valueLE).filter (sortValue · == v)
  exact (hfilter.eq_of_length hperm.length_eq.symm).symm

theorem eq_nil_of_filter_eq_nil (h : ∀ v, xs.filter (sortValue · == v) = []) : xs = [] := by
  refine List.eq_nil_iff_forall_not_mem.2 fun x hx => ?_
  have hmem : x ∈ xs.filter (sortValue · == sortValue x) := List.mem_filter.2 ⟨hx, by simp⟩
  rw [h] at hmem
  exact List.not_mem_nil hmem

theorem head_le_of_filter_eq {x y : Expr} (hy : (y :: ys).Pairwise fun a b => valueLE a b = true)
    (h : ∀ v, (x :: xs).filter (sortValue · == v) = (y :: ys).filter (sortValue · == v)) :
    sortValue y ≤ sortValue x := by
  have hx : x ∈ (y :: ys).filter (sortValue · == sortValue x) := by
    rw [← h]
    exact List.mem_filter.2 ⟨List.mem_cons_self, by simp⟩
  rcases List.mem_cons.1 (List.mem_filter.1 hx).1 with rfl | hmem
  · exact String.le_refl _
  · exact valueLE_iff.1 ((List.pairwise_cons.1 hy).1 x hmem)

/-- A sorted list is determined by its arguments of each value. -/
theorem eq_of_pairwise_valueLE (hx : xs.Pairwise fun a b => valueLE a b = true)
    (hy : ys.Pairwise fun a b => valueLE a b = true)
    (h : ∀ v, xs.filter (sortValue · == v) = ys.filter (sortValue · == v)) : xs = ys := by
  induction xs generalizing ys with
  | nil => exact (eq_nil_of_filter_eq_nil fun v => (h v).symm).symm
  | cons x xs ih =>
      cases ys with
      | nil => exact eq_nil_of_filter_eq_nil h
      | cons y ys =>
          have hxy : sortValue x = sortValue y :=
            String.le_antisymm (head_le_of_filter_eq hx fun v => (h v).symm)
              (head_le_of_filter_eq hy h)
          have hhead := h (sortValue x)
          rw [List.filter_cons_of_pos (by simp), List.filter_cons_of_pos (by simp [hxy])] at hhead
          obtain ⟨rfl, -⟩ := List.cons.inj hhead
          rw [ih (List.pairwise_cons.1 hx).2 (List.pairwise_cons.1 hy).2]
          intro v
          have hv := h v
          rw [List.filter_cons, List.filter_cons] at hv
          split at hv
          · exact (List.cons.inj hv).2
          · exact hv

end Sorting

/-! ## The arguments for a symbol -/

/-- The arguments that stand for the symbol `s` in a load that should have it:
those that were there, or a new one. -/
def symbolArgs (rest : List Expr) (s : String) : List Expr :=
  if rest.any (·.string? == some s) then rest.filter (·.string? == some s) else [.string s {}]

section

variable {rest : List Expr} {wanted : List String} {s v : String} {arg : Expr}

theorem string?_of_mem_symbolArgs (h : arg ∈ symbolArgs rest s) : arg.string? = some s := by
  unfold symbolArgs at h
  split at h
  · simpa using (List.mem_filter.1 h).2
  · rw [List.mem_singleton.1 h]
    rfl

theorem symbolArgs_ne_nil (rest : List Expr) (s : String) : symbolArgs rest s ≠ [] := by
  unfold symbolArgs
  split
  next h =>
    rw [Ne, List.filter_eq_nil_iff]
    intro hnone
    obtain ⟨arg, ha, hs⟩ := List.any_eq_true.1 h
    exact hnone arg ha hs
  next => exact List.cons_ne_nil _ _

theorem sortValue_of_string? (h : arg.string? = some s) : sortValue arg = s := by
  rw [sortValue, h]
  rfl

/-- The arguments that are made for the names of a set, and have the value `v`,
are those made for `v`. -/
theorem filter_flatMap_set {f : String → List Expr} (hw : wanted.Nodup)
    (hf : ∀ s ∈ wanted, ∀ arg ∈ f s, sortValue arg = s) (v : String) :
    (wanted.flatMap f).filter (sortValue · == v) = if v ∈ wanted then f v else [] := by
  induction wanted with
  | nil => rfl
  | cons s wanted ih =>
      obtain ⟨hs, hwanted⟩ := List.nodup_cons.1 hw
      obtain ⟨hfs, hfwanted⟩ := List.forall_mem_cons.1 hf
      rw [List.flatMap_cons, List.filter_append, ih hwanted hfwanted]
      by_cases hv : v = s
      · subst hv
        rw [if_neg hs, if_pos List.mem_cons_self, List.append_nil, List.filter_eq_self]
        intro arg ha
        simpa using hfs arg ha
      · have hnone : (f s).filter (sortValue · == v) = [] := by
          rw [List.filter_eq_nil_iff]
          intro arg ha
          rw [hfs arg ha]
          simpa using Ne.symm hv
        simp only [hnone, List.nil_append, List.mem_cons, hv, false_or]

end

namespace SymbolTable

variable {t : SymbolTable} {wanted : List String} {rest : List Expr}

theorem filter_presentArgs (hw : ∀ s ∈ wanted, t.knows s = true) (v : String) :
    (t.presentArgs wanted rest).filter (sortValue · == v) =
      if v ∈ wanted then rest.filter (·.string? == some v) else [] := by
  rw [presentArgs, List.filter_filter]
  split
  next hv =>
    refine List.filter_congr fun arg _ => ?_
    rw [Bool.eq_iff_iff, Bool.and_eq_true, beq_iff_eq, beq_iff_eq, isWantedArg_iff]
    constructor
    · rintro ⟨hval, s, hs, -, -⟩
      rw [sortValue_of_string? hs] at hval
      rw [hs, hval]
    · intro hs
      exact ⟨sortValue_of_string? hs, v, hs, hw v hv, hv⟩
  next hv =>
    rw [List.filter_eq_nil_iff]
    intro arg _ h
    rw [Bool.and_eq_true, beq_iff_eq, isWantedArg_iff] at h
    obtain ⟨hval, s, hs, -, hwanted⟩ := h
    rw [sortValue_of_string? hs] at hval
    exact hv (hval ▸ hwanted)

/-- A wanted symbol is missing exactly when no argument is that string. -/
theorem mem_missingSymbols_iff (hw : ∀ s ∈ wanted, t.knows s = true) {s : String} :
    s ∈ t.missingSymbols wanted rest ↔
      s ∈ wanted ∧ rest.any (·.string? == some s) = false := by
  rw [mem_missingSymbols, mem_symbolsAmong]
  refine and_congr_right fun hs => ?_
  simp [hw s hs]

/-- The sorted symbols of a replaced load are, for each wanted symbol in
increasing order, the arguments that stand for it. -/
theorem revisedSymbols_eq_flatMap (hset : Increasing wanted)
    (hw : ∀ s ∈ wanted, t.knows s = true) :
    t.revisedSymbols wanted rest = wanted.flatMap (symbolArgs rest) := by
  have hnodup : wanted.Nodup := hset.imp String.ne_of_lt
  have hmissing : (t.missingSymbols wanted rest).Nodup := hnodup.sublist List.filter_sublist
  refine eq_of_pairwise_valueLE (List.pairwise_mergeSort valueLE_trans valueLE_total _) ?_ ?_
  · refine List.pairwise_flatMap.2 ⟨fun s _ => ?_, hset.imp fun {s s'} hlt a ha b hb => ?_⟩
    · refine List.pairwise_of_forall_mem_list fun a ha b hb => valueLE_of_eq ?_
      rw [sortValue_of_string? (string?_of_mem_symbolArgs ha),
        sortValue_of_string? (string?_of_mem_symbolArgs hb)]
    · rw [valueLE_iff, sortValue_of_string? (string?_of_mem_symbolArgs ha),
        sortValue_of_string? (string?_of_mem_symbolArgs hb)]
      exact String.not_lt.1 (String.lt_asymm hlt)
  · intro v
    rw [revisedSymbols, filter_mergeSort, List.filter_append, filter_presentArgs hw,
      List.map_eq_flatMap, filter_flatMap_set hmissing (by simp [sortValue, Expr.string?]),
      filter_flatMap_set hnodup
        fun s _ arg ha => sortValue_of_string? (string?_of_mem_symbolArgs ha)]
    by_cases hv : v ∈ wanted
    · simp only [mem_missingSymbols_iff hw, hv, true_and, if_true, symbolArgs]
      cases hany : rest.any (·.string? == some v) with
      | true => simp
      | false =>
          have hnone : rest.filter (·.string? == some v) = [] := by
            simpa [List.filter_eq_nil_iff] using hany
          simp [hnone]
    · simp only [mem_missingSymbols_iff hw, hv, false_and, if_false, List.append_nil]

/-! ## The outcomes -/

/-- Nothing is left of a load behind its label exactly when nothing is wanted
and all its arguments are symbols of the table. -/
theorem revisedArgs_eq_nil_iff (hset : Increasing wanted) (hw : ∀ s ∈ wanted, t.knows s = true) :
    t.revisedArgs wanted rest = [] ↔
      wanted = [] ∧ ∀ arg ∈ rest, ∃ s, arg.string? = some s ∧ t.knows s = true := by
  rw [revisedArgs, revisedSymbols_eq_flatMap hset hw, List.append_eq_nil_iff,
    List.flatMap_eq_nil_iff, List.filter_eq_nil_iff, List.eq_nil_iff_forall_not_mem]
  refine and_congr (forall₂_congr fun s _ => iff_false_intro (symbolArgs_ne_nil rest s)) ?_
  refine forall₂_congr fun arg _ => ?_
  rw [Bool.not_eq_true', Bool.not_eq_false, isManagedArg_iff]

/-- The outcomes of a revision, the load that goes away first. -/
theorem reviseLoad_eq_ite (hset : Increasing wanted) (hw : ∀ s ∈ wanted, t.knows s = true)
    (callee label : Expr) (rest : List Expr) (compact : Bool) (c : Comments) :
    t.reviseLoad wanted (.call callee (label :: rest) compact c) =
      if t.revisedArgs wanted rest = [] then .deleted
      else if t.missingSymbols wanted rest = [] ∧ t.staleArgs wanted rest = [] then .kept
      else .replaced (.call callee (label :: t.revisedArgs wanted rest) compact c) := by
  rw [reviseLoad_call]
  by_cases hc : t.missingSymbols wanted rest = [] ∧ t.staleArgs wanted rest = []
  · have hcarries : t.Carries rest wanted := carries_iff.2 hc
    have hgone : rest = [] ↔ t.revisedArgs wanted rest = [] := by
      rw [revisedArgs_eq_nil_iff hset hw]
      constructor
      · rintro rfl
        exact ⟨hcarries.eq_nil_of_nil, List.forall_mem_nil _⟩
      · rintro ⟨rfl, hall⟩
        refine List.eq_nil_iff_forall_not_mem.2 fun arg ha => ?_
        obtain ⟨s, hs, hk⟩ := hall arg ha
        exact List.not_mem_nil ((hcarries s).1 (mem_symbolsAmong.2 ⟨hk, arg, ha, hs⟩))
    simp only [if_pos hc, hgone]
  · rw [if_neg hc, if_neg hc]

/-- A load goes away exactly when nothing is wanted of it and all its arguments
are symbols of the table.  Any other load is kept exactly when the symbols of
the table among its arguments are the wanted ones, and otherwise replaced by one
with the same callee, the same label and the same comments.  Its arguments are,
for each wanted symbol in increasing order, those that stand for it, and behind
them those that are no symbols of the table.  The new load is kept as it is when
the same symbols are wanted again. -/
theorem reviseLoad_minimal (hset : Increasing wanted) (hw : ∀ s ∈ wanted, t.knows s = true)
    (callee label : Expr) (rest : List Expr) (compact : Bool) (c : Comments) :
    let load := Expr.call callee (label :: rest) compact c
    let others := rest.filter fun arg => !t.isManagedArg arg
    let new := Expr.call callee (label :: (wanted.flatMap (symbolArgs rest) ++ others)) compact c
    (t.reviseLoad wanted load = .deleted ↔
        wanted = [] ∧ ∀ arg ∈ rest, ∃ s, arg.string? = some s ∧ t.knows s = true) ∧
      (t.reviseLoad wanted load = .kept ↔
        t.reviseLoad wanted load ≠ .deleted ∧
          ∀ s, (t.knows s = true ∧ ∃ arg ∈ rest, arg.string? = some s) ↔ s ∈ wanted) ∧
      (t.reviseLoad wanted load ≠ .deleted → t.reviseLoad wanted load ≠ .kept →
        t.reviseLoad wanted load = .replaced new ∧ t.reviseLoad wanted new = .kept) := by
  intro load others new
  have hnew : t.revisedArgs wanted rest = wanted.flatMap (symbolArgs rest) ++ others := by
    rw [revisedArgs, revisedSymbols_eq_flatMap hset hw]
  have hcarries : t.Carries rest wanted ↔
      ∀ s, (t.knows s = true ∧ ∃ arg ∈ rest, arg.string? = some s) ↔ s ∈ wanted :=
    forall_congr' fun s => iff_congr mem_symbolsAmong Iff.rfl
  rw [← hcarries, ← revisedArgs_eq_nil_iff hset hw, carries_iff, reviseLoad_eq_ite hset hw]
  by_cases hgone : t.revisedArgs wanted rest = []
  · simp [hgone]
  · rw [if_neg hgone]
    by_cases hc : t.missingSymbols wanted rest = [] ∧ t.staleArgs wanted rest = []
    · simp [hgone, hc]
    · have hagain : t.Carries (t.revisedArgs wanted rest) wanted := carries_revisedArgs hw
      rw [if_neg hc]
      rw [hnew] at hgone hagain ⊢
      refine ⟨iff_of_false (by simp) hgone, iff_of_false (by simp) fun h => hc h.2,
        fun _ _ => ⟨rfl, ?_⟩⟩
      rw [reviseLoad_call, if_pos (carries_iff.1 hagain), if_neg hgone]

/-- The arguments of a load with a wanted symbol twice, one that is not wanted, a symbol from
elsewhere and another name for it. -/
def crowdedArgs : List Expr :=
  [.string "go_test" ⟨[⟨"# first"⟩], [], []⟩, .keyword "test" (.string "go_test" {}),
    .string "go_binary" {}, .string "other" {}, .string "go_test" ⟨[⟨"# second"⟩], [], []⟩]

theorem crowdedLoad_replaced :
    let wanted := ["go_library", "go_test"]
    let load args := Expr.call (.literal "load" {}) (.string goRules.label {} :: args) true {}
    let new := load [.string "go_library" {}, .string "go_test" ⟨[⟨"# first"⟩], [], []⟩,
      .string "go_test" ⟨[⟨"# second"⟩], [], []⟩, .keyword "test" (.string "go_test" {}),
      .string "other" {}]
    Increasing wanted ∧ (∀ s ∈ wanted, standard.knows s = true) ∧
      standard.reviseLoad wanted (load crowdedArgs) = .replaced new ∧
      standard.reviseLoad wanted new = .kept := by
  intro wanted load new
  have hset : Increasing wanted := by
    unfold Increasing
    decide +kernel
  have hw : ∀ s ∈ wanted, standard.knows s = true := by decide +kernel
  obtain ⟨hdeleted, hkept, hreplaced⟩ := reviseLoad_minimal hset hw (.literal "load" {})
    (.string goRules.label {}) crowdedArgs true {}
  have hstays : standard.reviseLoad wanted (load crowdedArgs) ≠ .deleted :=
    mt hdeleted.1 (by decide)
  have hchanges : standard.reviseLoad wanted (load crowdedArgs) ≠ .kept := by
    intro h
    obtain ⟨-, hs⟩ := hkept.1 h
    obtain ⟨-, arg, ha, he⟩ := (hs "go_library").2 (by decide)
    revert arg
    decide
  exact ⟨hset, hw, hreplaced hstays hchanges⟩

end SymbolTable

end BuildFix
