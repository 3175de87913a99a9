import BuildFix.Proofs.Legacy.Library
import Mathlib.Data.List.Basic

/-!
# Rules among statements

`rulesOf` reads the rules with a property off a list of statements.  Folding
takes the first such rule away or puts another one in its slot, and the lemmas
say what each does to the rules of the same property and of a disjoint one.

Folding several rules at once takes the first `k` of them away (`dropFirst`), or
all of the first `k + 1` but the first (`dropLater`).  Doing this one rule at a
time comes to the same (`dropFirst_eraseP`), also when a slot is filled in
between (`dropFirst_replaceFirst`, `replaceFirst_dropFirst_replaceFirst`).
-/

namespace BuildFix

/-! ## Lists -/

/-- The list without its first `k` elements with a property. -/
def dropFirst {α : Type} (p : α → Bool) : Nat → List α → List α
  | 0, xs => xs
  | _ + 1, [] => []
  | k + 1, x :: xs => if p x then dropFirst p k xs else x :: dropFirst p (k + 1) xs

/-- The list without the `k` elements with a property that follow the first such
element. -/
def dropLater {α : Type} (p : α → Bool) (k : Nat) : List α → List α
  | [] => []
  | x :: xs => if p x then x :: dropFirst p k xs else x :: dropLater p k xs

section

variable {α : Type} {p q : α → Bool} {x a b : α} {xs : List α} {k : Nat}

@[simp] theorem dropFirst_zero (xs : List α) : dropFirst p 0 xs = xs := by
  cases xs <;> rfl

@[simp] theorem dropFirst_nil : dropFirst p k [] = [] := by
  cases k <;> rfl

theorem dropFirst_cons_of_pos (h : p x = true) :
    dropFirst p (k + 1) (x :: xs) = dropFirst p k xs := by
  rw [dropFirst, if_pos h]

theorem dropFirst_cons_of_neg (h : p x = false) :
    dropFirst p k (x :: xs) = x :: dropFirst p k xs := by
  cases k with
  | zero => simp
  | succ k => rw [dropFirst, if_neg (by simp [h])]

theorem replaceFirst_cons_of_pos (h : p x = true) : replaceFirst p a (x :: xs) = a :: xs := by
  rw [replaceFirst, if_pos h]

theorem replaceFirst_cons_of_neg (h : p x = false) :
    replaceFirst p a (x :: xs) = x :: replaceFirst p a xs := by
  rw [replaceFirst, if_neg (by simp [h])]

theorem replaceFirst_append_cons {pre post : List α} (hpre : ∀ y ∈ pre, p y = false)
    (hx : p x = true) : replaceFirst p a (pre ++ x :: post) = pre ++ a :: post := by
  induction pre with
  | nil => exact replaceFirst_cons_of_pos hx
  | cons y pre ih =>
      obtain ⟨hy, hpre⟩ := List.forall_mem_cons.1 hpre
      rw [List.cons_append, replaceFirst_cons_of_neg hy, ih hpre, List.cons_append]

theorem eraseP_append_cons {pre post : List α} (hpre : ∀ y ∈ pre, p y = false)
    (hx : p x = true) : (pre ++ x :: post).eraseP p = pre ++ post := by
  rw [List.eraseP_append_right _ (by simpa using hpre), List.eraseP_cons_of_pos hx]

theorem dropFirst_of_none (h : ∀ y ∈ xs, p y = false) : dropFirst p k xs = xs := by
  induction xs with
  | nil => exact dropFirst_nil
  | cons y xs ih =>
      obtain ⟨hy, hxs⟩ := List.forall_mem_cons.1 h
      rw [dropFirst_cons_of_neg hy, ih hxs]

/-- Taking away the first element and then `k` more takes away `k + 1`. -/
theorem dropFirst_eraseP (k : Nat) (xs : List α) :
    dropFirst p k (xs.eraseP p) = dropFirst p (k + 1) xs := by
  induction xs with
  | nil => exact dropFirst_nil
  | cons x xs ih =>
      cases h : p x with
      | true => rw [List.eraseP_cons_of_pos h, dropFirst_cons_of_pos h]
      | false =>
          rw [List.eraseP_cons_of_neg (by simp [h]), dropFirst_cons_of_neg h,
            dropFirst_cons_of_neg h, ih]

theorem replaceFirst_replaceFirst (ha : q a = true) :
    replaceFirst q b (replaceFirst q a xs) = replaceFirst q b xs := by
  induction xs with
  | nil => rfl
  | cons x xs ih =>
      cases h : q x with
      | true =>
          rw [replaceFirst_cons_of_pos h, replaceFirst_cons_of_pos h, replaceFirst_cons_of_pos ha]
      | false =>
          rw [replaceFirst_cons_of_neg h, replaceFirst_cons_of_neg h, replaceFirst_cons_of_neg h,
            ih]

/-- Elements are taken away around a slot that is filled. -/
theorem dropFirst_replaceFirst (ha : p a = false) (hd : ∀ x, q x = true → p x = false) :
    dropFirst p k (replaceFirst q a xs) = replaceFirst q a (dropFirst p k xs) := by
  induction xs generalizing k with
  | nil => simp [replaceFirst]
  | cons x xs ih =>
      cases hq : q x with
      | true =>
          rw [replaceFirst_cons_of_pos hq, dropFirst_cons_of_neg ha,
            dropFirst_cons_of_neg (hd x hq), replaceFirst_cons_of_pos hq]
      | false =>
          rw [replaceFirst_cons_of_neg hq]
          cases hp : p x with
          | false =>
              rw [dropFirst_cons_of_neg hp, dropFirst_cons_of_neg hp,
                replaceFirst_cons_of_neg hq, ih]
          | true =>
              cases k with
              | zero => rw [dropFirst_zero, dropFirst_zero, replaceFirst_cons_of_neg hq]
              | succ k => rw [dropFirst_cons_of_pos hp, dropFirst_cons_of_pos hp, ih]

/-- The slot of the first element is filled, later elements are taken away, and
the slot is filled again. -/
theorem replaceFirst_dropFirst_replaceFirst (hp : p a = false) (hq : q a = true)
    (hnone : ∀ x ∈ xs, q x = false) :
    replaceFirst q b (dropFirst p k (replaceFirst p a xs)) =
      replaceFirst p b (dropLater p k xs) := by
  induction xs with
  | nil => simp [replaceFirst, dropLater]
  | cons x xs ih =>
      obtain ⟨hx, hxs⟩ := List.forall_mem_cons.1 hnone
      cases h : p x with
      | true =>
          rw [replaceFirst_cons_of_pos h, dropFirst_cons_of_neg hp, replaceFirst_cons_of_pos hq,
            dropLater, if_pos h, replaceFirst_cons_of_pos h]
      | false =>
          rw [replaceFirst_cons_of_neg h, dropFirst_cons_of_neg h, replaceFirst_cons_of_neg hx,
            ih hxs, dropLater, if_neg (by simp [h]), replaceFirst_cons_of_neg h]

end

namespace Legacy

/-! ## Rules -/

/-- The rules with a property among the statements, in order. -/
def rulesOf (p : Rule → Bool) (stmts : List Expr) : List Rule :=
  stmts.filterMap fun e => (Rule.ofExpr? e).filter p

/-- Decide whether a statement is a rule with a property. -/
def isRuleOf (p : Rule → Bool) (e : Expr) : Bool := (Rule.ofExpr? e).any p

variable {p q : Rule → Bool} {r new : Rule} {rs : List Rule} {stmts : List Expr}

theorem isLegacyStmt_eq (cv : Conventions) : isLegacyStmt cv = isRuleOf (isLegacy cv) := rfl

theorem isLibraryStmt_eq (cv : Conventions) : isLibraryStmt cv = isRuleOf (isLibrary cv) := rfl

@[simp] theorem isRuleOf_toExpr : isRuleOf p r.toExpr = p r := rfl

theorem rulesOf_append (xs ys : List Expr) : rulesOf p (xs ++ ys) = rulesOf p xs ++ rulesOf p ys :=
  List.filterMap_append

theorem rulesOf_cons_of_pos (h : p r = true) :
    rulesOf p (r.toExpr :: stmts) = r :: rulesOf p stmts := by
  have he : (Rule.ofExpr? r.toExpr).filter p = some r := by simp [h]
  exact List.filterMap_cons_some he

theorem rulesOf_cons_of_neg (h : p r = false) :
    rulesOf p (r.toExpr :: stmts) = rulesOf p stmts := by
  have he : (Rule.ofExpr? r.toExpr).filter p = none := by simp [h]
  exact List.filterMap_cons_none he

theorem firstRule?_eq_head? : firstRule? p stmts = (rulesOf p stmts).head? :=
  List.head?_filterMap.symm

theorem rulesOf_eq_nil_iff : rulesOf p stmts = [] ↔ ∀ e ∈ stmts, isRuleOf p e = false := by
  rw [rulesOf, List.filterMap_eq_nil_iff]
  refine forall₂_congr fun e _ => ?_
  cases h : Rule.ofExpr? e <;> simp [isRuleOf, h]

/-- The first rule with a property has a slot, before which there is none. -/
theorem exists_slot (h : rulesOf p stmts = r :: rs) :
    p r = true ∧ ∃ pre post, stmts = pre ++ r.toExpr :: post ∧ rulesOf p pre = [] ∧
      rulesOf p post = rs := by
  obtain ⟨pre, e, post, rfl, hpre, he, hpost⟩ := List.filterMap_eq_cons_iff.1 h
  obtain ⟨he, hr⟩ := Option.filter_eq_some_iff.1 he
  rw [Rule.ofExpr?_eq_some_iff.1 he]
  exact ⟨hr, pre, post, rfl, List.filterMap_eq_nil_iff.2 hpre, hpost⟩

theorem replaceFirst_slot {pre post : List Expr} {e : Expr} (hpre : rulesOf p pre = [])
    (hr : p r = true) :
    replaceFirst (isRuleOf p) e (pre ++ r.toExpr :: post) = pre ++ e :: post :=
  replaceFirst_append_cons (rulesOf_eq_nil_iff.1 hpre) hr

theorem eraseP_slot {pre post : List Expr} (hpre : rulesOf p pre = []) (hr : p r = true) :
    (pre ++ r.toExpr :: post).eraseP (isRuleOf p) = pre ++ post :=
  eraseP_append_cons (rulesOf_eq_nil_iff.1 hpre) hr

/-- The first rule in its own slot changes nothing. -/
theorem replaceFirst_self (h : rulesOf p stmts = r :: rs) :
    replaceFirst (isRuleOf p) r.toExpr stmts = stmts := by
  obtain ⟨hr, pre, post, rfl, hpre, -⟩ := exists_slot h
  exact replaceFirst_slot hpre hr

theorem rulesOf_eraseP (h : rulesOf p stmts = r :: rs) :
    rulesOf p (stmts.eraseP (isRuleOf p)) = rs := by
  obtain ⟨hr, pre, post, rfl, hpre, hpost⟩ := exists_slot h
  rw [eraseP_slot hpre hr, rulesOf_append, hpre, hpost, List.nil_append]

theorem rulesOf_eraseP_other (h : rulesOf p stmts = r :: rs) (hq : q r = false) :
    rulesOf q (stmts.eraseP (isRuleOf p)) = rulesOf q stmts := by
  obtain ⟨hr, pre, post, rfl, hpre, -⟩ := exists_slot h
  rw [eraseP_slot hpre hr, rulesOf_append, rulesOf_append, rulesOf_cons_of_neg hq]

/-- Another rule in the slot of the first one takes its place among the rules. -/
theorem rulesOf_replaceFirst (h : rulesOf p stmts = r :: rs) (hnew : p new = true) :
    rulesOf p (replaceFirst (isRuleOf p) new.toExpr stmts) = new :: rs := by
  obtain ⟨hr, pre, post, rfl, hpre, hpost⟩ := exists_slot h
  rw [replaceFirst_slot hpre hr, rulesOf_append, rulesOf_cons_of_pos hnew, hpre, hpost,
    List.nil_append]

theorem rulesOf_replaceFirst_of_neg (h : rulesOf p stmts = r :: rs) (hnew : p new = false) :
    rulesOf p (replaceFirst (isRuleOf p) new.toExpr stmts) = rs := by
  obtain ⟨hr, pre, post, rfl, hpre, hpost⟩ := exists_slot h
  rw [replaceFirst_slot hpre hr, rulesOf_append, rulesOf_cons_of_neg hnew, hpre, hpost,
    List.nil_append]

theorem rulesOf_replaceFirst_other (h : rulesOf p stmts = r :: rs) (hr' : q r = false)
    (hnew : q new = false) :
    rulesOf q (replaceFirst (isRuleOf p) new.toExpr stmts) = rulesOf q stmts := by
  obtain ⟨hr, pre, post, rfl, hpre, -⟩ := exists_slot h
  rw [replaceFirst_slot hpre hr, rulesOf_append, rulesOf_append, rulesOf_cons_of_neg hnew,
    rulesOf_cons_of_neg hr']

theorem rulesOf_replaceFirst_new (h : rulesOf p stmts = r :: rs) (hnone : rulesOf q stmts = [])
    (hnew : q new = true) :
    rulesOf q (replaceFirst (isRuleOf p) new.toExpr stmts) = [new] := by
  obtain ⟨hr, pre, post, rfl, hpre, -⟩ := exists_slot h
  have hnone' := rulesOf_eq_nil_iff.1 hnone
  have hpre' : rulesOf q pre = [] :=
    rulesOf_eq_nil_iff.2 fun e he => hnone' e (List.mem_append_left _ he)
  have hpost' : rulesOf q post = [] :=
    rulesOf_eq_nil_iff.2 fun e he => hnone' e (List.mem_append_right _ (List.mem_cons_of_mem _ he))
  rw [replaceFirst_slot hpre hr, rulesOf_append, rulesOf_cons_of_pos hnew, hpre', hpost',
    List.nil_append]

end Legacy

end BuildFix
