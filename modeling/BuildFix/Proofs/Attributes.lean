import BuildFix.Tree.Rule

/-!
# Attributes after an update

Setting or erasing an attribute leaves every other attribute of a rule as it
was.  The arguments are gone through one by one.  An argument of the attribute
that is set or erased is passed over by the look-up of any other attribute, and
no other argument changes.
-/

namespace BuildFix

namespace Rule

variable {key other : String} {value arg : Expr} {args : List Expr}

theorem isArgOf_iff : isArgOf key arg = true ↔ ∃ v, arg.keyword? = some (key, v) := by
  cases h : arg.keyword? with
  | none => simp [isArgOf, h]
  | some kv => simp [isArgOf, h, Prod.ext_iff]

/-- The look-up of an attribute passes over an argument of another one. -/
theorem lookup_cons_of_ne (h : isArgOf key arg = true) (hne : other ≠ key) :
    ((arg :: args).filterMap Expr.keyword?).lookup other =
      (args.filterMap Expr.keyword?).lookup other := by
  obtain ⟨v, hv⟩ := isArgOf_iff.1 h
  rw [List.filterMap_cons_some hv, List.lookup_cons, beq_false_of_ne hne]

/-- The look-ups behind an equal argument decide the look-ups. -/
theorem lookup_cons_congr {args' : List Expr}
    (h : (args.filterMap Expr.keyword?).lookup other =
      (args'.filterMap Expr.keyword?).lookup other) :
    ((arg :: args).filterMap Expr.keyword?).lookup other =
      ((arg :: args').filterMap Expr.keyword?).lookup other := by
  cases hk : arg.keyword? with
  | none => rw [List.filterMap_cons_none hk, List.filterMap_cons_none hk, h]
  | some kv =>
      rw [List.filterMap_cons_some hk, List.filterMap_cons_some hk, List.lookup_cons,
        List.lookup_cons, h]

theorem isArgOf_setValue (h : isArgOf key arg = true) : isArgOf key (setValue value arg) = true :=
  isArgOf_iff.2 ⟨value, keyword?_setValue h⟩

theorem lookup_setArg_of_ne (hne : other ≠ key) :
    ((setArg key value args).filterMap Expr.keyword?).lookup other =
      (args.filterMap Expr.keyword?).lookup other := by
  induction args with
  | nil => exact lookup_cons_of_ne (isArgOf_iff.2 ⟨value, rfl⟩) hne
  | cons arg args ih =>
      rw [setArg]
      split
      next h => rw [lookup_cons_of_ne (isArgOf_setValue h) hne, lookup_cons_of_ne h hne]
      next h => exact lookup_cons_congr ih

theorem lookup_eraseP_of_ne (hne : other ≠ key) :
    ((args.eraseP (isArgOf key)).filterMap Expr.keyword?).lookup other =
      (args.filterMap Expr.keyword?).lookup other := by
  induction args with
  | nil => rfl
  | cons arg args ih =>
      by_cases h : isArgOf key arg = true
      · rw [List.eraseP_cons_of_pos h, lookup_cons_of_ne h hne]
      · rw [List.eraseP_cons_of_neg h]
        exact lookup_cons_congr ih

/-- Setting an attribute leaves the others as they were. -/
theorem attr?_setAttr_of_ne (r : Rule) (value : Expr) (hne : other ≠ key) :
    (r.setAttr key value).attr? other = r.attr? other :=
  lookup_setArg_of_ne hne

/-- Erasing an attribute leaves the others as they were. -/
theorem attr?_eraseAttr_of_ne (r : Rule) (hne : other ≠ key) :
    (r.eraseAttr key).attr? other = r.attr? other :=
  lookup_eraseP_of_ne hne

end Rule

end BuildFix
