import BuildFix.Fixer
import BuildFix.Proofs.Legacy.Passes
import BuildFix.Proofs.Loads.FixedPoint

/-!
# Running the fixers again

A run of all fixers is a pass of folding and then a reconciling of the loads.
Run on its own output, it folds one legacy rule in each run until none is left
(`legacyRules_rerun`), since reconciling adds, changes and takes away loads
only.  After the first run the loads are reconciled, since reconciling comes
last.  So a run has nothing left to do once it is not the first and all legacy
rules are folded (`rerun_converges`).
-/

namespace BuildFix

namespace Fixed

open Legacy (legacyRules pass)

variable {cv : Conventions} {f : File}

/-! ## One run -/

theorem file_step (cv : Conventions) (r : Fixed) (fixer : Fixer) :
    (step cv r fixer).file = (fixer.rewrite cv r.file).getD r.file := by
  unfold step
  cases fixer.rewrite cv r.file <;> rfl

theorem applied_step (cv : Conventions) (r : Fixed) (fixer : Fixer) :
    (step cv r fixer).applied =
      r.applied ++ if (fixer.rewrite cv r.file).isSome then [fixer] else [] := by
  unfold step
  cases fixer.rewrite cv r.file <;> simp

/-- A run is a pass of folding and then a reconciling of the loads. -/
theorem file_run (cv : Conventions) (f : File) :
    (run cv Fixer.all f).file = cv.symbols.reconciled (pass cv f) := by
  show (step cv (step cv { file := f } .legacy) .loads).file = _
  rw [file_step, file_step]
  rfl

theorem applied_run (cv : Conventions) (f : File) :
    (run cv Fixer.all f).applied =
      (if (Legacy.fold cv f).isSome then [Fixer.legacy] else []) ++
        if (cv.symbols.reconcile (pass cv f)).isSome then [Fixer.loads] else [] := by
  show (step cv (step cv { file := f } .legacy) .loads).applied = _
  rw [applied_step, applied_step, file_step]
  rfl

theorem legacy_mem_applied_run_iff :
    Fixer.legacy ∈ (run cv Fixer.all f).applied ↔ legacyRules cv f.stmts ≠ [] := by
  rw [applied_run, Ne, ← Legacy.fold_eq_none_iff]
  cases Legacy.fold cv f <;> cases cv.symbols.reconcile (pass cv f) <;> simp

/-- A run has nothing to do on a reconciled file without legacy rules. -/
theorem run_of_settled (hnone : legacyRules cv f.stmts = []) (hrec : cv.symbols.Reconciled f) :
    (run cv Fixer.all f).applied = [] ∧ (run cv Fixer.all f).file = f := by
  have hfold : Legacy.fold cv f = none := Legacy.fold_eq_none_iff.2 hnone
  have hpass : pass cv f = f := by rw [Legacy.pass, hfold, Option.getD_none]
  have hloads : cv.symbols.reconcile f = none :=
    SymbolTable.reconcile_eq_none_iff_reconciled.2 hrec
  constructor
  · rw [applied_run, hpass, hfold, hloads]
    rfl
  · rw [file_run, hpass, SymbolTable.reconciled, hloads, Option.getD_none]

/-! ## Legacy rules and loads -/

theorem isLegacyStmt_eq_false_of_managed (e : Expr) (h : (cv.symbols.managed? e).isSome = true) :
    Legacy.isLegacyStmt cv e = false := by
  rw [← Bool.not_eq_true]
  intro hlegacy
  obtain ⟨r, hr, hl⟩ := (Option.any_eq_true _ _).1 hlegacy
  have hcall : e.callName? ≠ some "load" := by
    simp only [Legacy.isLegacy, Bool.and_eq_true, beq_iff_eq] at hl
    rw [Rule.ofExpr?_eq_some_iff.1 hr, Rule.callName?_toExpr, hl.1.1]
    decide
  rw [SymbolTable.managed?_eq_none_of_callName? hcall] at h
  cases h

theorem legacyRules_eq_filter (cv : Conventions) (stmts : List Expr) :
    legacyRules cv stmts = legacyRules cv (stmts.filter (Legacy.isLegacyStmt cv)) := by
  rw [legacyRules, legacyRules, Legacy.rulesOf, Legacy.rulesOf, List.filterMap_filter]
  refine List.filterMap_congr fun e _ => ?_
  cases hr : Rule.ofExpr? e with
  | none => simp
  | some r => cases hl : Legacy.isLegacy cv r <;> simp [Legacy.isLegacyStmt, hr, hl]

/-- Reconciling the loads leaves the legacy rules. -/
theorem legacyRules_reconciled (cv : Conventions) (f : File) :
    legacyRules cv (cv.symbols.reconciled f).stmts = legacyRules cv f.stmts := by
  rw [legacyRules_eq_filter, SymbolTable.filter_reconciled isLegacyStmt_eq_false_of_managed,
    ← legacyRules_eq_filter]

/-! ## Run after run -/

/-- The outcome of the run with a number, counted from one, each on the file of
the one before. -/
def rerun (cv : Conventions) (f : File) : Nat → Fixed
  | 0 => { file := f }
  | i + 1 => run cv Fixer.all (rerun cv f i).file

/-- Each run folds one legacy rule. -/
theorem legacyRules_rerun (cv : Conventions) (f : File) (i : Nat) :
    legacyRules cv (rerun cv f i).file.stmts = (legacyRules cv f.stmts).drop i := by
  induction i with
  | zero => rfl
  | succ i ih =>
      rw [rerun, file_run, legacyRules_reconciled, Legacy.legacyRules_pass, ih, List.tail_drop]

theorem legacy_mem_applied_rerun_iff (i : Nat) :
    Fixer.legacy ∈ (rerun cv f (i + 1)).applied ↔ i < (legacyRules cv f.stmts).length := by
  rw [rerun, legacy_mem_applied_run_iff, legacyRules_rerun, Ne, List.drop_eq_nil_iff, Nat.not_le]

/-- After every run the loads are reconciled. -/
theorem reconciled_rerun (hload : cv.symbols.knows "load" = false) (f : File) (i : Nat) :
    cv.symbols.Reconciled (rerun cv f (i + 1)).file := by
  rw [rerun, file_run]
  exact SymbolTable.reconciled_reconciled hload _

theorem rerun_settled (hload : cv.symbols.knows "load" = false) {i : Nat}
    (hn : (legacyRules cv f.stmts).length ≤ i + 1) :
    (rerun cv f (i + 2)).applied = [] ∧ (rerun cv f (i + 2)).file = (rerun cv f (i + 1)).file := by
  refine run_of_settled ?_ (reconciled_rerun hload f i)
  rw [legacyRules_rerun, List.drop_eq_nil_iff]
  exact hn

/-- Of `n` legacy rules each of the first `n` runs folds one and no later run
does.  Every run that comes after these and is not the first has nothing to do. -/
theorem rerun_converges (cv : Conventions) (hload : cv.symbols.knows "load" = false) (f : File) :
    (∀ i, 1 ≤ i → i ≤ (legacyRules cv f.stmts).length →
      Fixer.legacy ∈ (rerun cv f i).applied) ∧
    (∀ i, (legacyRules cv f.stmts).length < i → Fixer.legacy ∉ (rerun cv f i).applied) ∧
    (∀ i, max (legacyRules cv f.stmts).length 1 < i →
      (rerun cv f i).applied = [] ∧ (rerun cv f i).file = (rerun cv f (i - 1)).file) ∧
    ((legacyRules cv f.stmts).length ≤ 1 →
      (rerun cv f 2).applied = [] ∧ (rerun cv f 2).file = (rerun cv f 1).file) := by
  refine ⟨fun i hi hn => ?_, fun i hn => ?_, fun i hn => ?_, fun hn => ?_⟩
  · obtain ⟨i, rfl⟩ := Nat.exists_eq_add_of_le' hi
    exact (legacy_mem_applied_rerun_iff i).2 hn
  · obtain ⟨i, rfl⟩ := Nat.exists_eq_succ_of_ne_zero (Nat.ne_zero_of_lt hn)
    rw [legacy_mem_applied_rerun_iff]
    omega
  · obtain ⟨i, rfl⟩ : ∃ j, i = j + 2 := ⟨i - 2, by omega⟩
    exact rerun_settled hload (by omega)
  · exact rerun_settled hload hn

/-- A file with two legacy rules and no library. -/
def twoLegacy : File where
  stmts := [
    .call (.literal "cgo_library" {}) [.keyword "name" (.string "cgo_default_library" {}),
      .keyword "srcs" (.list [.string "a.go" {}] {})] false {},
    .call (.literal "cgo_library" {}) [.keyword "name" (.string "cgo_default_library" {}),
      .keyword "srcs" (.list [.string "b.go" {}] {})] false {}]

theorem twoLegacy_converges :
    SymbolTable.standard.knows "load" = false ∧ (legacyRules {} twoLegacy.stmts).length = 2 ∧
      Fixer.legacy ∈ (rerun {} twoLegacy 2).applied ∧ (rerun {} twoLegacy 3).applied = [] ∧
      (rerun {} twoLegacy 3).file = (rerun {} twoLegacy 2).file := by
  have hload : SymbolTable.standard.knows "load" = false := by decide +kernel
  have hn : (legacyRules {} twoLegacy.stmts).length = 2 := by decide +kernel
  obtain ⟨hfold, -, hsettled, -⟩ := rerun_converges {} hload twoLegacy
  rw [hn] at hfold hsettled
  exact ⟨hload, hn, hfold 2 (by decide) (by decide), hsettled 3 (by decide)⟩

end Fixed

end BuildFix
