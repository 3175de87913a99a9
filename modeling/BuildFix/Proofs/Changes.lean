import BuildFix.Proofs.Convergence
import BuildFix.Run
import Mathlib.Data.List.Sublists

/-!
# Changes are real

No fixer compares build files.  A fixer says that it rewrote a file when it has
something to do, and this is so exactly when the file is another one afterwards.

Reconciling has nothing to do on a file that is its own reconciled form, since
the loads of a reconciled form are allotted (`reconcile_ne`).  Folding takes a
legacy rule away (`legacyCount_fold_lt`).  A later reconciling keeps the number
of legacy rules, so it never brings the old file back (`applied_eq_nil_iff`).

Statuses, entries of the report and effects go by the fixers that were applied,
so each of them tells of a real change (`changed_iff_file_ne`).
-/

namespace BuildFix

open Legacy (legacyRules pass)

variable {cv : Conventions} {f g : File}

/-! ## One fixer -/

/-- Reconciling never rewrites a file to itself. -/
theorem SymbolTable.reconcile_ne {t : SymbolTable} (h : t.reconcile f = some g) : g ≠ f := by
  rintro rfl
  have self : t.reconciled g = g := by
    rw [SymbolTable.reconciled, h]
    rfl
  have settled : t.Reconciled g := by
    intro file hf
    have allotted := t.allotted_reconciled g hf
    rwa [self] at allotted
  rw [reconcile_eq_none_iff_reconciled.2 settled] at h
  cases h

/-- The number of legacy rules of a build file. -/
def Legacy.legacyCount (cv : Conventions) (f : File) : Nat := (legacyRules cv f.stmts).length

/-- Folding takes a legacy rule away. -/
theorem Legacy.legacyCount_fold_lt (h : fold cv f = some g) :
    legacyCount cv g < legacyCount cv f := by
  have hpass : pass cv f = g := by
    rw [pass, h]
    rfl
  have hsome : legacyRules cv f.stmts ≠ [] := by
    intro hnil
    rw [fold_eq_none_iff.2 hnil] at h
    cases h
  have htail := legacyRules_pass cv f
  rw [hpass] at htail
  rw [legacyCount, legacyCount, htail, List.length_tail]
  exact Nat.sub_lt (List.length_pos_iff.2 hsome) Nat.one_pos

theorem Legacy.legacyCount_reconciled (cv : Conventions) (f : File) :
    legacyCount cv (cv.symbols.reconciled f) = legacyCount cv f :=
  congrArg List.length (Fixed.legacyRules_reconciled cv f)

/-- A fixer never rewrites a file to itself. -/
theorem Fixer.rewrite_ne {fixer : Fixer} (h : fixer.rewrite cv f = some g) : g ≠ f := by
  cases fixer with
  | legacy =>
      rintro rfl
      exact Nat.lt_irrefl _ (Legacy.legacyCount_fold_lt h)
  | loads => exact SymbolTable.reconcile_ne h

namespace Fixed

/-! ## Runs -/

variable {fixers first : List Fixer}

theorem run_append (cv : Conventions) (first rest : List Fixer) (f : File) :
    run cv (first ++ rest) f = rest.foldl (step cv) (run cv first f) :=
  List.foldl_append

/-- A run notes what it did before when it goes on. -/
theorem applied_prefix_foldl (cv : Conventions) (rest : List Fixer) (r : Fixed) :
    r.applied <+: (rest.foldl (step cv) r).applied := by
  induction rest generalizing r with
  | nil => exact List.prefix_refl _
  | cons fixer rest ih =>
      refine List.IsPrefix.trans ?_ (ih (step cv r fixer))
      rw [applied_step]
      exact List.prefix_append _ _

theorem sublist_all_cases (h : fixers.Sublist Fixer.all) :
    fixers = [] ∨ fixers = [.legacy] ∨ fixers = [.loads] ∨ fixers = Fixer.all := by
  have hmem : fixers ∈ Fixer.all.sublists := List.mem_sublists.2 h
  have hlist : Fixer.all.sublists = [[], [.legacy], [.loads], Fixer.all] := by decide
  simpa [hlist] using hmem

theorem applied_eq_nil_iff_single (fixer : Fixer) (f : File) :
    (run cv [fixer] f).applied = [] ↔ (run cv [fixer] f).file = f := by
  show (step cv { file := f } fixer).applied = [] ↔ (step cv { file := f } fixer).file = f
  rw [applied_step, file_step]
  cases h : fixer.rewrite cv f with
  | none => simp
  | some g => simpa using Fixer.rewrite_ne h

theorem applied_eq_nil_iff_all (f : File) :
    (run cv Fixer.all f).applied = [] ↔ (run cv Fixer.all f).file = f := by
  rw [applied_run, file_run]
  cases hfold : Legacy.fold cv f with
  | none =>
      have hpass : pass cv f = f := by rw [Legacy.pass, hfold, Option.getD_none]
      rw [hpass, SymbolTable.reconciled]
      cases hloads : cv.symbols.reconcile f with
      | none => simp
      | some g => simpa using SymbolTable.reconcile_ne hloads
  | some g =>
      have hpass : pass cv f = g := by rw [Legacy.pass, hfold, Option.getD_some]
      have hcount := Legacy.legacyCount_fold_lt hfold
      rw [hpass]
      refine iff_of_false (by simp) fun heq => ?_
      -- The rule that was folded is gone for good.
      rw [← Legacy.legacyCount_reconciled, heq] at hcount
      exact Nat.lt_irrefl _ hcount

/-- The fixers that are enabled leave the file alone exactly when none of them
was applied. -/
theorem applied_eq_nil_iff (h : fixers.Sublist Fixer.all) (f : File) :
    (run cv fixers f).applied = [] ↔ (run cv fixers f).file = f := by
  rcases sublist_all_cases h with rfl | rfl | rfl | rfl
  · exact iff_of_true rfl rfl
  · exact applied_eq_nil_iff_single .legacy f
  · exact applied_eq_nil_iff_single .loads f
  · exact applied_eq_nil_iff_all f

theorem changed_iff (h : fixers.Sublist Fixer.all) (f : File) :
    (run cv fixers f).changed = true ↔ (run cv fixers f).file ≠ f := by
  rw [Ne, ← applied_eq_nil_iff h]
  simp [changed]

/-- What some of the enabled fixers changed stays changed by the others. -/
theorem file_ne_of_prefix (h : fixers.Sublist Fixer.all) (hfirst : first <+: fixers)
    (hne : (run cv first f).file ≠ f) : (run cv fixers f).file ≠ f := by
  obtain ⟨rest, rfl⟩ := hfirst
  have hsub : first.Sublist Fixer.all := (List.sublist_append_left first rest).trans h
  rw [Ne, ← applied_eq_nil_iff hsub] at hne
  rw [Ne, ← applied_eq_nil_iff h]
  intro hnil
  have happlied := applied_prefix_foldl cv rest (run cv first f)
  rw [← run_append, hnil] at happlied
  exact hne (List.prefix_nil.1 happlied)

end Fixed

/-! ## Trees -/

/-- A tree that was read and that the fixers make another one. -/
def SourceTree.Differs (cv : Conventions) (fixers : List Fixer) (tree : SourceTree) : Prop :=
  ∃ f, tree.content = .ok f ∧ (Fixed.run cv fixers f).file ≠ f

namespace ProcessedTree

variable {fixers : List Fixer} {tree : SourceTree}

theorem status_of_eq_fixed_iff (h : fixers.Sublist Fixer.all) :
    (ProcessedTree.of cv fixers tree).status = .fixed ↔ tree.Differs cv fixers := by
  obtain ⟨path, relPath, content⟩ := tree
  cases content with
  | error e => simp [ProcessedTree.of, status, SourceTree.Differs, Except.map]
  | ok f =>
      simp only [ProcessedTree.of, status, SourceTree.Differs, Except.map, Except.ok.injEq,
        exists_eq_left', ← Fixed.changed_iff h]
      cases (Fixed.run cv fixers f).changed <;> simp

/-- The entry of a report gives the status of its tree. -/
theorem status_entry (p : ProcessedTree) : p.entry.status = p.status := by
  cases h : p.result <;> simp [entry, h]

/-- A tree is written if its status says that it was fixed. -/
theorem isSome_write?_iff (p : ProcessedTree) (outDir : Option Path) :
    (p.write? outDir).isSome = true ↔ p.status = .fixed := by
  cases h : p.result with
  | error e => simp [write?, rewritten?, status, h]
  | ok r => cases hc : r.changed <;> simp [write?, rewritten?, status, h, hc]

/-- What is written for a tree is the text of the rewritten build file, at the target
of the tree. -/
theorem write?_eq_some_iff {outDir : Option Path} {e : Effect} :
    (ProcessedTree.of cv fixers tree).write? outDir = some e ↔
      ∃ f, tree.content = .ok f ∧ (Fixed.run cv fixers f).changed = true ∧
        e = .write ((ProcessedTree.of cv fixers tree).target outDir)
          (Fixed.run cv fixers f).file.text := by
  obtain ⟨path, relPath, content⟩ := tree
  cases content with
  | error e => simp [ProcessedTree.of, write?, rewritten?, Except.map]
  | ok f =>
      simp only [ProcessedTree.of, write?, rewritten?, Except.map, Except.ok.injEq,
        exists_eq_left']
      cases (Fixed.run cv fixers f).changed <;> simp [eq_comm]

end ProcessedTree

/-- Whatever is disabled, a run of the fixers says that it changed a file exactly
when the file is another one afterwards, and what the first fixers changed the
others never change back.  A tree has the status that says so, is reported with
it and is written exactly when its fixed form is another tree. -/
theorem changed_iff_file_ne (cv : Conventions) (disabled : List String) :
    let fixers := Fixer.without Fixer.all disabled
    (∀ f, (Fixed.run cv fixers f).changed = true ↔ (Fixed.run cv fixers f).file ≠ f) ∧
    (∀ f, ∀ first, first <+: fixers → (Fixed.run cv first f).file ≠ f →
      (Fixed.run cv fixers f).file ≠ f) ∧
    ∀ tree outDir,
      let processed := ProcessedTree.of cv fixers tree
      (processed.status = .fixed ↔ tree.Differs cv fixers) ∧
      (processed.entry.status = .fixed ↔ tree.Differs cv fixers) ∧
      ((processed.write? outDir).isSome = true ↔ tree.Differs cv fixers) := by
  intro fixers
  have henabled : fixers.Sublist Fixer.all := List.filter_sublist
  refine ⟨Fixed.changed_iff henabled, fun f first => Fixed.file_ne_of_prefix henabled, ?_⟩
  intro tree outDir processed
  have hstatus : processed.status = .fixed ↔ tree.Differs cv fixers :=
    ProcessedTree.status_of_eq_fixed_iff henabled
  refine ⟨hstatus, ?_, ?_⟩
  · rw [ProcessedTree.status_entry]
    exact hstatus
  · rw [ProcessedTree.isSome_write?_iff]
    exact hstatus

end BuildFix
