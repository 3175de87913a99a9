import BuildFix.Proofs.Loads.FixedPoint

/-!
# Loads that agree with use

The loads of a build file agree with the symbols it uses when four conditions
hold of every file of the table (`LoadsAgree`).  A file with used symbols is
loaded.  Its first load has exactly its used symbols as symbols of the table.
Its later loads have none.  None of its loads is a label alone.

The conditions speak of all loads of a file at once, and `Reconciled` goes
through them one after the other, so the two are the same (`loadsAgree_iff`).
Reconciling has nothing to do exactly when the loads agree with use, and what it
leaves agrees, so one pass is enough (`reconcile_settles`).
-/

namespace BuildFix

namespace SymbolTable

variable {t : SymbolTable} {f : File} {wanted : List String}

/-- The loads of a build file agree with the symbols it uses. -/
structure LoadsAgree (t : SymbolTable) (f : File) : Prop where
  /-- A file with used symbols is loaded. -/
  loaded : ∀ file ∈ t.files, t.used f file ≠ [] → loadsOf file.label f.stmts ≠ []
  /-- The first load of a file has its used symbols and no other symbol of the
  table. -/
  first : ∀ file ∈ t.files, ∀ args ∈ (loadsOf file.label f.stmts).head?, ∀ s,
    s ∈ t.symbolsAmong args ↔ s ∈ t.used f file
  /-- Later loads of a file have no symbol of the table. -/
  later : ∀ file ∈ t.files, ∀ args ∈ (loadsOf file.label f.stmts).tail, t.symbolsAmong args = []
  /-- No load of a file is its label alone. -/
  argued : ∀ file ∈ t.files, ∀ args ∈ loadsOf file.label f.stmts, args ≠ []

theorem allotted_iff {loads : List (List Expr)} :
    t.Allotted wanted loads ↔
      (∀ args ∈ loads.head?, t.Carries args wanted) ∧
        (∀ args ∈ loads.tail, t.symbolsAmong args = []) ∧ ∀ args ∈ loads, args ≠ [] := by
  cases loads with
  | nil => simp [Allotted]
  | cons first later =>
      simp only [Allotted, carries_nil_iff, List.head?_cons, Option.mem_some_iff, forall_eq',
        List.tail_cons, List.forall_mem_cons]
      constructor
      · rintro ⟨⟨hne, hc⟩, hlater⟩
        exact ⟨hc, fun args ha => (hlater args ha).2, hne, fun args ha => (hlater args ha).1⟩
      · rintro ⟨hc, hnone, hne, hargued⟩
        exact ⟨⟨hne, hc⟩, fun args ha => ⟨hargued args ha, hnone args ha⟩⟩

theorem loadsAgree_iff : t.LoadsAgree f ↔ t.Reconciled f := by
  constructor
  · intro h file hf
    refine ⟨allotted_iff.2 ⟨h.first file hf, h.later file hf, h.argued file hf⟩, fun hnone => ?_⟩
    by_contra hused
    exact h.loaded file hf hused hnone
  · intro h
    have loads file hf := allotted_iff.1 (h file hf).1
    exact ⟨fun file hf hused hnone => hused ((h file hf).2 hnone),
      fun file hf => (loads file hf).1, fun file hf => (loads file hf).2.1,
      fun file hf => (loads file hf).2.2⟩

/-- Reconciling has nothing to do exactly when the loads agree with use.  If
`load` is no symbol of the table, the loads agree with use after one pass, and a
second one has nothing to do. -/
theorem reconcile_settles (hload : t.knows "load" = false) (f : File) :
    (t.reconcile f = none ↔ t.LoadsAgree f) ∧ t.LoadsAgree (t.reconciled f) ∧
      t.reconcile (t.reconciled f) = none := by
  have settled : t.Reconciled (t.reconciled f) := reconciled_reconciled hload f
  refine ⟨?_, loadsAgree_iff.2 settled, reconcile_eq_none_iff_reconciled.2 settled⟩
  rw [reconcile_eq_none_iff_reconciled, loadsAgree_iff]

/-- A file with a load that is a label alone, a later load of the same file and a
call. -/
def repeatedLoads : File where
  stmts := [
    .call (.literal "load" {}) [.string goRules.label {}] false {},
    .call (.literal "load" {}) [.string goRules.label {}, .string "go_test" {},
      .string "go_binary" {}] false {},
    .call (.literal "go_test" {}) [] false {}]

theorem repeatedLoads_settled :
    standard.knows "load" = false ∧
      ¬standard.LoadsAgree repeatedLoads ∧ standard.LoadsAgree (standard.reconciled repeatedLoads) ∧
      standard.reconcile (standard.reconciled repeatedLoads) = none := by
  have hload : standard.knows "load" = false := by decide +kernel
  obtain ⟨hiff, hsettled⟩ := reconcile_settles hload repeatedLoads
  refine ⟨hload, ?_, hsettled⟩
  rw [← hiff]
  decide +kernel

end SymbolTable

end BuildFix
