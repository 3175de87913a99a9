import BuildFix.Proofs.Loads.Revision
import Mathlib.Data.List.Nodup

/-!
# Revising the statements of a file

The statements of a reconciled build file are the new loads followed by what the
revision of each statement leaves (`stmts_reconciled`).  This is so whether or
not reconciling had anything to do, since a statement that is kept leaves itself.

`revisedStmts` is what the revision leaves, with one equation for a statement
that is no managed load and one for a managed load of a file.  `loadsOf` reads
the loads of a label off a list of statements, each as the arguments behind the
label.  A label stands for one file of the table (`eq_of_label_eq`), so
revising the loads of one file leaves those of any other as they are.
-/

namespace BuildFix

/-- The loads of a label, each as the arguments behind the label, in order. -/
def loadsOf (label : String) (stmts : List Expr) : List (List Expr) :=
  stmts.filterMap fun stmt => (load? stmt).bind fun l => if l.1 = label then some l.2 else none

@[simp] theorem loadsOf_nil (label : String) : loadsOf label [] = [] := rfl

theorem loadsOf_append (label : String) (xs ys : List Expr) :
    loadsOf label (xs ++ ys) = loadsOf label xs ++ loadsOf label ys := by
  simp [loadsOf]

theorem loadsOf_cons_load {label : String} {stmt : Expr} {args : List Expr} (stmts : List Expr)
    (h : load? stmt = some (label, args)) :
    loadsOf label (stmt :: stmts) = args :: loadsOf label stmts := by
  simp [loadsOf, h]

theorem loadsOf_cons_of_ne {label other : String} {stmt : Expr} {args : List Expr}
    (stmts : List Expr) (h : load? stmt = some (label, args)) (hne : label ≠ other) :
    loadsOf other (stmt :: stmts) = loadsOf other stmts := by
  simp [loadsOf, h, hne]

theorem loadsOf_cons_other {label : String} {stmt : Expr} (stmts : List Expr)
    (h : ∀ args, load? stmt ≠ some (label, args)) :
    loadsOf label (stmt :: stmts) = loadsOf label stmts := by
  cases hl : load? stmt with
  | none => simp [loadsOf, hl]
  | some l =>
      have hne : l.1 ≠ label := by
        rintro rfl
        exact h l.2 hl
      simp [loadsOf, hl, hne]

/-- A label has loads among the statements when one of them loads it. -/
theorem loadsOf_eq_nil_iff {label : String} {stmts : List Expr} :
    loadsOf label stmts = [] ↔ ∀ stmt ∈ stmts, (load? stmt).any (·.1 == label) = false := by
  simp only [loadsOf, List.filterMap_eq_nil_iff, Option.bind_eq_none_iff]
  refine forall₂_congr fun stmt _ => ?_
  cases load? stmt <;> simp

namespace SymbolTable

variable {t : SymbolTable} {used : SymbolFile → List String} {seen : List String}

/-! ## Files and labels -/

/-- Two files of a table with the same label are the same file. -/
theorem eq_of_label_eq {file g : SymbolFile} (hf : file ∈ t.files) (hg : g ∈ t.files)
    (h : file.label = g.label) : file = g := by
  have hn : (t.files.map SymbolFile.label).Nodup := List.pairwise_map.2 t.wellFormed.labels
  exact List.inj_on_of_nodup_map hn hf hg h

theorem managed?_eq_some {stmt : Expr} {file : SymbolFile} (h : t.managed? stmt = some file) :
    file ∈ t.files ∧ ∃ args, load? stmt = some (file.label, args) := by
  obtain ⟨⟨label, args⟩, hl, hf⟩ := Option.bind_eq_some_iff.1 h
  have hlabel : file.label = label := by simpa using List.find?_some hf
  subst hlabel
  exact ⟨List.mem_of_find?_eq_some hf, args, hl⟩

theorem managed?_of_load? {stmt : Expr} {file : SymbolFile} {args : List Expr}
    (hf : file ∈ t.files) (h : load? stmt = some (file.label, args)) :
    t.managed? stmt = some file := by
  simp only [managed?, h, Option.bind_some]
  cases hg : t.files.find? (·.label == file.label) with
  | none =>
      have := List.find?_eq_none.1 hg file hf
      simp at this
  | some g =>
      have hlabel : g.label = file.label := by simpa using List.find?_some hg
      rw [eq_of_label_eq (List.mem_of_find?_eq_some hg) hf hlabel]

/-! ## What the revision leaves -/

/-- The build file with its loads reconciled, changed or not. -/
def reconciled (t : SymbolTable) (f : File) : File := (t.reconcile f).getD f

/-- The statements that the revision leaves. -/
def revisedStmts (t : SymbolTable) (used : SymbolFile → List String) (seen : List String)
    (stmts : List Expr) : List Expr :=
  (t.reviseStmts used seen stmts).flatMap fun s => s.2.apply s.1

/-- What a load of the file should have, where the files with the labels `seen`
have their first load behind them. -/
def wantedOf (used : SymbolFile → List String) (seen : List String) (file : SymbolFile) :
    List String :=
  if seen.contains file.label then [] else used file

@[simp] theorem revisedStmts_nil : t.revisedStmts used seen [] = [] := rfl

theorem revisedStmts_unmanaged {stmt : Expr} (stmts : List Expr) (h : t.managed? stmt = none) :
    t.revisedStmts used seen (stmt :: stmts) = stmt :: t.revisedStmts used seen stmts := by
  simp [revisedStmts, reviseStmts, h, LoadRevision.apply]

theorem revisedStmts_managed {stmt : Expr} {file : SymbolFile} (stmts : List Expr)
    (h : t.managed? stmt = some file) :
    t.revisedStmts used seen (stmt :: stmts) =
      (t.reviseLoad (wantedOf used seen file) stmt).apply stmt ++
        t.revisedStmts used (file.label :: seen) stmts := by
  simp [revisedStmts, reviseStmts, h, wantedOf]

theorem wantedOf_self {file : SymbolFile} :
    wantedOf used (file.label :: seen) file = [] := by
  simp [wantedOf]

theorem wantedOf_other {file g : SymbolFile} (h : file.label ≠ g.label) :
    wantedOf used (g.label :: seen) file = wantedOf used seen file := by
  simp [wantedOf, h]

theorem wantedOf_knows (hu : ∀ file ∈ t.files, ∀ s ∈ used file, t.knows s = true)
    {file : SymbolFile} (hf : file ∈ t.files) :
    ∀ s ∈ wantedOf used seen file, t.knows s = true := by
  intro s hs
  unfold wantedOf at hs
  split at hs
  · cases hs
  · exact hu file hf s hs

/-- The statements that were revised are the statements of the file. -/
theorem map_fst_reviseStmts (stmts : List Expr) :
    (t.reviseStmts used seen stmts).map Prod.fst = stmts := by
  induction stmts generalizing seen with
  | nil => rfl
  | cons stmt stmts ih =>
      cases h : t.managed? stmt with
      | none => simp [reviseStmts, h, ih]
      | some file => simp [reviseStmts, h, ih]

/-- If every statement is kept, the revision leaves the statements of the file. -/
theorem revisedStmts_of_kept {stmts : List Expr}
    (h : ∀ s ∈ t.reviseStmts used seen stmts, s.2 = .kept) :
    t.revisedStmts used seen stmts = stmts := by
  have heq : t.revisedStmts used seen stmts =
      (t.reviseStmts used seen stmts).flatMap fun s => [s.1] := by
    refine List.flatMap_congr fun s hs => ?_
    rw [h s hs]
    rfl
  rw [heq, ← List.map_eq_flatMap, map_fst_reviseStmts]

theorem reconcile_eq_none_iff {f : File} :
    t.reconcile f = none ↔
      t.freshLoads f = [] ∧ ∀ s ∈ t.reviseStmts (t.used f) [] f.stmts, s.2 = .kept := by
  simp [reconcile, List.all_eq_true]

/-- The statements of a reconciled file are the new loads and what the revision
of its statements leaves. -/
theorem stmts_reconciled (t : SymbolTable) (f : File) :
    (t.reconciled f).stmts = t.freshLoads f ++ t.revisedStmts (t.used f) [] f.stmts := by
  cases h : t.reconcile f with
  | none =>
      obtain ⟨hfresh, hkept⟩ := reconcile_eq_none_iff.1 h
      rw [reconciled, h, hfresh, revisedStmts_of_kept hkept]
      rfl
  | some g =>
      rw [reconciled, h]
      unfold reconcile at h
      simp only at h
      split at h
      · cases h
      · cases h
        rfl

/-! ## One load among the statements -/

/-- What the revision of a load of the file leaves of the loads of its label. -/
theorem loadsOf_apply_reviseLoad {wanted : List String} (hw : ∀ s ∈ wanted, t.knows s = true)
    {stmt : Expr} {label : String} {args : List Expr} (hl : load? stmt = some (label, args)) :
    (loadsOf label ((t.reviseLoad wanted stmt).apply stmt) = [] ∧ wanted = []) ∨
      ∃ args', loadsOf label ((t.reviseLoad wanted stmt).apply stmt) = [args'] ∧
        args' ≠ [] ∧ t.Carries args' wanted := by
  obtain ⟨_, _, _, _, rfl⟩ := eq_call_of_load? hl
  rcases reviseLoad_cases hw _ _ _ _ _ with ⟨h, hr, hc⟩ | ⟨h, hnil, -⟩ | ⟨args', h, hr, hc, -⟩
  · rw [h]
    exact .inr ⟨_, loadsOf_cons_load [] rfl, hr, hc⟩
  · rw [h]
    exact .inl ⟨rfl, hnil⟩
  · rw [h]
    exact .inr ⟨args', loadsOf_cons_load [] rfl, hr, hc⟩

/-- The label of a load is that of whatever its revision leaves. -/
theorem load?_of_mem_apply_reviseLoad {wanted : List String} {stmt e : Expr} {label : String}
    {args : List Expr} (hl : load? stmt = some (label, args))
    (he : e ∈ (t.reviseLoad wanted stmt).apply stmt) : ∃ args', load? e = some (label, args') := by
  obtain ⟨_, _, _, _, rfl⟩ := eq_call_of_load? hl
  rw [reviseLoad_call] at he
  split at he
  · split at he
    · cases he
    · rw [List.mem_singleton.1 he]
      exact ⟨_, rfl⟩
  · split at he
    · cases he
    · rw [List.mem_singleton.1 he]
      exact ⟨_, rfl⟩

/-- The revision of a load leaves no load of another label. -/
theorem loadsOf_apply_reviseLoad_other {wanted : List String} {stmt : Expr} {label other : String}
    {args : List Expr} (hl : load? stmt = some (label, args)) (hne : label ≠ other) :
    loadsOf other ((t.reviseLoad wanted stmt).apply stmt) = [] := by
  rw [loadsOf_eq_nil_iff]
  intro e he
  obtain ⟨args', h⟩ := load?_of_mem_apply_reviseLoad hl he
  simp [h, hne]

/-- A statement that is not managed is no load of a file of the table. -/
theorem loadsOf_cons_unmanaged {stmt : Expr} {file : SymbolFile} (stmts : List Expr)
    (hf : file ∈ t.files) (h : t.managed? stmt = none) :
    loadsOf file.label (stmt :: stmts) = loadsOf file.label stmts := by
  refine loadsOf_cons_other stmts fun args hl => ?_
  rw [managed?_of_load? hf hl] at h
  cases h

end SymbolTable

end BuildFix
