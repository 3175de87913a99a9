import BuildFix.Proofs.InPlace
import BuildFix.Proofs.Loads.Allotment

/-!
# The places of a reconciled file

`reconciled_in_place` lists all that reconciling does to a build file.  New loads
come first, one for each file of the table that is used and not loaded, in the
order of the table.  Behind them stand the statements of the input in their order.
A statement that loads no file of the table stays as it is.  A load of such a file
stays, goes away or is replaced as its own revision says, in its place.

What is wanted of a load is told from the statements in front of it (`placeOf`).
`SymbolTable.revisedStmts` carries the labels it has seen instead, and the two
agree as long as the labels seen are those of the loads in front
(`revisedStmts_eq_flatten`).
-/

namespace BuildFix

namespace SymbolTable

variable {t : SymbolTable} {used : SymbolFile → List String}

/-- What stands in the place of a statement behind the statements `before`.  The
first load of a file of the table is revised to have the used symbols of the file,
later ones to have none. -/
def placeOf (t : SymbolTable) (used : SymbolFile → List String) (before : List Expr)
    (stmt : Expr) : List Expr :=
  match t.managed? stmt with
  | none => [stmt]
  | some file =>
      let wanted := if loadsOf file.label before = [] then used file else []
      (t.reviseLoad wanted stmt).apply stmt

/-- The labels seen are those of the loads of files of the table in front. -/
def Seen (t : SymbolTable) (seen : List String) (front : List Expr) : Prop :=
  ∀ file ∈ t.files, file.label ∈ seen ↔ loadsOf file.label front ≠ []

theorem Seen.unmanaged {seen : List String} {front : List Expr} {stmt : Expr}
    (h : t.Seen seen front) (hm : t.managed? stmt = none) : t.Seen seen (front ++ [stmt]) := by
  intro file hf
  rw [loadsOf_append, loadsOf_cons_unmanaged [] hf hm, loadsOf_nil, List.append_nil]
  exact h file hf

theorem Seen.managed {seen : List String} {front : List Expr} {stmt : Expr} {g : SymbolFile}
    (h : t.Seen seen front) (hm : t.managed? stmt = some g) :
    t.Seen (g.label :: seen) (front ++ [stmt]) := by
  obtain ⟨hg, args, hl⟩ := managed?_eq_some hm
  intro file hf
  rw [loadsOf_append, List.mem_cons, h file hf]
  by_cases heq : file.label = g.label
  · rw [heq, loadsOf_cons_load [] hl]
    simp
  · rw [loadsOf_cons_of_ne [] hl (Ne.symm heq), loadsOf_nil, List.append_nil]
    exact or_iff_right heq

/-- The revision leaves of each statement what stands in its place. -/
theorem revisedStmts_eq_flatten {seen : List String} {front : List Expr} (h : t.Seen seen front)
    (stmts : List Expr) :
    t.revisedStmts used seen stmts =
      (mapInPlace (fun before stmt _ => t.placeOf used (front ++ before) stmt) stmts).flatten := by
  induction stmts generalizing seen front with
  | nil => rfl
  | cons stmt stmts ih =>
      rw [mapInPlace_cons, List.flatten_cons, List.append_nil]
      cases hm : t.managed? stmt with
      | none =>
          rw [revisedStmts_unmanaged stmts hm, ih (h.unmanaged hm)]
          simp [placeOf, hm]
      | some g =>
          have hwanted : wantedOf used seen g =
              if loadsOf g.label front = [] then used g else [] := by
            have hseen := h g (managed?_eq_some hm).1
            by_cases hfirst : loadsOf g.label front = [] <;> simp_all [wantedOf]
          rw [revisedStmts_managed stmts hm, hwanted, ih (h.managed hm)]
          simp [placeOf, hm]

theorem path_reconciled (t : SymbolTable) (f : File) : (t.reconciled f).path = f.path := by
  unfold reconciled reconcile
  dsimp only
  split <;> rfl

theorem increasing_used {f : File} {file : SymbolFile} (hf : file ∈ t.files) :
    Increasing (t.used f file) :=
  (t.wellFormed.sets file hf).sublist List.filter_sublist

theorem managed?_eq_some_iff {stmt : Expr} {file : SymbolFile} (hf : file ∈ t.files) :
    t.managed? stmt = some file ↔ ∃ args, load? stmt = some (file.label, args) :=
  ⟨fun h => (managed?_eq_some h).2, fun ⟨_, h⟩ => managed?_of_load? hf h⟩

/-- A file gets a new load when it is used and no statement loads it. -/
theorem needsLoad_iff_managed? {f : File} {file : SymbolFile} (hf : file ∈ t.files) :
    t.needsLoad f file = true ↔
      t.used f file ≠ [] ∧ ∀ stmt ∈ f.stmts, t.managed? stmt ≠ some file := by
  rw [needsLoad_iff, loadsOf_eq_nil_iff]
  refine and_congr_right fun _ => forall₂_congr fun stmt _ => ?_
  rw [Ne, managed?_eq_some_iff hf]
  cases load? stmt <;> simp [Prod.ext_iff]

/-- A reconciled build file has new loads and then, in the order of the input,
what stands in the place of each statement.  There is one new load for each file
of the table that has used symbols and no load, in the order of the table, and its
arguments are the label and the used symbols in increasing order.  The path stays
the same. -/
theorem reconciled_in_place (t : SymbolTable) (f : File) :
    (t.reconciled f).stmts =
        ((t.files.filter fun file =>
            t.used f file ≠ [] ∧ ∀ stmt ∈ f.stmts, t.managed? stmt ≠ some file).map fun file =>
          .call (.literal "load" {})
            (.string file.label {} :: (t.used f file).map fun s => .string s {}) true {}) ++
          (mapInPlace (fun before stmt _ => t.placeOf (t.used f) before stmt) f.stmts).flatten ∧
      (t.reconciled f).path = f.path ∧
      ∀ file ∈ t.files, Increasing (t.used f file) ∧
        ∀ s, s ∈ t.used f file ↔ s ∈ file.symbols ∧ f.Calls s ∧ ¬t.BindsElsewhere f s := by
  have hseen : t.Seen [] [] := fun file _ => by simp
  refine ⟨?_, t.path_reconciled f, fun file hf => ⟨increasing_used hf, fun s => mem_used_iff⟩⟩
  rw [stmts_reconciled, freshLoads_eq, revisedStmts_eq_flatten hseen]
  congr 2
  refine List.filter_congr fun file hf => ?_
  rw [Bool.eq_iff_iff, decide_eq_true_iff]
  exact needsLoad_iff_managed? hf

end SymbolTable

end BuildFix
