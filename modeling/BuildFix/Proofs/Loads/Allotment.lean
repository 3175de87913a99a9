import BuildFix.Proofs.Loads.Statements

/-!
# Loads and used symbols

A symbol is *used* when a statement calls it and no load of a file outside the
table binds it.  `mem_used_iff` says that `SymbolTable.used` finds exactly the
used symbols of a file of the table.

The loads of one file are `Allotted` its used symbols when the first load
carries them, later loads carry none, and no load is a label alone.  The
revision of a list of statements leaves the loads of every file allotted
(`allotted_revisedStmts`).  The induction is on the statements, and the labels
seen carry it: behind the first load of a file nothing more is wanted of it.  A
file without a load gets one at the top, so the loads of a reconciled build file
are those it uses (`reconciled_loads_used`).
-/

namespace BuildFix

/-- A statement of the file calls the name. -/
def File.Calls (f : File) (s : String) : Prop := ∃ stmt ∈ f.stmts, stmt.callName? = some s

namespace SymbolTable

variable {t : SymbolTable} {f : File} {file : SymbolFile} {wanted : List String}

/-! ## Used symbols -/

/-- A load of a file outside the table binds the name, as a symbol or as a
keyword. -/
def BindsElsewhere (t : SymbolTable) (f : File) (s : String) : Prop :=
  ∃ stmt ∈ f.stmts, ∃ label args, load? stmt = some (label, args) ∧
    (∀ file ∈ t.files, file.label ≠ label) ∧
    ∃ arg ∈ args, arg.string? = some s ∨ ∃ value, arg.keyword? = some (s, value)

theorem hasFile_eq_false_iff {label : String} :
    t.hasFile label = false ↔ ∀ file ∈ t.files, file.label ≠ label := by
  simp [hasFile]

theorem boundName?_eq_some_iff {arg : Expr} {s : String} :
    boundName? arg = some s ↔ arg.string? = some s ∨ ∃ value, arg.keyword? = some (s, value) := by
  cases arg <;> simp [boundName?, Expr.string?, Expr.keyword?]

theorem mem_foreignNames_iff {s : String} : s ∈ t.foreignNames f ↔ t.BindsElsewhere f s := by
  simp only [foreignNames, List.mem_flatMap, BindsElsewhere]
  refine exists_congr fun stmt => and_congr_right fun _ => ?_
  cases hl : load? stmt with
  | none => simp
  | some l =>
      obtain ⟨label, args⟩ := l
      cases hf : t.hasFile label with
      | true =>
          have hin : ¬∀ file ∈ t.files, file.label ≠ label := by
            rw [← hasFile_eq_false_iff, hf]
            simp
          simp [hf, hin]
      | false =>
          have hout := hasFile_eq_false_iff.1 hf
          simp only [hf, Bool.false_eq_true, if_false, List.mem_filterMap, boundName?_eq_some_iff,
            Option.some.injEq, Prod.mk.injEq]
          constructor
          · intro h
            exact ⟨label, args, ⟨rfl, rfl⟩, hout, h⟩
          · rintro ⟨_, _, ⟨rfl, rfl⟩, -, h⟩
            exact h

/-- The used symbols of a file of the table. -/
theorem mem_used_iff {s : String} :
    s ∈ t.used f file ↔ s ∈ file.symbols ∧ f.Calls s ∧ ¬t.BindsElsewhere f s := by
  rw [← mem_foreignNames_iff]
  simp [used, File.Calls]

theorem used_knows (hf : file ∈ t.files) : ∀ s ∈ t.used f file, t.knows s = true := by
  intro s hs
  exact (t.knows_iff s).2 ⟨file, hf, (mem_used_iff.1 hs).1⟩

/-! ## Allotted loads -/

/-- The first load carries the wanted symbols, later loads carry none, and no
load is a label alone. -/
def Allotted (t : SymbolTable) (wanted : List String) : List (List Expr) → Prop
  | [] => True
  | first :: later =>
      (first ≠ [] ∧ t.Carries first wanted) ∧ ∀ args ∈ later, args ≠ [] ∧ t.Carries args []

theorem allotted_nil_iff {loads : List (List Expr)} :
    t.Allotted [] loads ↔ ∀ args ∈ loads, args ≠ [] ∧ t.Carries args [] := by
  cases loads <;> simp [Allotted]

/-- The symbols of allotted loads are the wanted ones. -/
theorem Allotted.mem_iff {loads : List (List Expr)} (h : t.Allotted wanted loads)
    (hnil : loads = [] → wanted = []) (s : String) :
    (∃ args ∈ loads, s ∈ t.symbolsAmong args) ↔ s ∈ wanted := by
  cases loads with
  | nil => simp [hnil rfl]
  | cons first later =>
      constructor
      · rintro ⟨args, ha, hs⟩
        rcases List.mem_cons.1 ha with rfl | ha
        · exact (h.1.2 s).1 hs
        · rw [carries_nil_iff.1 (h.2 args ha).2] at hs
          cases hs
      · intro hs
        exact ⟨first, List.mem_cons_self, (h.1.2 s).2 hs⟩

/-- Behind the first of allotted loads no load has a symbol of the table. -/
theorem Allotted.symbolsAmong_tail {loads : List (List Expr)} (h : t.Allotted wanted loads) :
    ∀ args ∈ loads.tail, t.symbolsAmong args = [] := by
  cases loads with
  | nil => simp
  | cons first later => exact fun args ha => carries_nil_iff.1 (h.2 args ha).2

section

variable {used : SymbolFile → List String} {seen : List String}
  (hu : ∀ file ∈ t.files, ∀ s ∈ used file, t.knows s = true)

include hu

/-- The revision leaves the loads of a file allotted what is wanted of it. -/
theorem allotted_revisedStmts (hf : file ∈ t.files) (stmts : List Expr) :
    t.Allotted (wantedOf used seen file) (loadsOf file.label (t.revisedStmts used seen stmts)) := by
  induction stmts generalizing seen with
  | nil => trivial
  | cons stmt stmts ih =>
      cases hm : t.managed? stmt with
      | none =>
          rw [revisedStmts_unmanaged stmts hm, loadsOf_cons_unmanaged _ hf hm]
          exact ih
      | some g =>
          obtain ⟨hg, args, hl⟩ := managed?_eq_some hm
          rw [revisedStmts_managed stmts hm, loadsOf_append]
          by_cases heq : g = file
          · subst heq
            have hrest := @ih (g.label :: seen)
            rw [wantedOf_self] at hrest
            rcases loadsOf_apply_reviseLoad (wantedOf_knows hu hf) hl with
              ⟨h, hnil⟩ | ⟨args', h, hne, hc⟩
            · rw [h, hnil, List.nil_append]
              exact hrest
            · rw [h]
              exact ⟨⟨hne, hc⟩, allotted_nil_iff.1 hrest⟩
          · have hne : g.label ≠ file.label := mt (eq_of_label_eq hg hf) heq
            rw [loadsOf_apply_reviseLoad_other hl hne, List.nil_append]
            have hrest := @ih (g.label :: seen)
            rwa [wantedOf_other hne.symm] at hrest

/-- The loads of a file go away only if nothing is wanted of it. -/
theorem wantedOf_eq_nil_of_revisedStmts (hf : file ∈ t.files) {stmts : List Expr}
    (hloads : loadsOf file.label stmts ≠ [])
    (hnone : loadsOf file.label (t.revisedStmts used seen stmts) = []) :
    wantedOf used seen file = [] := by
  induction stmts generalizing seen with
  | nil => exact absurd rfl hloads
  | cons stmt stmts ih =>
      cases hm : t.managed? stmt with
      | none =>
          rw [loadsOf_cons_unmanaged _ hf hm] at hloads
          rw [revisedStmts_unmanaged stmts hm, loadsOf_cons_unmanaged _ hf hm] at hnone
          exact ih hloads hnone
      | some g =>
          obtain ⟨hg, args, hl⟩ := managed?_eq_some hm
          rw [revisedStmts_managed stmts hm, loadsOf_append, List.append_eq_nil_iff] at hnone
          by_cases heq : g = file
          · subst heq
            rcases loadsOf_apply_reviseLoad (wantedOf_knows hu hf) hl with ⟨-, hnil⟩ | ⟨_, h, -, -⟩
            · exact hnil
            · rw [h] at hnone
              cases hnone.1
          · have hne : g.label ≠ file.label := mt (eq_of_label_eq hg hf) heq
            rw [← wantedOf_other hne.symm]
            rw [loadsOf_cons_of_ne stmts hl hne] at hloads
            exact ih hloads hnone.2

end

/-- The revision adds no load of a file that had none. -/
theorem loadsOf_revisedStmts_eq_nil {used : SymbolFile → List String} {seen : List String}
    (hf : file ∈ t.files) {stmts : List Expr} (h : loadsOf file.label stmts = []) :
    loadsOf file.label (t.revisedStmts used seen stmts) = [] := by
  induction stmts generalizing seen with
  | nil => rfl
  | cons stmt stmts ih =>
      cases hm : t.managed? stmt with
      | none =>
          rw [loadsOf_cons_unmanaged _ hf hm] at h
          rw [revisedStmts_unmanaged stmts hm, loadsOf_cons_unmanaged _ hf hm]
          exact ih h
      | some g =>
          obtain ⟨hg, args, hl⟩ := managed?_eq_some hm
          have hne : g.label ≠ file.label := by
            intro heq
            rw [heq] at hl
            rw [loadsOf_cons_load stmts hl] at h
            cases h
          rw [revisedStmts_managed stmts hm, loadsOf_append, loadsOf_apply_reviseLoad_other hl hne,
            List.nil_append]
          rw [loadsOf_cons_of_ne stmts hl hne] at h
          exact ih h

/-! ## Reconciled files -/

theorem filter_label {files : List SymbolFile} (hl : files.Pairwise fun f g => f.label ≠ g.label)
    (hf : file ∈ files) : files.filter (·.label == file.label) = [file] := by
  induction files with
  | nil => cases hf
  | cons g files ih =>
      obtain ⟨hg, hl⟩ := List.pairwise_cons.1 hl
      rcases List.mem_cons.1 hf with rfl | hf
      · rw [List.filter_cons_of_pos (by simp), List.filter_eq_nil_iff.2]
        intro g hg'
        simpa using (hg g hg').symm
      · rw [List.filter_cons_of_neg (by simpa using hg file hf)]
        exact ih hl hf

/-- Decide whether a file is used and not loaded, so that it gets a new load. -/
def needsLoad (t : SymbolTable) (f : File) (file : SymbolFile) : Bool :=
  !(t.used f file).isEmpty && !f.stmts.any fun stmt => (load? stmt).any (·.1 == file.label)

theorem needsLoad_iff :
    t.needsLoad f file = true ↔ t.used f file ≠ [] ∧ loadsOf file.label f.stmts = [] := by
  simp [needsLoad, loadsOf_eq_nil_iff]

theorem freshLoads_eq (t : SymbolTable) (f : File) :
    t.freshLoads f =
      (t.files.filter (t.needsLoad f)).map fun file => freshLoad file (t.used f file) := rfl

theorem loadsOf_freshLoads (hf : file ∈ t.files) :
    loadsOf file.label (t.freshLoads f) =
      if t.needsLoad f file then [(t.used f file).map fun s => .string s {}] else [] := by
  have hfilter : loadsOf file.label (t.freshLoads f) =
      ((t.files.filter (·.label == file.label)).filter (t.needsLoad f)).map
        fun g => (t.used f g).map fun s => .string s {} := by
    rw [List.filter_comm, ← List.filterMap_eq_map, ← List.filterMap_eq_filter, freshLoads_eq]
    simp only [loadsOf, List.filterMap_map, List.filterMap_filterMap]
    refine List.filterMap_congr fun g _ => ?_
    by_cases hg : g.label = file.label <;> simp [freshLoad, load?, Option.guard, hg]
  rw [hfilter, filter_label t.wellFormed.labels hf]
  cases h : t.needsLoad f file <;> simp [h]

/-- The loads of a file in a reconciled build file are allotted its used
symbols, and none is missing. -/
theorem allotted_reconciled (t : SymbolTable) (f : File) (hf : file ∈ t.files) :
    t.Allotted (t.used f file) (loadsOf file.label (t.reconciled f).stmts) ∧
      (loadsOf file.label (t.reconciled f).stmts = [] → t.used f file = []) := by
  have hu : ∀ file ∈ t.files, ∀ s ∈ t.used f file, t.knows s = true := fun _ => used_knows
  have hold : t.Allotted (wantedOf (t.used f) [] file) _ := allotted_revisedStmts hu hf f.stmts
  rw [stmts_reconciled, loadsOf_append, loadsOf_freshLoads hf]
  by_cases h : t.needsLoad f file = true
  · obtain ⟨hused, hnone⟩ := needsLoad_iff.1 h
    rw [if_pos h, loadsOf_revisedStmts_eq_nil hf hnone, List.append_nil]
    refine ⟨⟨⟨by simpa using hused, ?_⟩, by simp⟩, by simp⟩
    intro s
    rw [mem_symbolsAmong]
    constructor
    · rintro ⟨-, arg, ha, he⟩
      obtain ⟨s', hs', rfl⟩ := List.mem_map.1 ha
      cases he
      exact hs'
    · intro hs
      exact ⟨used_knows hf s hs, .string s {}, List.mem_map.2 ⟨s, hs, rfl⟩, rfl⟩
  · rw [if_neg h, List.nil_append]
    refine ⟨hold, fun hnone => ?_⟩
    by_contra hne
    have hloads : loadsOf file.label f.stmts ≠ [] := fun hnil => h (needsLoad_iff.2 ⟨hne, hnil⟩)
    exact hne (wantedOf_eq_nil_of_revisedStmts hu hf hloads hnone)

/-- In a reconciled build file the loads of each file of the table have exactly
the symbols of it that are called and not bound elsewhere, and only the first of
them has any. -/
theorem reconciled_loads_used (t : SymbolTable) (f : File) : ∀ file ∈ t.files,
    (∀ s, (∃ args ∈ loadsOf file.label (t.reconciled f).stmts, s ∈ t.symbolsAmong args) ↔
      s ∈ file.symbols ∧ f.Calls s ∧ ¬t.BindsElsewhere f s) ∧
    ∀ args ∈ (loadsOf file.label (t.reconciled f).stmts).tail, t.symbolsAmong args = [] := by
  intro file hf
  obtain ⟨hloads, hnil⟩ := t.allotted_reconciled f hf
  refine ⟨fun s => ?_, hloads.symbolsAmong_tail⟩
  rw [← mem_used_iff]
  exact hloads.mem_iff hnil s

/-- A file that loads `go_binary`, has `go_library` from elsewhere and calls
`go_library` and `go_test`. -/
def mixedLoads : File where
  stmts := [
    .call (.literal "load" {}) [.string goRules.label {}, .string "go_binary" {}] false {},
    .call (.literal "load" {}) [.string "//:def.bzl" {}, .keyword "go_library" (.string "lib" {})]
      false {},
    .call (.literal "go_library" {}) [] false {},
    .call (.literal "go_test" {}) [] false {}]

theorem mixedLoads_used :
    goRules ∈ standard.files ∧
      (∀ s, (∃ args ∈ loadsOf goRules.label (standard.reconciled mixedLoads).stmts,
          s ∈ standard.symbolsAmong args) ↔
        s ∈ goRules.symbols ∧ mixedLoads.Calls s ∧ ¬standard.BindsElsewhere mixedLoads s) ∧
      ∀ args ∈ (loadsOf goRules.label (standard.reconciled mixedLoads).stmts).tail,
        standard.symbolsAmong args = [] := by
  have hf : goRules ∈ standard.files := by decide
  exact ⟨hf, reconciled_loads_used standard mixedLoads goRules hf⟩

end SymbolTable

end BuildFix
