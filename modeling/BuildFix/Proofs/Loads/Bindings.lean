import BuildFix.Proofs.Loads.FixedPoint

/-!
# The names that loads bind

An argument of a load behind the label binds a name, as a string or as a
keyword.  `boundNames` has one name for each such argument, so a name is bound
once when it is counted once.

Reconciling keeps the keywords of all loads (`keywordNames_reconciled`), and of
the strings it adds none that a load outside the table binds.  An added symbol
is a string of one load only, since a symbol belongs to one file, only the first
load of the file has symbols, and there it is written once
(`count_stringNames_reconciled`).  Nothing looks at the keywords of a managed
load.  So an added symbol is bound once exactly when no load had it as a keyword
before (`added_bound_once_iff`).
-/

namespace BuildFix

/-! ## Names -/

/-- The arguments of a load behind its label, and none of any other statement. -/
def loadArgs (stmt : Expr) : List Expr := ((load? stmt).map Prod.snd).getD []

/-- The names among arguments that are strings. -/
def stringNames (args : List Expr) : List String := args.filterMap Expr.string?

/-- The names among arguments that are keywords. -/
def keywordNames (args : List Expr) : List String :=
  args.filterMap fun arg => arg.keyword?.map Prod.fst

/-- The names that the loads among statements bind, one for each argument. -/
def boundNames (stmts : List Expr) : List String := (stmts.flatMap loadArgs).filterMap boundName?

section

variable {s label : String} {args xs ys stmts : List Expr} {stmt : Expr}

theorem loadArgs_of_load? (h : load? stmt = some (label, args)) : loadArgs stmt = args := by
  rw [loadArgs, h]
  rfl

@[simp] theorem stringNames_append :
    stringNames (xs ++ ys) = stringNames xs ++ stringNames ys := List.filterMap_append

@[simp] theorem keywordNames_append :
    keywordNames (xs ++ ys) = keywordNames xs ++ keywordNames ys := List.filterMap_append

theorem mem_stringNames : s ∈ stringNames args ↔ ∃ arg ∈ args, arg.string? = some s :=
  List.mem_filterMap

theorem stringNames_map_string (names : List String) :
    stringNames (names.map fun s => .string s {}) = names := by
  induction names with
  | nil => rfl
  | cons s names ih => exact congrArg (s :: ·) ih

theorem keywordNames_eq_nil (h : ∀ arg ∈ args, arg.keyword? = none) : keywordNames args = [] := by
  rw [keywordNames, List.filterMap_eq_nil_iff]
  intro arg ha
  rw [h arg ha]
  rfl

theorem keyword?_of_string? {arg : Expr} (h : arg.string? = some s) : arg.keyword? = none := by
  cases arg <;> first | rfl | cases h

/-- An argument binds a name as a string or as a keyword, and not as both. -/
theorem count_boundName (s : String) (args : List Expr) :
    (args.filterMap boundName?).count s =
      (stringNames args).count s + (keywordNames args).count s := by
  induction args with
  | nil => rfl
  | cons arg args ih =>
      simp only [stringNames, keywordNames, List.filterMap_cons] at ih ⊢
      cases hstring : arg.string? with
      | some name =>
          simp only [boundName?, hstring, keyword?_of_string? hstring, Option.some_or,
            Option.map_none, List.count_cons, ih]
          omega
      | none =>
          cases hkeyword : arg.keyword? with
          | none => simp [boundName?, hstring, hkeyword, ih]
          | some kv =>
              simp only [boundName?, hstring, hkeyword, Option.none_or, Option.map_some,
                List.count_cons, ih]
              omega

/-- A name that only loads of one label have as a string is counted among the
loads of that label. -/
theorem count_stringNames_of_label
    (h : ∀ stmt ∈ stmts, s ∈ stringNames (loadArgs stmt) →
      ∃ args, load? stmt = some (label, args)) :
    (stringNames (stmts.flatMap loadArgs)).count s =
      (stringNames (loadsOf label stmts).flatten).count s := by
  induction stmts with
  | nil => rfl
  | cons stmt stmts ih =>
      obtain ⟨hstmt, hstmts⟩ := List.forall_mem_cons.1 h
      rw [List.flatMap_cons, stringNames_append, List.count_append, ih hstmts]
      by_cases hload : ∃ args, load? stmt = some (label, args)
      · obtain ⟨args, hl⟩ := hload
        rw [loadsOf_cons_load stmts hl, loadArgs_of_load? hl, List.flatten_cons,
          stringNames_append, List.count_append]
      · rw [loadsOf_cons_other stmts (not_exists.1 hload),
          List.count_eq_zero_of_not_mem (mt hstmt hload), Nat.zero_add]

end

namespace SymbolTable

variable {t : SymbolTable} {f : File} {file : SymbolFile} {wanted : List String}
  {rest : List Expr} {s : String}

/-! ## Keywords -/

theorem keyword?_of_mem_revisedSymbols {arg : Expr} (h : arg ∈ t.revisedSymbols wanted rest) :
    arg.keyword? = none := by
  simp only [revisedSymbols, presentArgs, List.mem_mergeSort, List.mem_append, List.mem_filter,
    List.mem_map] at h
  rcases h with ⟨-, h⟩ | ⟨name, -, rfl⟩
  · obtain ⟨name, hname, -⟩ := isWantedArg_iff.1 h
    exact keyword?_of_string? hname
  · rfl

/-- A revision keeps the keywords of a load. -/
theorem keywordNames_revisedArgs (t : SymbolTable) (wanted : List String) (rest : List Expr) :
    keywordNames (t.revisedArgs wanted rest) = keywordNames rest := by
  rw [revisedArgs, keywordNames_append,
    keywordNames_eq_nil fun arg ha => keyword?_of_mem_revisedSymbols ha, List.nil_append,
    keywordNames, List.filterMap_filter]
  refine List.filterMap_congr fun arg _ => ?_
  cases hm : t.isManagedArg arg with
  | false => rfl
  | true =>
      obtain ⟨name, hname, -⟩ := isManagedArg_iff.1 hm
      rw [keyword?_of_string? hname]
      rfl

theorem keywordNames_apply_reviseLoad {stmt : Expr} {label : String} {args : List Expr}
    (hl : load? stmt = some (label, args)) :
    keywordNames (((t.reviseLoad wanted stmt).apply stmt).flatMap loadArgs) =
      keywordNames args := by
  obtain ⟨_, _, _, _, rfl⟩ := eq_call_of_load? hl
  have hkept := t.keywordNames_revisedArgs wanted args
  rw [reviseLoad_call]
  split
  · split
    next hnil =>
      subst hnil
      rfl
    next => exact congrArg keywordNames (List.append_nil args)
  · split
    next hnil =>
      rw [hnil] at hkept
      exact hkept
    next =>
      rw [← hkept]
      exact congrArg keywordNames (List.append_nil _)

theorem keywordNames_revisedStmts {used : SymbolFile → List String} {seen : List String}
    (stmts : List Expr) :
    keywordNames ((t.revisedStmts used seen stmts).flatMap loadArgs) =
      keywordNames (stmts.flatMap loadArgs) := by
  induction stmts generalizing seen with
  | nil => rfl
  | cons stmt stmts ih =>
      cases hm : t.managed? stmt with
      | none =>
          rw [revisedStmts_unmanaged stmts hm, List.flatMap_cons, List.flatMap_cons,
            keywordNames_append, keywordNames_append, ih]
      | some g =>
          obtain ⟨-, args, hl⟩ := managed?_eq_some hm
          rw [revisedStmts_managed stmts hm, List.flatMap_append, List.flatMap_cons,
            keywordNames_append, keywordNames_append, ih, keywordNames_apply_reviseLoad hl,
            loadArgs_of_load? hl]

/-- Reconciling keeps the keywords of all loads, in their order. -/
theorem keywordNames_reconciled (t : SymbolTable) (f : File) :
    keywordNames ((t.reconciled f).stmts.flatMap loadArgs) =
      keywordNames (f.stmts.flatMap loadArgs) := by
  have hfresh : keywordNames ((t.freshLoads f).flatMap loadArgs) = [] := by
    refine keywordNames_eq_nil fun arg ha => ?_
    obtain ⟨load, hload, ha⟩ := List.mem_flatMap.1 ha
    obtain ⟨g, -, rfl⟩ := List.mem_map.1 hload
    obtain ⟨name, -, rfl⟩ := List.mem_map.1 ha
    rfl
  rw [stmts_reconciled, List.flatMap_append, keywordNames_append, hfresh, List.nil_append,
    keywordNames_revisedStmts]

/-! ## Strings -/

theorem mem_symbolsAmong_iff {args : List Expr} :
    s ∈ t.symbolsAmong args ↔ t.knows s = true ∧ s ∈ stringNames args := by
  rw [mem_symbolsAmong, mem_stringNames]

/-- Two files of a table that both list a symbol are the same file. -/
theorem eq_of_mem_symbols {g : SymbolFile} (hf : file ∈ t.files) (hg : g ∈ t.files)
    (hs : s ∈ file.symbols) (hs' : s ∈ g.symbols) : file = g :=
  file_unique t.wellFormed.disjoint hf hg hs hs'

/-- A used symbol is a string of no load but those of its file. -/
theorem label_of_used (hf : file ∈ t.files) (hs : s ∈ t.used f file) :
    ∀ stmt ∈ (t.reconciled f).stmts, s ∈ stringNames (loadArgs stmt) →
      ∃ args, load? stmt = some (file.label, args) := by
  intro stmt hstmt hmem
  obtain ⟨hsymbol, -, hfree⟩ := mem_used_iff.1 hs
  cases hl : load? stmt with
  | none =>
      rw [loadArgs, hl] at hmem
      cases hmem
  | some l =>
      obtain ⟨label, args⟩ := l
      rw [loadArgs_of_load? hl] at hmem
      by_cases hout : ∀ g ∈ t.files, g.label ≠ label
      · obtain ⟨arg, ha, hstring⟩ := mem_stringNames.1 hmem
        exact absurd (bindsElsewhere_reconciled.1
          ⟨stmt, hstmt, label, args, hl, hout, arg, ha, .inl hstring⟩) hfree
      · push Not at hout
        obtain ⟨g, hg, rfl⟩ := hout
        obtain ⟨hloads, hnil⟩ := t.allotted_reconciled f hg
        have hargs : args ∈ loadsOf g.label (t.reconciled f).stmts :=
          List.mem_filterMap.2 ⟨stmt, hstmt, by simp [hl]⟩
        have hused := (hloads.mem_iff hnil s).1
          ⟨args, hargs, mem_symbolsAmong_iff.2 ⟨used_knows hf s hs, hmem⟩⟩
        have hsame : g = file := eq_of_mem_symbols hg hf (mem_used_iff.1 hused).1 hsymbol
        subst hsame
        exact ⟨args, rfl⟩

/-- A used symbol is counted in the one load of its file that has it. -/
theorem count_stringNames_of_used (hf : file ∈ t.files) (hs : s ∈ t.used f file)
    {args : List Expr} (hargs : args ∈ loadsOf file.label (t.reconciled f).stmts)
    (hmem : s ∈ stringNames args) :
    (stringNames ((t.reconciled f).stmts.flatMap loadArgs)).count s =
      (stringNames args).count s := by
  have hknown := used_knows hf s hs
  have hloads := (t.allotted_reconciled f hf).1
  rw [count_stringNames_of_label (label_of_used hf hs)]
  cases hcons : loadsOf file.label (t.reconciled f).stmts with
  | nil =>
      rw [hcons] at hargs
      cases hargs
  | cons first later =>
      rw [hcons] at hargs hloads
      have hlater : ∀ args ∈ later, s ∉ stringNames args := by
        intro args ha hs'
        have hsome : s ∈ t.symbolsAmong args := mem_symbolsAmong_iff.2 ⟨hknown, hs'⟩
        rw [hloads.symbolsAmong_tail args ha] at hsome
        cases hsome
      have hnone : s ∉ stringNames later.flatten := by
        intro hs'
        obtain ⟨arg, ha, he⟩ := mem_stringNames.1 hs'
        obtain ⟨args, hargs, ha⟩ := List.mem_flatten.1 ha
        exact hlater args hargs (mem_stringNames.2 ⟨arg, ha, he⟩)
      rcases List.mem_cons.1 hargs with rfl | ha
      · rw [List.flatten_cons, stringNames_append, List.count_append,
          List.count_eq_zero_of_not_mem hnone, Nat.add_zero]
      · exact absurd hmem (hlater args ha)

/-! ## Added symbols -/

/-- The strings that the load in the place of another one has and that one had
not. -/
def addedBy (stmt : Expr) : LoadRevision → List String
  | .replaced load =>
      (stringNames (loadArgs load)).filter fun s => !(stringNames (loadArgs stmt)).contains s
  | .kept | .deleted => []

/-- The strings that reconciling adds, in new loads and in those that take the
place of others. -/
def addedNames (t : SymbolTable) (f : File) : List String :=
  stringNames ((t.freshLoads f).flatMap loadArgs) ++
    (t.reviseStmts (t.used f) [] f.stmts).flatMap fun r => addedBy r.1 r.2

theorem used_nodup (hf : file ∈ t.files) : (t.used f file).Nodup :=
  ((t.wellFormed.sets file hf).imp String.ne_of_lt).sublist List.filter_sublist

theorem wantedOf_nodup {used : SymbolFile → List String} {seen : List String}
    (h : (used file).Nodup) : (wantedOf used seen file).Nodup := by
  unfold wantedOf
  split
  · exact List.nodup_nil
  · exact h

/-- A string that a load had not is as often in the revised load as it is
missing. -/
theorem count_stringNames_revisedArgs (h : s ∉ stringNames rest) :
    (stringNames (t.revisedArgs wanted rest)).count s = (t.missingSymbols wanted rest).count s := by
  have hsub : ∀ {args}, args ⊆ rest → (stringNames args).count s = 0 := by
    intro args hargs
    refine List.count_eq_zero_of_not_mem fun hmem => h ?_
    obtain ⟨arg, ha, he⟩ := mem_stringNames.1 hmem
    exact mem_stringNames.2 ⟨arg, hargs ha, he⟩
  have hpresent : t.presentArgs wanted rest ⊆ rest := List.filter_sublist.subset
  have hsorted := (List.mergeSort_perm (t.presentArgs wanted rest ++
    (t.missingSymbols wanted rest).map fun s => Expr.string s {}) valueLE).filterMap Expr.string?
  have hsymbols : (stringNames (t.revisedSymbols wanted rest)).count s =
      (t.missingSymbols wanted rest).count s := by
    rw [stringNames, revisedSymbols, hsorted.count_eq]
    show (stringNames (_ ++ _)).count s = _
    rw [stringNames_append, List.count_append, stringNames_map_string,
      hsub hpresent, Nat.zero_add]
  rw [revisedArgs, stringNames_append, List.count_append, hsymbols,
    hsub List.filter_sublist.subset, Nat.add_zero]

theorem exists_of_mem_reviseStmts {used : SymbolFile → List String} {seen : List String}
    {stmts : List Expr} {r : Expr × LoadRevision} (h : r ∈ t.reviseStmts used seen stmts) :
    r.2 = .kept ∨ ∃ g ∈ t.files, ∃ seen' args, load? r.1 = some (g.label, args) ∧
      r.2 = t.reviseLoad (wantedOf used seen' g) r.1 := by
  induction stmts generalizing seen with
  | nil => cases h
  | cons stmt stmts ih =>
      cases hm : t.managed? stmt with
      | none =>
          rw [reviseStmts, hm] at h
          rcases List.mem_cons.1 h with rfl | h
          · exact .inl rfl
          · exact ih h
      | some g =>
          obtain ⟨hg, args, hl⟩ := managed?_eq_some hm
          rw [reviseStmts, hm] at h
          rcases List.mem_cons.1 h with rfl | h
          · exact .inr ⟨g, hg, seen, args, hl, rfl⟩
          · exact ih h

/-- A symbol added to a load is wanted of it and written there once. -/
theorem added_of_reviseLoad {stmt load : Expr} {label : String} {args : List Expr}
    (hl : load? stmt = some (label, args)) (hw : wanted.Nodup)
    (hr : t.reviseLoad wanted stmt = .replaced load) (hs : s ∈ addedBy stmt (.replaced load)) :
    s ∈ wanted ∧ ∃ args', load? load = some (label, args') ∧ (stringNames args').count s = 1 := by
  obtain ⟨hnew, hold⟩ := List.mem_filter.1 hs
  rw [loadArgs_of_load? hl, Bool.not_eq_true', ← Bool.not_eq_true, List.contains_iff_mem] at hold
  obtain ⟨_, _, _, _, rfl⟩ := eq_call_of_load? hl
  rw [reviseLoad_call] at hr
  split at hr
  · split at hr <;> cases hr
  · split at hr
    · cases hr
    · cases hr
      have hcount : (stringNames (t.revisedArgs wanted args)).count s = _ :=
        count_stringNames_revisedArgs hold
      have hmissing : s ∈ t.missingSymbols wanted args := by
        rw [← List.count_pos_iff, ← hcount, List.count_pos_iff]
        exact hnew
      refine ⟨(mem_missingSymbols.1 hmissing).1, _, rfl, ?_⟩
      rw [hcount]
      exact List.count_eq_one_of_mem (hw.sublist List.filter_sublist) hmissing

/-- An added symbol is a used one, and a load of its file has it once. -/
theorem exists_load_of_added (hs : s ∈ t.addedNames f) :
    ∃ file ∈ t.files, s ∈ t.used f file ∧
      ∃ args ∈ loadsOf file.label (t.reconciled f).stmts, (stringNames args).count s = 1 := by
  rw [stmts_reconciled]
  rcases List.mem_append.1 hs with hfresh | hrevised
  · obtain ⟨arg, ha, he⟩ := mem_stringNames.1 hfresh
    obtain ⟨load, hload, ha⟩ := List.mem_flatMap.1 ha
    obtain ⟨g, hg, rfl⟩ := List.mem_map.1 hload
    obtain ⟨s', hs', rfl⟩ := List.mem_map.1 ha
    cases he
    have hfile := (List.mem_filter.1 hg).1
    refine ⟨g, hfile, hs', (t.used f g).map fun s => .string s {}, ?_, ?_⟩
    · rw [loadsOf_append]
      exact List.mem_append_left _ (List.mem_filterMap.2 ⟨_, hload, by simp [freshLoad, load?]⟩)
    · rw [stringNames_map_string]
      exact List.count_eq_one_of_mem (used_nodup hfile) hs'
  · obtain ⟨⟨stmt, revision⟩, hr, hadded⟩ := List.mem_flatMap.1 hrevised
    rcases exists_of_mem_reviseStmts hr with rfl | ⟨g, hg, seen, args, hl, hrev⟩
    · cases hadded
    · cases revision with
      | kept => cases hadded
      | deleted => cases hadded
      | replaced load =>
          obtain ⟨hwanted, args', hl', hcount⟩ :=
            added_of_reviseLoad hl (wantedOf_nodup (used_nodup hg)) hrev.symm hadded
          refine ⟨g, hg, ?_, args', ?_, hcount⟩
          · unfold wantedOf at hwanted
            split at hwanted
            · cases hwanted
            · exact hwanted
          · rw [loadsOf_append]
            have hmem : load ∈ t.revisedStmts (t.used f) [] f.stmts :=
              List.mem_flatMap.2 ⟨_, hr, List.mem_singleton_self load⟩
            exact List.mem_append_right _ (List.mem_filterMap.2 ⟨load, hmem, by simp [hl']⟩)

/-- An added symbol is a string of one argument only. -/
theorem count_stringNames_reconciled (hs : s ∈ t.addedNames f) :
    (stringNames ((t.reconciled f).stmts.flatMap loadArgs)).count s = 1 := by
  obtain ⟨file, hf, hused, args, hargs, hcount⟩ := exists_load_of_added hs
  have hmem : s ∈ stringNames args := by
    rw [← List.count_pos_iff, hcount]
    exact Nat.one_pos
  rw [count_stringNames_of_used hf hused hargs hmem, hcount]

/-- A symbol that reconciling adds is bound by no other argument of a load
exactly when no load of the build file has it as a keyword. -/
theorem added_bound_once_iff (hs : s ∈ t.addedNames f) :
    (boundNames (t.reconciled f).stmts).count s = 1 ↔
      s ∉ keywordNames (f.stmts.flatMap loadArgs) := by
  rw [boundNames, count_boundName, count_stringNames_reconciled hs, keywordNames_reconciled,
    ← List.count_eq_zero]
  omega

theorem mixedLoads_bound_once :
    "go_test" ∈ standard.addedNames mixedLoads ∧
      (boundNames (standard.reconciled mixedLoads).stmts).count "go_test" = 1 := by
  have hadded : "go_test" ∈ standard.addedNames mixedLoads := by decide +kernel
  exact ⟨hadded, (added_bound_once_iff hadded).2 (by decide +kernel)⟩

/-- A file that calls `go_library`, which its load of the rules of Go gives to
`go_binary` as another name. -/
def renamedLoad : File where
  stmts := [
    .call (.literal "load" {}) [.string goRules.label {},
      .keyword "go_library" (.string "go_binary" {})] false {},
    .call (.literal "go_library" {}) [] false {}]

theorem renamedLoad_bound_twice :
    "go_library" ∈ standard.addedNames renamedLoad ∧
      (boundNames (standard.reconciled renamedLoad).stmts).count "go_library" = 2 := by
  decide +kernel

end SymbolTable

end BuildFix
