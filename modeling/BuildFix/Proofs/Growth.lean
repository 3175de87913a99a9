import BuildFix.Proofs.Changes
import BuildFix.Proofs.Loads.Bindings
import BuildFix.Proofs.Squash.Room
import BuildFix.Proofs.Tree.Rereading

/-!
# How much deeper a build file becomes

Folding makes a build file deeper by a fifth at most (`opensAll_foldStmts_le`).
Every attribute of the folded library has the room of an attribute of one of the
two rules, and `Rule.Fits` is kept by every step of a fold.  Reconciling adds no
depth but that of a new load (`opensAll_reconciled_le`).  A run of the fixers does
the one and then the other (`opens_run_le`).

The writer has no limit for the depth and the reader has one.  So a build file that
can be read may be written as one that cannot (`deepTree_unreadable`).
-/

namespace BuildFix

open BuildFix.Expr (opensAll)

/-! ## Attributes -/

namespace Rule

variable {n : Nat} {r : Rule} {key : String} {value arg : Expr} {args : List Expr}

/-- An argument and the value of an attribute have room. -/
def ArgFits (n : Nat) (arg : Expr) : Prop :=
  arg.opens ≤ n + 1 ∧ ∀ key value, arg.keyword? = some (key, value) → value.room ≤ n

/-- All arguments of a rule have room. -/
def Fits (n : Nat) (r : Rule) : Prop := ∀ arg ∈ r.args, ArgFits n arg

theorem keyword?_eq_some (h : arg.keyword? = some (key, value)) :
    ∃ kc c, arg = .keyValue (.literal key kc) value c := by
  cases arg with
  | keyValue k v c =>
      cases k with
      | literal name kc =>
          cases h
          exact ⟨kc, c, rfl⟩
      | _ => cases h
  | _ => cases h

/-- An attribute is given by an argument. -/
theorem exists_arg_of_attr? (h : r.attr? key = some value) :
    ∃ arg ∈ r.args, arg.keyword? = some (key, value) := by
  rw [attr?, List.lookup_eq_some_iff] at h
  obtain ⟨before, after, hattrs, -⟩ := h
  have hmem : (key, value) ∈ r.attrs := by
    rw [hattrs]
    exact List.mem_append_right _ List.mem_cons_self
  exact List.mem_filterMap.1 hmem

theorem Fits.attr? (hr : r.Fits n) (h : r.attr? key = some value) : value.room ≤ n := by
  obtain ⟨arg, harg, hk⟩ := exists_arg_of_attr? h
  exact (hr arg harg).2 key value hk

/-- A new attribute has the room of its value. -/
theorem argFits_keyword (hv : value.room ≤ n) : ArgFits n (.keyword key value) := by
  have hopens := value.opens_le_room
  have hpos := value.opens_pos
  refine ⟨?_, fun k v hk => ?_⟩
  · rw [Expr.keyword, Expr.opens_keyValue, Expr.opens_literal, Comments.opens_empty]
    omega
  · cases hk
    exact hv

theorem argFits_setValue (harg : ArgFits n arg) (hv : value.room ≤ n) :
    ArgFits n (setValue value arg) := by
  cases arg with
  | keyValue k v c =>
      have hopens := value.opens_le_room
      have hold := harg.1
      rw [Expr.opens_keyValue] at hold
      refine ⟨?_, fun key v' hk => ?_⟩
      · rw [setValue, Expr.opens_keyValue]
        omega
      · obtain ⟨kc, c', he⟩ := keyword?_eq_some hk
        cases he
        exact hv
  | _ => exact harg

theorem argFits_setArg (hargs : ∀ arg ∈ args, ArgFits n arg) (hv : value.room ≤ n) :
    ∀ arg ∈ setArg key value args, ArgFits n arg := by
  induction args with
  | nil => simpa [setArg] using argFits_keyword hv
  | cons arg args ih =>
      rw [List.forall_mem_cons] at hargs
      rw [setArg]
      split
      · exact List.forall_mem_cons.2 ⟨argFits_setValue hargs.1 hv, hargs.2⟩
      · exact List.forall_mem_cons.2 ⟨hargs.1, ih hargs.2⟩

theorem Fits.setAttr (hr : r.Fits n) (hv : value.room ≤ n) : (r.setAttr key value).Fits n :=
  argFits_setArg hr hv

theorem Fits.eraseAttr (hr : r.Fits n) : (r.eraseAttr key).Fits n :=
  fun arg harg => hr arg (List.mem_of_mem_eraseP harg)

theorem opens_toExpr (r : Rule) :
    r.toExpr.opens =
      max (max (r.kindComments.opens + 1) (opensAll r.args + 1)) r.comments.opens + 1 := by
  rw [toExpr, Expr.opens_call, Expr.opens_literal]

/-- The arguments of a rule have about a fifth more room than the rule is deep. -/
theorem fits_of_opens_le {a : Nat} (h : r.toExpr.opens ≤ a) (ha : 6 * a ≤ 5 * n + 19) :
    r.Fits n := by
  intro arg harg
  have harg := Expr.opens_le_opensAll harg
  rw [opens_toExpr] at h
  refine ⟨by omega, fun key value hk => ?_⟩
  obtain ⟨kc, c, rfl⟩ := keyword?_eq_some hk
  have := value.room_le
  rw [Expr.opens_keyValue] at harg
  omega

/-- A rule whose arguments have room, with nothing deeper on its callee and on the
call, is no deeper than the room allows. -/
theorem Fits.opens_le (hr : r.Fits n) (hkind : r.kindComments.opens ≤ n + 1)
    (hcall : r.comments.opens ≤ n + 2) : r.toExpr.opens ≤ n + 3 := by
  have hargs : opensAll r.args ≤ n + 1 := Expr.opensAll_le_iff.2 fun arg harg => (hr arg harg).1
  rw [opens_toExpr]
  omega

end Rule

/-! ## Folding -/

namespace Legacy

variable {cv : Conventions} {n a : Nat} {r legacy library : Rule} {key : String}
  {stmts stmts' : List Expr}

/-- A squashed attribute has the room of one of the two values. -/
theorem fits_squashAttr (hl : legacy.Fits n) (hr : r.Fits n) :
    (squashAttr legacy r key).Fits n := by
  unfold squashAttr
  split
  next => exact hr
  next value hvalue =>
    split
    next squashed hs =>
      refine hr.setAttr (room_squash_le hs ?_ (hl.attr? hvalue))
      cases hold : r.attr? key with
      | none => exact Nat.zero_le n
      | some old => exact hr.attr? hold
    next => exact hr
    next => exact hr

theorem fits_foldl_squashAttr (hl : legacy.Fits n) (keys : List String) (hr : r.Fits n) :
    (keys.foldl (squashAttr legacy) r).Fits n := by
  induction keys generalizing r with
  | nil => exact hr
  | cons key keys ih => exact ih (fits_squashAttr hl hr)

theorem kindComments_foldInto :
    (foldInto legacy library).kindComments = library.kindComments := by
  have hfoldl (keys : List String) (r : Rule) :
      (keys.foldl (squashAttr legacy) r).kindComments = r.kindComments := by
    induction keys generalizing r with
    | nil => rfl
    | cons key keys ih =>
        rw [List.foldl_cons, ih]
        rcases squashAttr_cases legacy r key with h | ⟨value, h⟩ <;> rw [h]
        rfl
  exact hfoldl squashedAttrs _

theorem fits_foldInto (hn : 0 < n) (hl : legacy.Fits n) (hr : library.Fits n) :
    (foldInto legacy library).Fits n := by
  have hjoined : Rule.Fits n { library with comments := library.comments ++ legacy.comments } := hr
  exact fits_foldl_squashAttr hl squashedAttrs (hjoined.eraseAttr.setAttr hn)

theorem fits_freshLibrary (hn : 0 < n) (hl : legacy.Fits n) : (freshLibrary cv legacy).Fits n := by
  have hname : ((Rule.mk libraryKind {} [] false {}).setAttr "name"
      (.string cv.libraryName {})).Fits n := Rule.Fits.setAttr nofun hn
  unfold freshLibrary
  split
  next v hv => exact hname.setAttr (hl.attr? hv)
  next => exact hname

/-- A legacy rule has a name, which is four levels deep. -/
theorem four_le_opens (h : isLegacy cv legacy = true) : 4 ≤ legacy.toExpr.opens := by
  simp only [isLegacy, Bool.and_eq_true, beq_iff_eq, Rule.name?, Option.bind_eq_some_iff] at h
  obtain ⟨⟨-, v, hv, -⟩, -⟩ := h
  obtain ⟨arg, harg, hk⟩ := Rule.exists_arg_of_attr? hv
  obtain ⟨kc, c, rfl⟩ := Rule.keyword?_eq_some hk
  have hopens := Expr.opens_le_opensAll harg
  have hpos := v.opens_pos
  rw [Expr.opens_keyValue] at hopens
  rw [Rule.opens_toExpr]
  omega

/-- The folded library is a fifth deeper than the two rules at most. -/
theorem opens_foldInto_le (h4 : 4 ≤ a) (hl : legacy.toExpr.opens ≤ a)
    (hr : library.toExpr.opens ≤ a) : 5 * (foldInto legacy library).toExpr.opens ≤ 6 * a := by
  have hfits := fits_foldInto (n := (6 * a - 15) / 5) (by omega)
    (Rule.fits_of_opens_le hl (by omega)) (Rule.fits_of_opens_le hr (by omega))
  rw [Rule.opens_toExpr] at hl hr
  have hopens := hfits.opens_le (by rw [kindComments_foldInto]; omega)
    (by rw [comments_foldInto, Comments.opens_append]; omega)
  omega

/-- The library made of a legacy rule alone is a fifth deeper at most. -/
theorem opens_foldInto_freshLibrary_le (h4 : 4 ≤ a) (hl : legacy.toExpr.opens ≤ a) :
    5 * (foldInto legacy (freshLibrary cv legacy)).toExpr.opens ≤ 6 * a := by
  have hlegacy : legacy.Fits ((6 * a - 15) / 5) := Rule.fits_of_opens_le hl (by omega)
  have hfresh : (freshLibrary cv legacy).Fits _ := fits_freshLibrary (by omega) hlegacy
  have hfits := fits_foldInto (by omega) hlegacy hfresh
  have hkind : (freshLibrary cv legacy).kindComments = {} := by
    unfold freshLibrary
    split <;> rfl
  rw [Rule.opens_toExpr] at hl
  have hopens := hfits.opens_le (by rw [kindComments_foldInto, hkind]; exact Nat.zero_le _)
    (by rw [comments_foldInto, comments_freshLibrary, Comments.empty_append]; omega)
  omega

theorem mem_replaceFirst {p : Expr → Bool} {new e : Expr} (h : e ∈ replaceFirst p new stmts) :
    e = new ∨ e ∈ stmts := by
  induction stmts with
  | nil => cases h
  | cons x xs ih =>
      rw [replaceFirst] at h
      split at h
      · exact (List.mem_cons.1 h).imp_right (List.mem_cons_of_mem x)
      · rcases List.mem_cons.1 h with rfl | h
        · exact .inr List.mem_cons_self
        · exact (ih h).imp_right (List.mem_cons_of_mem x)

theorem toExpr_mem_of_firstRule? {p : Rule → Bool} (h : firstRule? p stmts = some r) :
    p r = true ∧ r.toExpr ∈ stmts := by
  rw [firstRule?_eq_head?] at h
  obtain ⟨rs, hrs⟩ := List.head?_eq_some_iff.1 h
  obtain ⟨hp, pre, post, rfl, -, -⟩ := exists_slot hrs
  exact ⟨hp, List.mem_append_right _ List.mem_cons_self⟩

/-- Folding makes statements a fifth deeper at most. -/
theorem opensAll_foldStmts_le (h : foldStmts cv stmts = some stmts') :
    5 * opensAll stmts' ≤ 6 * opensAll stmts := by
  obtain ⟨legacy, hlegacy, rfl⟩ := Option.map_eq_some_iff.1 h
  obtain ⟨hp, hmem⟩ := toExpr_mem_of_firstRule? hlegacy
  have hl := Expr.opens_le_opensAll hmem
  have h4 := (four_le_opens hp).trans hl
  -- Every statement is one of before or the folded library.
  have bound {new : Expr} {ss : List Expr} (hnew : 5 * new.opens ≤ 6 * opensAll stmts)
      (hss : ∀ e ∈ ss, e = new ∨ e ∈ stmts) : 5 * opensAll ss ≤ 6 * opensAll stmts := by
    have hall : opensAll ss ≤ 6 * opensAll stmts / 5 := by
      rw [Expr.opensAll_le_iff]
      intro e he
      rcases hss e he with rfl | he
      · omega
      · have := Expr.opens_le_opensAll he
        omega
    omega
  split
  next => exact bound (opens_foldInto_freshLibrary_le h4 hl) fun e => mem_replaceFirst
  next library hlibrary =>
    have hr := Expr.opens_le_opensAll (toExpr_mem_of_firstRule? hlibrary).2
    have hnew := opens_foldInto_le h4 hl hr
    split
    · exact bound hnew fun e he => .inr (List.mem_of_mem_eraseP he)
    · exact bound hnew fun e he => (mem_replaceFirst he).imp_right List.mem_of_mem_eraseP

end Legacy

/-! ## Reconciling -/

namespace SymbolTable

variable {t : SymbolTable} {wanted : List String} {stmt load : Expr}

/-- The arguments of a revised load are no deeper than those it had and a label. -/
theorem opensAll_revisedArgs_le (t : SymbolTable) (wanted : List String) (rest : List Expr) :
    opensAll (t.revisedArgs wanted rest) ≤ max 1 (opensAll rest) := by
  rw [Expr.opensAll_le_iff]
  intro arg harg
  have hold (h : arg ∈ rest) : arg.opens ≤ max 1 (opensAll rest) :=
    (Expr.opens_le_opensAll h).trans (Nat.le_max_right ..)
  rw [revisedArgs, revisedSymbols, List.mem_append, List.mem_mergeSort, List.mem_append] at harg
  rcases harg with (hpresent | hadded) | hother
  · exact hold (List.mem_of_mem_filter hpresent)
  · obtain ⟨s, -, rfl⟩ := List.mem_map.1 hadded
    rw [Expr.opens_string]
    exact Nat.le_max_left ..
  · exact hold (List.mem_of_mem_filter hother)

/-- A revised load is no deeper than the load it replaces. -/
theorem opens_reviseLoad_le (h : t.reviseLoad wanted stmt = .replaced load) :
    load.opens ≤ stmt.opens := by
  cases stmt with
  | call callee args compact c =>
      cases args with
      | nil => cases h
      | cons label rest =>
          rw [reviseLoad_call] at h
          split at h
          · split at h <;> cases h
          · split at h
            · cases h
            · cases h
              have hargs := opensAll_revisedArgs_le t wanted rest
              have hlabel := label.opens_pos
              simp only [Expr.opens_call, Expr.opensAll_cons]
              omega
  | _ => cases h

theorem opens_freshLoad (file : SymbolFile) (symbols : List String) :
    (freshLoad file symbols).opens = 3 := by
  have hsymbols : opensAll (symbols.map fun s => Expr.string s {}) ≤ 1 := by
    rw [Expr.opensAll_le_iff, List.forall_mem_map]
    exact fun s _ => Nat.le_refl 1
  rw [freshLoad, Expr.opens_call, Expr.opens_literal, Expr.opensAll_cons, Expr.opens_string,
    Comments.opens_empty]
  omega

/-- Reconciling adds no depth but that of a new load. -/
theorem opensAll_reconciled_le (t : SymbolTable) (f : File) :
    opensAll (t.reconciled f).stmts ≤ max 3 (opensAll f.stmts) := by
  have hstmt {stmt : Expr} (h : stmt ∈ f.stmts) : stmt.opens ≤ max 3 (opensAll f.stmts) :=
    (Expr.opens_le_opensAll h).trans (Nat.le_max_right ..)
  rw [stmts_reconciled, Expr.opensAll_le_iff]
  intro e he
  rcases List.mem_append.1 he with hfresh | hrevised
  · obtain ⟨file, -, rfl⟩ := List.mem_map.1 hfresh
    rw [opens_freshLoad]
    exact Nat.le_max_left ..
  · obtain ⟨⟨stmt, revision⟩, hr, he⟩ := List.mem_flatMap.1 hrevised
    have hmem : stmt ∈ f.stmts := by
      have hfst := List.mem_map_of_mem (f := Prod.fst) hr
      rwa [map_fst_reviseStmts] at hfst
    cases revision with
    | kept =>
        rw [List.mem_singleton.1 he]
        exact hstmt hmem
    | deleted => cases he
    | replaced load =>
        rw [List.mem_singleton.1 he]
        rcases exists_of_mem_reviseStmts hr with hkept | ⟨g, -, seen, args, -, hload⟩
        · cases hkept
        · exact (opens_reviseLoad_le hload.symm).trans (hstmt hmem)

end SymbolTable

/-! ## Runs -/

namespace Fixed

variable {cv : Conventions} {fixers : List Fixer}

/-- Folding makes a build file a fifth deeper at most, and not at all if there is
nothing to fold. -/
theorem opensAll_step_legacy (cv : Conventions) (r : Fixed) :
    5 * opensAll (step cv r .legacy).file.stmts ≤ 6 * opensAll r.file.stmts ∧
      (.legacy ∉ (step cv r .legacy).applied → (step cv r .legacy).file = r.file) := by
  rw [file_step, applied_step]
  cases hfold : Fixer.rewrite cv .legacy r.file with
  | none => exact ⟨by rw [Option.getD_none]; omega, fun _ => rfl⟩
  | some g =>
      obtain ⟨stmts, hstmts, rfl⟩ := Option.map_eq_some_iff.1 hfold
      exact ⟨Legacy.opensAll_foldStmts_le hstmts, fun h => absurd (by simp) h⟩

/-- Reconciling adds no depth but that of a new load. -/
theorem opensAll_step_loads (cv : Conventions) (r : Fixed) :
    opensAll (step cv r .loads).file.stmts ≤ max 3 (opensAll r.file.stmts) := by
  rw [file_step]
  exact cv.symbols.opensAll_reconciled_le r.file

/-- A run makes a build file a fifth deeper at most, and not at all without folding,
except that new loads need some depth. -/
theorem opensAll_run_le (cv : Conventions) (h : fixers.Sublist Fixer.all) (f : File) :
    opensAll (run cv fixers f).file.stmts ≤ max 3 (6 * opensAll f.stmts / 5) ∧
      (.legacy ∉ (run cv fixers f).applied →
        opensAll (run cv fixers f).file.stmts ≤ max 3 (opensAll f.stmts)) := by
  have hlegacy := opensAll_step_legacy cv { file := f }
  have hfifth : opensAll (step cv { file := f } .legacy).file.stmts ≤ 6 * opensAll f.stmts / 5 :=
    (Nat.le_div_iff_mul_le (by decide)).2 (by rw [Nat.mul_comm]; exact hlegacy.1)
  have hloads : opensAll (step cv { file := f } .loads).file.stmts ≤ max 3 (opensAll f.stmts) :=
    opensAll_step_loads cv { file := f }
  rcases sublist_all_cases h with rfl | rfl | rfl | rfl
  · exact ⟨by show opensAll f.stmts ≤ _; omega, fun _ => Nat.le_max_right ..⟩
  · refine ⟨hfifth.trans (Nat.le_max_right ..), fun hnot => ?_⟩
    show opensAll (step cv _ .legacy).file.stmts ≤ _
    rw [hlegacy.2 hnot]
    exact Nat.le_max_right ..
  · exact ⟨hloads.trans (by omega), fun _ => hloads⟩
  · have hboth := opensAll_step_loads cv (step cv { file := f } .legacy)
    refine ⟨hboth.trans (by omega), fun hnot => ?_⟩
    have hsame := hlegacy.2 fun hmem => hnot ((applied_prefix_foldl cv [.loads] _).subset hmem)
    rw [hsame] at hboth
    exact hboth

/-- How deep the JSON form of a build file is after a run. -/
theorem opens_run_le (h : fixers.Sublist Fixer.all) (f : File) :
    (run cv fixers f).file.toJson.opens ≤ max 5 (6 * f.toJson.opens / 5) ∧
      (.legacy ∉ (run cv fixers f).applied →
        (run cv fixers f).file.toJson.opens ≤ max 5 f.toJson.opens) := by
  obtain ⟨hfifth, hsame⟩ := opensAll_run_le cv h f
  rw [File.opens_toJson, File.opens_toJson]
  exact ⟨by omega, fun hnot => by have := hsame hnot; omega⟩

end Fixed

/-! ## What is written -/

/-- What a run writes for a tree is read as the rewritten build file, unless this
opens more than 127 arrays and objects at once.  It opens a fifth more than the
build file that was read at most, and no more if nothing was folded.  So a build
file that opens no more than 106 is always read again. -/
theorem ProcessedTree.written_text_read {cv : Conventions} {disabled : List String}
    {tree : SourceTree} {outDir : Option Path} {path : Path} {text : String}
    (h : (of cv (Fixer.without Fixer.all disabled) tree).write? outDir = some (.write path text)) :
    ∃ f, tree.content = .ok f ∧
      let r := Fixed.run cv (Fixer.without Fixer.all disabled) f
      File.parse text = (if r.file.toJson.opens ≤ 127 then .ok r.file else .error .malformed) ∧
      r.file.toJson.opens ≤ max 5 (6 * f.toJson.opens / 5) ∧
      (.legacy ∉ r.applied → r.file.toJson.opens ≤ max 5 f.toJson.opens) := by
  obtain ⟨f, hf, -, hwrite⟩ := write?_eq_some_iff.1 h
  cases hwrite
  exact ⟨f, hf, File.parse_text _, Fixed.opens_run_le List.filter_sublist f⟩

/-- A library with a value in 61 lists, and a legacy rule that adds a condition. -/
def deepLibrary : File where
  path := "BUILD"
  stmts :=
    [.call (.literal "go_library" {})
      [.keyword "name" (.string "go_default_library" {}),
        .keyword "srcs" (File.nested (.list [] {}) 60)] false {},
      .call (.literal "cgo_library" {})
        [.keyword "name" (.string "cgo_default_library" {}),
          .keyword "srcs" (.call (.literal "select" {}) [.dict
            [.keyValue (.string "//:linux" {}) (.list [.string "a.go" {}] {}) {}] {}] false {})]
        false {}]

/-- A tree that holds this build file. -/
def deepTree : SourceTree := ⟨⟨"BUILD.json"⟩, ⟨"BUILD.json"⟩, .ok deepLibrary⟩

theorem deepTree_write? :
    (ProcessedTree.of {} (Fixer.without Fixer.all []) deepTree).write? none =
      some (.write ⟨"BUILD.json"⟩
        (Fixed.run {} (Fixer.without Fixer.all []) deepLibrary).file.text) :=
  ProcessedTree.write?_eq_some_iff.2 ⟨deepLibrary, rfl, by decide +kernel, rfl⟩

theorem deepTree_text_read :
    deepLibrary.toJson.opens = 127 ∧
    ∃ f, deepTree.content = .ok f ∧
      let r := Fixed.run {} (Fixer.without Fixer.all []) f
      File.parse (Fixed.run {} (Fixer.without Fixer.all []) deepLibrary).file.text =
        (if r.file.toJson.opens ≤ 127 then .ok r.file else .error .malformed) ∧
      r.file.toJson.opens ≤ max 5 (6 * f.toJson.opens / 5) ∧
      (.legacy ∉ r.applied → r.file.toJson.opens ≤ max 5 f.toJson.opens) :=
  ⟨by decide +kernel, ProcessedTree.written_text_read deepTree_write?⟩

/-- The build file is read, and what is written for it is not. -/
theorem deepTree_unreadable :
    File.parse deepLibrary.text = .ok deepLibrary ∧
    ∃ path text, (ProcessedTree.of {} (Fixer.without Fixer.all []) deepTree).write? none =
        some (.write path text) ∧
      File.parse text = .error .malformed := by
  have hread := File.parse_text deepLibrary
  have hunread := File.parse_text (Fixed.run {} (Fixer.without Fixer.all []) deepLibrary).file
  rw [if_pos (by decide +kernel)] at hread
  rw [if_neg (by decide +kernel)] at hunread
  exact ⟨hread, _, _, deepTree_write?, hunread⟩

end BuildFix
