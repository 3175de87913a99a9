import BuildFix.Proofs.Attempts
import BuildFix.Proofs.Legacy.Passes
import BuildFix.WorkspaceFile

/-!
# Keep directives that protect

A workspace file may set the word of the keep directive, and any word that is not blank is
accepted.  A comment line says a word if it is a sign, a space and the word.

The text of a comment is trimmed before the word is looked for, and the word is not.  So the
line says the directive exactly when the word has no blank character at either end
(`Comment.isDirective_line_iff`).  A line that says it protects the rules that carry it from
a pass, whatever else the build file holds (`protected_of_isDirective`), and the line of any
other accepted word protects nothing.
-/

namespace BuildFix

open Text (trim)

/-! ## Comment lines -/

namespace Text

theorem length_trimEnd_le (cs : List Char) : (trimEnd cs).length ≤ cs.length := by
  have hle := (List.dropWhile_sublist (l := cs.reverse) isBlank).length_le
  rwa [List.length_reverse, ← List.length_reverse] at hle

theorem length_trim_le (cs : List Char) : (trim cs).length ≤ cs.length :=
  Nat.le_trans (length_trimEnd_le _) (List.dropWhile_sublist isBlank).length_le

/-- A text that begins what is left of it after trimming is all of it. -/
theorem trim_eq_self_of_isPrefix {cs : List Char} (h : cs <+: trim cs) : trim cs = cs :=
  (h.eq_of_length_le (length_trim_le cs)).symm

end Text

namespace Comment

/-- The comment line of a word. -/
def line (word : String) : Comment := ⟨"# " ++ word⟩

theorem body_line (word : String) : (line word).body = trim word.toList := by
  have hsigns : ("# " ++ word).toList.dropWhile (· == '#') = ' ' :: word.toList := by
    rw [String.toList_append]
    rfl
  rw [body, line, hsigns, trim, List.dropWhile_cons_of_pos (by decide)]
  rfl

/-- The line of a word is the directive exactly when the word has no blank at either end. -/
theorem isDirective_line_iff (word : String) :
    (line word).isDirective word = true ↔ trim word.toList = word.toList := by
  rw [isDirective, body_line]
  constructor
  · intro h
    cases hbegins : word.toList.isPrefixOf? (trim word.toList) with
    | none => simp [hbegins] at h
    | some rest =>
        have happend := List.isPrefixOf?_eq_some_iff_append_eq.1 hbegins
        exact Text.trim_eq_self_of_isPrefix ⟨rest, happend⟩
  · intro h
    have hbegins : word.toList.isPrefixOf? word.toList = some [] :=
      List.isPrefixOf?_eq_some_iff_append_eq.2 (List.append_nil _)
    rw [h, hbegins]

end Comment

/-! ## Accepted words -/

namespace WorkspaceFile

theorem nameOr_eq_ok_iff {field usual name : String} {set? : Option String} :
    nameOr field usual set? = .ok name ↔
      set?.getD usual = name ∧ ∀ word, set? = some word → Text.isBlankText word = false := by
  cases set? with
  | none => simp [nameOr]
  | some word => cases h : Text.isBlankText word <;> simp [nameOr, h]

/-- The keep directive of an accepted workspace file is the word that it sets. -/
theorem keepWord_of_merge {w : WorkspaceFile} {disabled : List String} {m : Merged}
    {word : String} (hword : w.keepWord = some word) (hmerge : w.merge disabled = .ok m) :
    m.conventions.keepWord = word ∧ Text.isBlankText word = false := by
  obtain ⟨libraryName, -, hmerge⟩ := exists_of_bind_eq_ok hmerge
  obtain ⟨legacyName, -, hmerge⟩ := exists_of_bind_eq_ok hmerge
  obtain ⟨keepWord, hkeep, hmerge⟩ := exists_of_bind_eq_ok hmerge
  obtain ⟨symbols, -, hmerge⟩ := exists_of_bind_eq_ok hmerge
  obtain ⟨hname, hblank⟩ := nameOr_eq_ok_iff.1 hkeep
  rw [hword, Option.getD_some] at hname
  cases hmerge
  exact ⟨hname.symm, hblank word hword⟩

/-- Every word that is not blank is accepted. -/
theorem exists_merge_iff (word : String) (disabled : List String) :
    (∃ m, ({ keepWord := some word } : WorkspaceFile).merge disabled = .ok m) ↔
      Text.isBlankText word = false := by
  constructor
  · rintro ⟨m, hmerge⟩
    exact (keepWord_of_merge rfl hmerge).2
  · intro hblank
    have hname : nameOr "keep_directive" "keep" (some word) = .ok word := by
      simp [nameOr, hblank]
    refine ⟨⟨{ keepWord := word }, addKeys [] disabled⟩, ?_⟩
    simp only [merge, hname]
    rfl

end WorkspaceFile

/-! ## Protection -/

namespace Legacy

variable {cv : Conventions} {c : Comment} {p q : Rule → Bool} {r new : Rule} {stmts : List Expr}

/-- Decide whether a rule is of a kind and carries a comment, in any group. -/
def carries (kind : String) (c : Comment) (r : Rule) : Bool :=
  r.kind == kind && r.comments.toList.contains c

/-- A comment protects the rules of a build file that carry it. -/
structure Protects (cv : Conventions) (c : Comment) (f : File) : Prop where
  /-- The rules of the legacy kind that carry it are there after a pass as before. -/
  legacy : (pass cv f).stmts.filter (isRuleOf (carries legacyKind c)) =
    f.stmts.filter (isRuleOf (carries legacyKind c))
  /-- If the first library carries it, a pass only takes the first legacy rule away. -/
  library : ∀ library, firstRule? (isLibrary cv) f.stmts = some library →
    c ∈ library.comments.toList → (pass cv f).stmts = f.stmts.eraseP (isLegacyStmt cv)

/-- Rules without a property are taken away around those with it. -/
theorem filter_eraseP (hd : ∀ r, p r = true → q r = false) :
    (stmts.eraseP (isRuleOf p)).filter (isRuleOf q) = stmts.filter (isRuleOf q) := by
  cases h : rulesOf p stmts with
  | nil => rw [List.eraseP_of_forall_not (by simpa using rulesOf_eq_nil_iff.1 h)]
  | cons r rs =>
      obtain ⟨hr, pre, post, rfl, hpre, -⟩ := exists_slot h
      rw [eraseP_slot hpre hr, List.filter_append, List.filter_append,
        List.filter_cons_of_neg (by simp [hd r hr])]

/-- The slot of a rule without a property may hold any other. -/
theorem filter_replaceFirst (hd : ∀ r, p r = true → q r = false) (hnew : q new = false) :
    (replaceFirst (isRuleOf p) new.toExpr stmts).filter (isRuleOf q) =
      stmts.filter (isRuleOf q) := by
  induction stmts with
  | nil => rfl
  | cons e stmts ih =>
      cases h : isRuleOf p e with
      | true =>
          obtain ⟨r, hr, hp⟩ := (Option.any_eq_true _ _).1 h
          have he : isRuleOf q e = false := by simp [isRuleOf, hr, hd r hp]
          rw [replaceFirst_cons_of_pos h, List.filter_cons_of_neg (by simp [hnew]),
            List.filter_cons_of_neg (by simp [he])]
      | false => rw [replaceFirst_cons_of_neg h, List.filter_cons, List.filter_cons, ih]

theorem carries_eq_false_of_kind (h : r.kind = libraryKind) : carries legacyKind c r = false := by
  simp [carries, h, libraryKind, legacyKind]

theorem carries_eq_false_of_isLibrary (h : isLibrary cv r = true) :
    carries legacyKind c r = false := by
  simp only [isLibrary, Bool.and_eq_true, beq_iff_eq] at h
  exact carries_eq_false_of_kind h.1

theorem hasDirective_of_mem (hc : c.isDirective cv.keepWord = true)
    (hmem : c ∈ r.comments.toList) : r.hasDirective cv.keepWord = true :=
  (Comments.hasDirective_iff _ _).2 ⟨c, hmem, hc⟩

theorem carries_eq_false_of_isLegacy (hc : c.isDirective cv.keepWord = true)
    (h : isLegacy cv r = true) : carries legacyKind c r = false := by
  have hnone := hasDirective_of_isLegacy h
  have hmem : c ∉ r.comments.toList := by
    intro hmem
    rw [hasDirective_of_mem hc hmem] at hnone
    cases hnone
  simp [carries, hmem]

/-- A comment that is the keep directive protects. -/
theorem protects_of_isDirective (hc : c.isDirective cv.keepWord = true) (f : File) :
    Protects cv c f where
  legacy := by
    have hlegacy (r : Rule) (h : isLegacy cv r = true) := carries_eq_false_of_isLegacy hc h
    have hlibrary (r : Rule) (h : isLibrary cv r = true) :=
      carries_eq_false_of_isLibrary (c := c) h
    cases h : legacyRules cv f.stmts with
    | nil => rw [stmts_pass_of_nil h]
    | cons legacy rs =>
        cases hl : libraryRules cv f.stmts with
        | nil =>
            rw [stmts_pass_fresh h hl]
            exact filter_replaceFirst hlegacy
              (carries_eq_false_of_kind (kind_foldInto.trans kind_freshLibrary))
        | cons library rules =>
            cases hk : library.hasDirective cv.keepWord with
            | true =>
                rw [stmts_pass_kept h hl hk]
                exact filter_eraseP hlegacy
            | false =>
                have hnew : isLibrary cv (foldInto legacy library) = true := by
                  rw [isLibrary_foldInto, isLibrary_of_libraryRules hl]
                rw [stmts_pass_library h hl hk]
                exact (filter_replaceFirst hlibrary (hlibrary _ hnew)).trans
                  (filter_eraseP hlegacy)
  library := by
    intro library hfirst hmem
    rw [firstRule?_eq_head?] at hfirst
    obtain ⟨rules, hl⟩ := List.head?_eq_some_iff.1 hfirst
    cases h : legacyRules cv f.stmts with
    | nil =>
        have hnone : ∀ e ∈ f.stmts, isLegacyStmt cv e = false := rulesOf_eq_nil_iff.1 h
        rw [stmts_pass_of_nil h, List.eraseP_of_forall_not (by simpa using hnone)]
    | cons legacy rs => exact stmts_pass_kept h hl (hasDirective_of_mem hc hmem)

/-! ## Unprotected rules -/

/-- A rule of the legacy kind and name under a comment line. -/
def commentedRule (cv : Conventions) (c : Comment) : Rule where
  kind := legacyKind
  args := [.keyword "name" (.string cv.legacyName {})]
  comments := { before := [c] }

/-- A build file of a single rule under a comment line. -/
def commentedFile (cv : Conventions) (c : Comment) : File :=
  ⟨"BUILD", [(commentedRule cv c).toExpr]⟩

theorem carries_commentedRule : carries legacyKind c (commentedRule cv c) = true := by
  simp [carries, commentedRule, Comments.toList]

theorem isLegacy_commentedRule (hc : c.isDirective cv.keepWord = false) :
    isLegacy cv (commentedRule cv c) = true := by
  have hname : (commentedRule cv c).name? = some cv.legacyName := rfl
  have hdirective : (commentedRule cv c).hasDirective cv.keepWord = false := by
    simp [Rule.hasDirective, commentedRule, Comments.hasDirective, Comments.toList, hc]
  rw [isLegacy, hname, hdirective]
  simp [commentedRule]

/-- The rule goes away if its comment is no keep directive. -/
theorem filter_pass_commentedFile (hc : c.isDirective cv.keepWord = false) :
    (pass cv (commentedFile cv c)).stmts.filter (isRuleOf (carries legacyKind c)) = [] := by
  have hlegacy := isLegacy_commentedRule hc
  have hlibrary : isLibrary cv (commentedRule cv c) = false :=
    isLibrary_eq_false_of_isLegacy hlegacy
  have hrules : legacyRules cv (commentedFile cv c).stmts = [commentedRule cv c] :=
    rulesOf_cons_of_pos hlegacy
  have hnone : libraryRules cv (commentedFile cv c).stmts = [] := rulesOf_cons_of_neg hlibrary
  have hpass : (pass cv (commentedFile cv c)).stmts =
      [(foldInto (commentedRule cv c) (freshLibrary cv (commentedRule cv c))).toExpr] := by
    rw [stmts_pass_fresh hrules hnone]
    exact replaceFirst_cons_of_pos hlegacy
  have hnew : carries legacyKind c
      (foldInto (commentedRule cv c) (freshLibrary cv (commentedRule cv c))) = false :=
    carries_eq_false_of_kind (kind_foldInto.trans kind_freshLibrary)
  rw [hpass, List.filter_cons_of_neg (by simp [hnew]), List.filter_nil]

/-- A comment protects in all build files exactly when it is the keep directive. -/
theorem forall_protects_iff :
    (∀ f, Protects cv c f) ↔ c.isDirective cv.keepWord = true := by
  constructor
  · intro h
    by_contra hc
    have hempty := filter_pass_commentedFile (Bool.not_eq_true _ ▸ hc)
    rw [(h (commentedFile cv c)).legacy, commentedFile, List.filter_cons_of_pos] at hempty
    · cases hempty
    · exact carries_commentedRule
  · exact fun hc f => protects_of_isDirective hc f

end Legacy

/-- The comment line of a keep directive that a workspace file sets and that is accepted
protects the rules that carry it, in every build file, exactly when the word has no blank at
either end. -/
theorem WorkspaceFile.keepWord_protects_iff (w : WorkspaceFile) (disabled : List String)
    (word : String) (m : Merged) (hword : w.keepWord = some word)
    (hmerge : w.merge disabled = .ok m) :
    (∀ f, Legacy.Protects m.conventions (.line word) f) ↔ trim word.toList = word.toList := by
  rw [Legacy.forall_protects_iff, (keepWord_of_merge hword hmerge).1]
  exact Comment.isDirective_line_iff word

/-- The line of a usual word protects. -/
theorem WorkspaceFile.manualWord_protects :
    ({ keepWord := some "manual" } : WorkspaceFile).merge [] =
        .ok ⟨{ keepWord := "manual" }, []⟩ ∧
      ∀ f, Legacy.Protects { keepWord := "manual" } (.line "manual") f :=
  ⟨rfl, (keepWord_protects_iff { keepWord := some "manual" } [] "manual"
    ⟨{ keepWord := "manual" }, []⟩ rfl rfl).2 (by decide)⟩

/-- A word with a space behind it is accepted, and a legacy rule under its line is folded. -/
theorem WorkspaceFile.spacedWord_folded :
    ({ keepWord := some "keep " } : WorkspaceFile).merge [] =
        .ok ⟨{ keepWord := "keep " }, []⟩ ∧
      (Legacy.pass { keepWord := "keep " } ⟨"BUILD", [.call (.literal "cgo_library" {})
          [.keyword "name" (.string "cgo_default_library" {})] false
          { before := [.line "keep "] }]⟩).stmts =
        [.call (.literal "go_library" {})
          [.keyword "name" (.string "go_default_library" {}), .keyword "cgo" (.literal "True" {})]
          false { before := [⟨"# keep "⟩] }] :=
  ⟨rfl, by decide +kernel⟩

end BuildFix
