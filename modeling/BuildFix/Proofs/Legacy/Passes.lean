import BuildFix.Proofs.Legacy.Rules
import Mathlib.Logic.Function.Iterate

/-!
# Folding pass after pass

One pass folds the first legacy rule.  `foldedStmts` says at once what `k`
passes leave: the first `k` legacy rules go away, and the library is the left
fold of `foldInto` over them, from the library of the file or from a fresh one
in the slot of the first legacy rule.  A library with a keep directive stays as
it is.

`stmts_passes` is an induction on the number of passes for every file, and its
step is `foldedStmts_pass`: one pass and then `k` at once are `k + 1` at once.
The library that a pass leaves is the library of the next pass, and since no
legacy rule carries a keep directive, it carries one only if it did before.
-/

namespace BuildFix

namespace Legacy

variable {cv : Conventions} {stmts : List Expr} {f : File} {library legacy : Rule}
  {rules rs : List Rule} {k : Nat}

/-! ## One pass -/

/-- The build file after a pass, changed or not. -/
def pass (cv : Conventions) (f : File) : File := (fold cv f).getD f

/-- The build file after `k` passes. -/
def passes (cv : Conventions) (k : Nat) (f : File) : File := (pass cv)^[k] f

/-- The legacy rules among the statements, in order. -/
def legacyRules (cv : Conventions) (stmts : List Expr) : List Rule := rulesOf (isLegacy cv) stmts

/-- The libraries of the conventional name among the statements, in order. -/
def libraryRules (cv : Conventions) (stmts : List Expr) : List Rule := rulesOf (isLibrary cv) stmts

theorem isLegacy_of_legacyRules (h : legacyRules cv stmts = legacy :: rs) :
    isLegacy cv legacy = true := (exists_slot h).1

theorem isLibrary_of_libraryRules (h : libraryRules cv stmts = library :: rs) :
    isLibrary cv library = true := (exists_slot h).1

theorem isLibrary_eq_false_of_isLegacy {r : Rule} (h : isLegacy cv r = true) :
    isLibrary cv r = false := by
  cases hl : isLibrary cv r with
  | false => rfl
  | true =>
      rw [isLegacy_eq_false_of_isLibrary hl] at h
      cases h

theorem isLegacyStmt_eq_false_of_isLibraryStmt (e : Expr) (h : isLibraryStmt cv e = true) :
    isLegacyStmt cv e = false := by
  obtain ⟨r, hr, hl⟩ := (Option.any_eq_true _ _).1 h
  simp [isLegacyStmt, hr, isLegacy_eq_false_of_isLibrary hl]

theorem stmts_pass (cv : Conventions) (f : File) :
    (pass cv f).stmts = (foldStmts cv f.stmts).getD f.stmts := by
  rw [pass, fold]
  cases foldStmts cv f.stmts <;> rfl

theorem path_pass (cv : Conventions) (f : File) : (pass cv f).path = f.path := by
  rw [pass, fold]
  cases foldStmts cv f.stmts <;> rfl

theorem stmts_pass_of_nil (h : legacyRules cv f.stmts = []) : (pass cv f).stmts = f.stmts := by
  have hfirst : firstRule? (isLegacy cv) f.stmts = none := by
    rw [firstRule?_eq_head?]
    exact congrArg List.head? h
  rw [stmts_pass, foldStmts, hfirst]
  rfl

theorem foldStmts_of_cons (h : legacyRules cv stmts = legacy :: rs) :
    foldStmts cv stmts = some
      (match (libraryRules cv stmts).head? with
      | none =>
          replaceFirst (isLegacyStmt cv) (foldInto legacy (freshLibrary cv legacy)).toExpr stmts
      | some library =>
          if library.hasDirective cv.keepWord then stmts.eraseP (isLegacyStmt cv)
          else replaceFirst (isLibraryStmt cv) (foldInto legacy library).toExpr
            (stmts.eraseP (isLegacyStmt cv))) := by
  have hfirst : firstRule? (isLegacy cv) stmts = some legacy := by
    rw [firstRule?_eq_head?]
    exact congrArg List.head? h
  rw [foldStmts, hfirst, firstRule?_eq_head?]
  rfl

/-- A pass has nothing to do exactly when there is no legacy rule. -/
theorem fold_eq_none_iff : fold cv f = none ↔ legacyRules cv f.stmts = [] := by
  rw [fold, Option.map_eq_none_iff, foldStmts, Option.map_eq_none_iff, firstRule?_eq_head?,
    List.head?_eq_none_iff]
  rfl

/-! ## The three forms of a pass -/

/-- Without a library the folded one takes the slot of the legacy rule. -/
theorem stmts_pass_fresh (h : legacyRules cv f.stmts = legacy :: rs)
    (hl : libraryRules cv f.stmts = []) :
    (pass cv f).stmts = replaceFirst (isLegacyStmt cv)
      (foldInto legacy (freshLibrary cv legacy)).toExpr f.stmts := by
  rw [stmts_pass, foldStmts_of_cons h, hl]
  rfl

/-- Beside a kept library the legacy rule only goes away. -/
theorem stmts_pass_kept (h : legacyRules cv f.stmts = legacy :: rs)
    (hl : libraryRules cv f.stmts = library :: rules)
    (hk : library.hasDirective cv.keepWord = true) :
    (pass cv f).stmts = f.stmts.eraseP (isLegacyStmt cv) := by
  rw [stmts_pass, foldStmts_of_cons h, hl, List.head?_cons]
  simp only [if_pos hk]
  rfl

/-- The legacy rule goes away and is folded into the library in its slot. -/
theorem stmts_pass_library (h : legacyRules cv f.stmts = legacy :: rs)
    (hl : libraryRules cv f.stmts = library :: rules)
    (hk : library.hasDirective cv.keepWord = false) :
    (pass cv f).stmts = replaceFirst (isLibraryStmt cv) (foldInto legacy library).toExpr
      (f.stmts.eraseP (isLegacyStmt cv)) := by
  rw [stmts_pass, foldStmts_of_cons h, hl, List.head?_cons]
  simp only [hk, Bool.false_eq_true, if_false]
  rfl

theorem libraryRules_eraseP (h : legacyRules cv stmts = legacy :: rs) :
    libraryRules cv (stmts.eraseP (isLegacyStmt cv)) = libraryRules cv stmts :=
  rulesOf_eraseP_other h (isLibrary_eq_false_of_isLegacy (isLegacy_of_legacyRules h))

theorem isLegacy_foldInto (hl : isLibrary cv library = true) :
    isLegacy cv (foldInto legacy library) = false := by
  refine isLegacy_eq_false_of_isLibrary ?_
  rw [isLibrary_foldInto, hl]

/-- A pass takes the first legacy rule away and makes none. -/
theorem legacyRules_pass (cv : Conventions) (f : File) :
    legacyRules cv (pass cv f).stmts = (legacyRules cv f.stmts).tail := by
  cases h : legacyRules cv f.stmts with
  | nil => rw [stmts_pass_of_nil h, h, List.tail_nil]
  | cons legacy rs =>
      rw [List.tail_cons]
      cases hl : libraryRules cv f.stmts with
      | nil =>
          rw [stmts_pass_fresh h hl]
          exact rulesOf_replaceFirst_of_neg h (isLegacy_foldInto isLibrary_freshLibrary)
      | cons library rules =>
          cases hk : library.hasDirective cv.keepWord with
          | true =>
              rw [stmts_pass_kept h hl hk]
              exact rulesOf_eraseP h
          | false =>
              have hlib := isLibrary_of_libraryRules hl
              have hrest : libraryRules cv (f.stmts.eraseP (isLegacyStmt cv)) =
                  library :: rules := by
                rw [libraryRules_eraseP h, hl]
              rw [stmts_pass_library h hl hk, isLibraryStmt_eq, legacyRules,
                rulesOf_replaceFirst_other hrest (isLegacy_eq_false_of_isLibrary hlib)
                  (isLegacy_foldInto hlib)]
              exact rulesOf_eraseP h

/-! ## Folding several rules at once -/

/-- The library with legacy rules folded into it, from left to right. -/
def foldAll (library : Rule) (rules : List Rule) : Rule :=
  rules.foldl (fun library legacy => foldInto legacy library) library

/-- The statements with the first `k` legacy rules folded at once. -/
def foldedStmts (cv : Conventions) (k : Nat) (stmts : List Expr) : List Expr :=
  match (libraryRules cv stmts).head?, (legacyRules cv stmts).take k with
  | some library, rules =>
      if library.hasDirective cv.keepWord then dropFirst (isLegacyStmt cv) k stmts
      else replaceFirst (isLibraryStmt cv) (foldAll library rules).toExpr
        (dropFirst (isLegacyStmt cv) k stmts)
  | none, [] => stmts
  | none, legacy :: rules =>
      replaceFirst (isLegacyStmt cv)
        (foldAll (foldInto legacy (freshLibrary cv legacy)) rules).toExpr
        (dropLater (isLegacyStmt cv) (k - 1) stmts)

theorem foldedStmts_kept (hl : libraryRules cv stmts = library :: rs)
    (hk : library.hasDirective cv.keepWord = true) :
    foldedStmts cv k stmts = dropFirst (isLegacyStmt cv) k stmts := by
  rw [foldedStmts, hl, List.head?_cons]
  exact if_pos hk

theorem foldedStmts_library (hl : libraryRules cv stmts = library :: rs)
    (hk : library.hasDirective cv.keepWord = false) :
    foldedStmts cv k stmts =
      replaceFirst (isLibraryStmt cv) (foldAll library ((legacyRules cv stmts).take k)).toExpr
        (dropFirst (isLegacyStmt cv) k stmts) := by
  rw [foldedStmts, hl, List.head?_cons]
  exact if_neg (by simp [hk])

theorem foldedStmts_fresh (hl : libraryRules cv stmts = [])
    (h : (legacyRules cv stmts).take k = legacy :: rules) :
    foldedStmts cv k stmts =
      replaceFirst (isLegacyStmt cv)
        (foldAll (foldInto legacy (freshLibrary cv legacy)) rules).toExpr
        (dropLater (isLegacyStmt cv) (k - 1) stmts) := by
  rw [foldedStmts, hl, h]
  rfl

/-- Folding no rule changes nothing. -/
theorem foldedStmts_of_take_eq_nil (h : (legacyRules cv stmts).take k = []) :
    foldedStmts cv k stmts = stmts := by
  have hdrop : dropFirst (isLegacyStmt cv) k stmts = stmts := by
    rcases List.take_eq_nil_iff.1 h with rfl | hnone
    · exact dropFirst_zero stmts
    · exact dropFirst_of_none (rulesOf_eq_nil_iff.1 hnone)
  cases hl : libraryRules cv stmts with
  | nil =>
      rw [foldedStmts, hl, h]
      rfl
  | cons library rs =>
      cases hk : library.hasDirective cv.keepWord with
      | true => rw [foldedStmts_kept hl hk, hdrop]
      | false =>
          rw [foldedStmts_library hl hk, h, hdrop]
          exact replaceFirst_self hl

theorem hasDirective_foldInto_of_isLegacy (h : isLegacy cv legacy = true) :
    (foldInto legacy library).hasDirective cv.keepWord = library.hasDirective cv.keepWord := by
  rw [hasDirective_foldInto, hasDirective_of_isLegacy h, Bool.or_false]

/-- The library that a pass leaves in the slot of a legacy rule is the only
library. -/
theorem libraryRules_pass_fresh (h : legacyRules cv f.stmts = legacy :: rs)
    (hl : libraryRules cv f.stmts = []) :
    libraryRules cv (pass cv f).stmts = [foldInto legacy (freshLibrary cv legacy)] := by
  rw [stmts_pass_fresh h hl]
  refine rulesOf_replaceFirst_new h hl ?_
  rw [isLibrary_foldInto, isLibrary_freshLibrary]

/-- The folded library is the first one for the next pass. -/
theorem libraryRules_pass_library (h : legacyRules cv f.stmts = legacy :: rs)
    (hl : libraryRules cv f.stmts = library :: rules)
    (hk : library.hasDirective cv.keepWord = false) :
    libraryRules cv (pass cv f).stmts = foldInto legacy library :: rules := by
  have hrest : libraryRules cv (f.stmts.eraseP (isLegacyStmt cv)) = library :: rules := by
    rw [libraryRules_eraseP h, hl]
  rw [stmts_pass_library h hl hk]
  refine rulesOf_replaceFirst hrest ?_
  rw [isLibrary_foldInto, isLibrary_of_libraryRules hl]

/-- One pass and then `k` rules at once are `k + 1` rules at once. -/
theorem foldedStmts_pass (cv : Conventions) (k : Nat) (f : File) :
    foldedStmts cv k (pass cv f).stmts = foldedStmts cv (k + 1) f.stmts := by
  have hpass := legacyRules_pass cv f
  cases h : legacyRules cv f.stmts with
  | nil =>
      rw [stmts_pass_of_nil h, foldedStmts_of_take_eq_nil (by rw [h, List.take_nil]),
        foldedStmts_of_take_eq_nil (by rw [h, List.take_nil])]
  | cons legacy rs =>
      rw [h, List.tail_cons] at hpass
      have hlegacy := isLegacy_of_legacyRules h
      have htake : (legacyRules cv f.stmts).take (k + 1) = legacy :: rs.take k := by
        rw [h, List.take_succ_cons]
      cases hl : libraryRules cv f.stmts with
      | nil =>
          have hfresh : (foldInto legacy (freshLibrary cv legacy)).hasDirective cv.keepWord =
              false := by
            rw [hasDirective_foldInto_of_isLegacy hlegacy, hasDirective_freshLibrary]
          have hlib : isLibrary cv (foldInto legacy (freshLibrary cv legacy)) = true := by
            rw [isLibrary_foldInto, isLibrary_freshLibrary]
          rw [foldedStmts_library (libraryRules_pass_fresh h hl) hfresh, hpass,
            foldedStmts_fresh hl htake, stmts_pass_fresh h hl]
          exact replaceFirst_dropFirst_replaceFirst (isLegacy_eq_false_of_isLibrary hlib) hlib
            (rulesOf_eq_nil_iff.1 hl)
      | cons library rules =>
          cases hk : library.hasDirective cv.keepWord with
          | true =>
              have hl' : libraryRules cv (pass cv f).stmts = library :: rules := by
                rw [stmts_pass_kept h hl hk, libraryRules_eraseP h, hl]
              rw [foldedStmts_kept hl' hk, foldedStmts_kept hl hk, stmts_pass_kept h hl hk]
              exact dropFirst_eraseP k f.stmts
          | false =>
              have hlib := isLibrary_of_libraryRules hl
              have hk' : (foldInto legacy library).hasDirective cv.keepWord = false := by
                rw [hasDirective_foldInto_of_isLegacy hlegacy, hk]
              have hlib' : isLibraryStmt cv (foldInto legacy library).toExpr = true := by
                rw [isLibraryStmt_eq, isRuleOf_toExpr, isLibrary_foldInto, hlib]
              have hslot : isLegacyStmt cv (foldInto legacy library).toExpr = false :=
                isLegacyStmt_eq_false_of_isLibraryStmt _ hlib'
              rw [foldedStmts_library (libraryRules_pass_library h hl hk) hk', hpass,
                foldedStmts_library hl hk, htake, stmts_pass_library h hl hk,
                dropFirst_replaceFirst hslot isLegacyStmt_eq_false_of_isLibraryStmt,
                replaceFirst_replaceFirst hlib', dropFirst_eraseP]
              rfl

/-! ## Any number of passes -/

theorem passes_succ (cv : Conventions) (k : Nat) (f : File) :
    passes cv (k + 1) f = passes cv k (pass cv f) :=
  Function.iterate_succ_apply (pass cv) k f

theorem path_passes (cv : Conventions) (k : Nat) (f : File) : (passes cv k f).path = f.path := by
  induction k generalizing f with
  | zero => rfl
  | succ k ih => rw [passes_succ, ih, path_pass]

theorem stmts_passes (cv : Conventions) (k : Nat) (f : File) :
    (passes cv k f).stmts = foldedStmts cv k f.stmts := by
  induction k generalizing f with
  | zero => exact (foldedStmts_of_take_eq_nil (List.take_zero)).symm
  | succ k ih => rw [passes_succ, ih, foldedStmts_pass]

/-- Each pass takes one legacy rule away. -/
theorem legacyRules_passes (cv : Conventions) (k : Nat) (f : File) :
    legacyRules cv (passes cv k f).stmts = (legacyRules cv f.stmts).drop k := by
  induction k generalizing f with
  | zero => rw [List.drop_zero]; rfl
  | succ k ih => rw [passes_succ, ih, legacyRules_pass, List.drop_tail]

/-- `k` passes fold the first `k` legacy rules, from left to right, and a pass
has nothing to do exactly when no legacy rule is left, which is so after as many
passes as there were legacy rules. -/
theorem passes_eq_folded (cv : Conventions) (k : Nat) (f : File) :
    passes cv k f = { f with stmts := foldedStmts cv k f.stmts } ∧
      (fold cv (passes cv k f) = none ↔
        ∀ e ∈ (passes cv k f).stmts, isLegacyStmt cv e = false) ∧
      (fold cv (passes cv k f) = none ↔ (legacyRules cv f.stmts).length ≤ k) := by
  refine ⟨?_, ?_, ?_⟩
  · rw [← stmts_passes, ← path_passes cv k f]
  · rw [fold_eq_none_iff, legacyRules, rulesOf_eq_nil_iff, isLegacyStmt_eq]
  · rw [fold_eq_none_iff, legacyRules_passes, List.drop_eq_nil_iff]

end Legacy

end BuildFix
