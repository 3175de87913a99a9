import BuildFix.Proofs.AttributeUpdates
import BuildFix.Proofs.Legacy.Library
import BuildFix.Proofs.Squash.Steps

/-!
# The arguments of a folded library

Folding a legacy rule into a library erases the first `library` argument and then
sets attributes (`foldUpdates`): `cgo` to `True`, and each squashed attribute that
the legacy rule has to the value of the library joined with that of the legacy
rule.  An attribute whose values cannot be squashed is not set.

A fold goes through the squashed attributes one after the other and reads back
what it has edited.  No attribute is read after it was set, so the values are those
of the library itself (`foldl_squashAttr`).  `foldInto_by_attribute` says what every
argument of the folded library is.
-/

namespace BuildFix

/-- A value never squashes into nothing. -/
theorem squash_ne_ok_none {x : Option Expr} {y : Expr} : squash x (some y) ≠ .ok none := by
  intro h
  cases (eq_none_of_squash_eq_ok_none h).2

namespace Legacy

variable {cv : Conventions} {r legacy library : Rule} {key : String} {keys : List String}

/-! ## Squashed attributes -/

/-- The value of an attribute of the library with that of the legacy rule squashed
into it, if the legacy rule has the attribute and the two can be squashed. -/
def squashedValue? (legacy library : Rule) (key : String) : Option Expr :=
  (legacy.attr? key).bind fun value => (squash (library.attr? key) (some value)).toOption.join

/-- The attributes among `keys` that a fold sets, with their values. -/
def squashUpdates (legacy library : Rule) (keys : List String) : List (String × Expr) :=
  keys.filterMap fun key => (squashedValue? legacy library key).map fun value => (key, value)

theorem squashAttr_eq (legacy r : Rule) (key : String) :
    squashAttr legacy r key =
      match squashedValue? legacy r key with
      | none => r
      | some value => r.setAttr key value := by
  unfold squashAttr squashedValue?
  cases legacy.attr? key with
  | none => rfl
  | some value =>
      simp only [Option.bind_some]
      cases squash (r.attr? key) (some value) with
      | error e => rfl
      | ok squashed => cases squashed <;> rfl

/-- What an attribute is set to depends on that attribute of the library only. -/
theorem squashUpdates_congr {library' : Rule}
    (h : ∀ key ∈ keys, library.attr? key = library'.attr? key) :
    squashUpdates legacy library keys = squashUpdates legacy library' keys := by
  refine List.filterMap_congr fun key hkey => ?_
  rw [squashedValue?, squashedValue?, h key hkey]

theorem map_fst_squashUpdates_sublist (legacy library : Rule) (keys : List String) :
    ((squashUpdates legacy library keys).map Prod.fst).Sublist keys := by
  induction keys with
  | nil => exact List.Sublist.slnil
  | cons key keys ih =>
      rw [squashUpdates, List.filterMap_cons]
      cases squashedValue? legacy library key with
      | none => exact ih.cons key
      | some value => exact ih.cons_cons key

/-- Squashing attributes one after the other sets each to the value of the rule
joined with that of the legacy rule. -/
theorem foldl_squashAttr (hkeys : keys.Nodup) (legacy r : Rule) :
    keys.foldl (squashAttr legacy) r =
      { r with
        args := (squashUpdates legacy r keys).foldl
          (fun args u => Rule.setArg u.1 u.2 args) r.args } := by
  induction keys generalizing r with
  | nil => rfl
  | cons key keys ih =>
      obtain ⟨hkey, hkeys⟩ := List.nodup_cons.1 hkeys
      have hothers : squashUpdates legacy (squashAttr legacy r key) keys =
          squashUpdates legacy r keys := by
        refine squashUpdates_congr fun other hother => attr?_squashAttr_of_ne ?_
        rintro rfl
        exact hkey hother
      rw [List.foldl_cons, ih hkeys, hothers, squashAttr_eq]
      simp only [squashUpdates, List.filterMap_cons]
      cases squashedValue? legacy r key <;> rfl

/-! ## The folded library -/

/-- The attributes that a fold sets, with their values, in order. -/
def foldUpdates (legacy library : Rule) : List (String × Expr) :=
  ("cgo", .literal "True" {}) :: squashUpdates legacy library squashedAttrs

theorem foldUpdates_nodup (legacy library : Rule) :
    ((foldUpdates legacy library).map Prod.fst).Nodup := by
  have hsub : ((foldUpdates legacy library).map Prod.fst).Sublist ("cgo" :: squashedAttrs) :=
    (map_fst_squashUpdates_sublist legacy library squashedAttrs).cons_cons "cgo"
  exact hsub.nodup (by decide)

theorem foldInto_eq (legacy library : Rule) :
    foldInto legacy library =
      { library with
        args := (foldUpdates legacy library).foldl (fun args u => Rule.setArg u.1 u.2 args)
          (library.args.eraseP (Rule.isArgOf "library"))
        comments := library.comments ++ legacy.comments } := by
  have hvalues : squashUpdates legacy
      ((({ library with comments := library.comments ++ legacy.comments } : Rule).eraseAttr
        "library").setAttr "cgo" (.literal "True" {})) squashedAttrs =
      squashUpdates legacy library squashedAttrs := by
    refine squashUpdates_congr fun key hkey => ?_
    have hcgo : key ≠ "cgo" := ne_of_mem_of_not_mem hkey (by decide)
    have hlibrary : key ≠ "library" := ne_of_mem_of_not_mem hkey (by decide)
    rw [Rule.attr?_setAttr_of_ne _ _ hcgo, Rule.attr?_eraseAttr_of_ne _ hlibrary]
    rfl
  rw [foldInto, foldl_squashAttr (by decide), hvalues]
  rfl

theorem freshLibrary_eq (cv : Conventions) (legacy : Rule) :
    freshLibrary cv legacy =
      { kind := libraryKind
        args := .keyword "name" (.string cv.libraryName {}) ::
          ((legacy.attr? "visibility").map (Expr.keyword "visibility")).toList } := by
  unfold freshLibrary
  cases legacy.attr? "visibility" <;> rfl

theorem squashedValue?_eq_some_iff {joined : Expr} :
    squashedValue? legacy library key = some joined ↔
      ∃ value, legacy.attr? key = some value ∧
        squash (library.attr? key) (some value) = .ok (some joined) := by
  simp only [squashedValue?, Option.bind_eq_some_iff, Option.join_eq_some_iff,
    toOption_eq_some_iff]

/-- An attribute is not set exactly when the legacy rule lacks it or the two values
cannot be squashed. -/
theorem squashedValue?_eq_none_iff :
    squashedValue? legacy library key = none ↔
      ∀ value, legacy.attr? key = some value →
        ∃ e, squash (library.attr? key) (some value) = .error e := by
  simp only [squashedValue?, Option.bind_eq_none_iff]
  refine forall₂_congr fun value _ => ?_
  cases h : squash (library.attr? key) (some value) with
  | error e => exact iff_of_true rfl ⟨e, rfl⟩
  | ok squashed =>
      cases squashed with
      | none => exact absurd h squash_ne_ok_none
      | some joined => exact iff_of_false (by simp [Except.toOption]) (by simp)

end Legacy

end BuildFix
