import BuildFix.Legacy
import BuildFix.Proofs.Attributes

/-!
# The library after a fold

Folding a legacy rule into a library keeps the kind and the name of the library,
since no squashed attribute is `name`, and joins the comments.  So the folded
library is a library of the conventional name again, and it carries a keep
directive only if one of the two rules did.  A legacy rule carries none.
-/

namespace BuildFix

namespace Legacy

variable {cv : Conventions} {r legacy library : Rule} {key other : String}

/-! ## Squashed attributes -/

/-- A squashed attribute is set, unless there is nothing to set. -/
theorem squashAttr_cases (legacy r : Rule) (key : String) :
    squashAttr legacy r key = r ∨ ∃ value, squashAttr legacy r key = r.setAttr key value := by
  unfold squashAttr
  split
  · exact .inl rfl
  · split
    · exact .inr ⟨_, rfl⟩
    · exact .inl rfl
    · exact .inl rfl

theorem kind_squashAttr : (squashAttr legacy r key).kind = r.kind := by
  rcases squashAttr_cases legacy r key with h | ⟨value, h⟩
  · rw [h]
  · rw [h]
    rfl

theorem comments_squashAttr : (squashAttr legacy r key).comments = r.comments := by
  rcases squashAttr_cases legacy r key with h | ⟨value, h⟩
  · rw [h]
  · rw [h]
    rfl

theorem attr?_squashAttr_of_ne (hne : other ≠ key) :
    (squashAttr legacy r key).attr? other = r.attr? other := by
  rcases squashAttr_cases legacy r key with h | ⟨value, h⟩
  · rw [h]
  · rw [h, r.attr?_setAttr_of_ne value hne]

section

variable (keys : List String)

theorem kind_foldl_squashAttr : (keys.foldl (squashAttr legacy) r).kind = r.kind := by
  induction keys generalizing r with
  | nil => rfl
  | cons key keys ih => rw [List.foldl_cons, ih, kind_squashAttr]

theorem comments_foldl_squashAttr :
    (keys.foldl (squashAttr legacy) r).comments = r.comments := by
  induction keys generalizing r with
  | nil => rfl
  | cons key keys ih => rw [List.foldl_cons, ih, comments_squashAttr]

theorem attr?_foldl_squashAttr {keys : List String} (h : other ∉ keys) :
    (keys.foldl (squashAttr legacy) r).attr? other = r.attr? other := by
  induction keys generalizing r with
  | nil => rfl
  | cons key keys ih =>
      rw [List.mem_cons, not_or] at h
      rw [List.foldl_cons, ih h.2, attr?_squashAttr_of_ne h.1]

end

/-! ## The folded library -/

theorem kind_foldInto : (foldInto legacy library).kind = library.kind := by
  rw [foldInto, kind_foldl_squashAttr]
  rfl

/-- The comments of the legacy rule stand behind those of the library. -/
theorem comments_foldInto :
    (foldInto legacy library).comments = library.comments ++ legacy.comments := by
  rw [foldInto, comments_foldl_squashAttr]
  rfl

theorem name?_foldInto : (foldInto legacy library).name? = library.name? := by
  have hname : (foldInto legacy library).attr? "name" = library.attr? "name" := by
    rw [foldInto, attr?_foldl_squashAttr (by decide), Rule.attr?_setAttr_of_ne _ _ (by decide),
      Rule.attr?_eraseAttr_of_ne _ (by decide)]
    rfl
  rw [Rule.name?, hname, Rule.name?]

/-- A fold keeps a library of the conventional name one. -/
theorem isLibrary_foldInto : isLibrary cv (foldInto legacy library) = isLibrary cv library := by
  simp only [isLibrary, kind_foldInto, name?_foldInto]

theorem hasDirective_foldInto (word : String) :
    (foldInto legacy library).hasDirective word =
      (library.hasDirective word || legacy.hasDirective word) := by
  rw [Rule.hasDirective, comments_foldInto, Comments.hasDirective_append]
  rfl

/-! ## The fresh library -/

theorem kind_freshLibrary : (freshLibrary cv legacy).kind = libraryKind := by
  unfold freshLibrary
  split <;> rfl

theorem comments_freshLibrary : (freshLibrary cv legacy).comments = {} := by
  unfold freshLibrary
  split <;> rfl

theorem name?_freshLibrary : (freshLibrary cv legacy).name? = some cv.libraryName := by
  unfold freshLibrary
  split
  · rw [Rule.name?, Rule.attr?_setAttr_of_ne _ _ (by decide), Rule.attr?_setAttr_self]
    rfl
  · rw [Rule.name?, Rule.attr?_setAttr_self]
    rfl

theorem isLibrary_freshLibrary : isLibrary cv (freshLibrary cv legacy) = true := by
  simp [isLibrary, kind_freshLibrary, name?_freshLibrary]

theorem hasDirective_freshLibrary (word : String) :
    (freshLibrary cv legacy).hasDirective word = false := by
  rw [Rule.hasDirective, comments_freshLibrary]
  rfl

/-! ## Legacy rules and libraries -/

theorem isLegacy_eq_false_of_isLibrary (h : isLibrary cv r = true) : isLegacy cv r = false := by
  simp only [isLibrary, Bool.and_eq_true, beq_iff_eq] at h
  simp [isLegacy, h.1, libraryKind, legacyKind]

theorem hasDirective_of_isLegacy (h : isLegacy cv r = true) :
    r.hasDirective cv.keepWord = false := by
  simp only [isLegacy, Bool.and_eq_true, Bool.not_eq_true'] at h
  exact h.2

end Legacy

end BuildFix
