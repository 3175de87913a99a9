import BuildFix.Text.Blank

/-!
# Comments

Every node of a build file owns three groups of comments: the lines above it,
the comment at the end of its last line, and the lines below it.  Comments are
only ever joined, group by group, so joining is associative and has the empty
comments as its unit.

A comment may be a *directive*.  The line `# keep` is the directive `keep`, and
so is `# keep: reason`.  A sentence that only starts with the word is none.
`hasDirective_append` says that joining comments neither makes nor loses a
directive.
-/

namespace BuildFix

open Text (trim)

/-- A comment line, with its leading `#`. -/
structure Comment where
  /-- The text of the line. -/
  token : String
deriving DecidableEq, Repr, Inhabited

/-- The text of a comment without the leading `#` characters and without the
blanks around the rest. -/
def Comment.body (c : Comment) : List Char := trim (c.token.toList.dropWhile (· == '#'))

/-- Decide whether a comment is the directive `word`, alone or followed by a
colon and a reason. -/
def Comment.isDirective (word : String) (c : Comment) : Bool :=
  match word.toList.isPrefixOf? c.body with
  | some [] => true
  | some (d :: _) => d == ':'
  | none => false

/-- The comments of a node, in three groups. -/
structure Comments where
  /-- The lines above the node. -/
  before : List Comment := []
  /-- The comment at the end of the last line of the node. -/
  suffix : List Comment := []
  /-- The lines below the node. -/
  after : List Comment := []
deriving DecidableEq, Repr, Inhabited

namespace Comments

/-- Decide whether all three groups are empty. -/
def isEmpty (x : Comments) : Bool := x.before.isEmpty && x.suffix.isEmpty && x.after.isEmpty

/-- The comments of all groups, from above the node to below it. -/
def toList (x : Comments) : List Comment := x.before ++ x.suffix ++ x.after

/-- The groups of `x`, each followed by that of `y`. -/
protected def append (x y : Comments) : Comments :=
  ⟨x.before ++ y.before, x.suffix ++ y.suffix, x.after ++ y.after⟩

instance : Append Comments := ⟨Comments.append⟩

/-- Decide whether a comment of any group is the directive `word`. -/
def hasDirective (word : String) (x : Comments) : Bool := x.toList.any (·.isDirective word)

/-! ## Joining -/

@[simp] theorem before_append (x y : Comments) : (x ++ y).before = x.before ++ y.before := rfl

@[simp] theorem suffix_append (x y : Comments) : (x ++ y).suffix = x.suffix ++ y.suffix := rfl

@[simp] theorem after_append (x y : Comments) : (x ++ y).after = x.after ++ y.after := rfl

@[ext] theorem ext {x y : Comments} (hb : x.before = y.before) (hs : x.suffix = y.suffix)
    (ha : x.after = y.after) : x = y := by
  cases x
  cases y
  simp_all

@[simp] theorem empty_append (x : Comments) : ({} : Comments) ++ x = x := rfl

@[simp] theorem append_empty (x : Comments) : x ++ ({} : Comments) = x := by
  ext1 <;> simp

theorem append_assoc (x y z : Comments) : x ++ y ++ z = x ++ (y ++ z) := by
  ext1 <;> simp

theorem isEmpty_iff (x : Comments) : x.isEmpty = true ↔ x = {} := by
  constructor
  · intro h
    simp only [isEmpty, Bool.and_eq_true, List.isEmpty_iff] at h
    exact ext h.1.1 h.1.2 h.2
  · rintro rfl
    rfl

/-! ## Directives -/

theorem hasDirective_iff (word : String) (x : Comments) :
    x.hasDirective word = true ↔ ∃ c ∈ x.toList, c.isDirective word = true := by
  simp [hasDirective]

theorem hasDirective_append (word : String) (x y : Comments) :
    (x ++ y).hasDirective word = (x.hasDirective word || y.hasDirective word) := by
  simp only [hasDirective, toList, before_append, suffix_append, after_append, List.any_append]
  ac_rfl

end Comments

example : (Comment.mk "# keep: by hand").isDirective "keep" = true := by decide +kernel
example : (Comment.mk "# keep in sync").isDirective "keep" = false := by decide +kernel

end BuildFix
