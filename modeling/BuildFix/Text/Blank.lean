import BuildFix.Text.Ranges

/-!
# Blank characters

A character is *blank* when Unicode gives it the property `White_Space`.
Trimming drops the blank characters at both ends of a text and keeps those
inside.  `trim_eq_nil_iff` says what trims to nothing.
-/

namespace BuildFix.Text

/-- The code points with the property `White_Space`. -/
def blankRanges : Ranges :=
  [(0x09, 0x0d), (0x20, 0x20), (0x85, 0x85), (0xa0, 0xa0), (0x1680, 0x1680), (0x2000, 0x200a),
    (0x2028, 0x2029), (0x202f, 0x202f), (0x205f, 0x205f), (0x3000, 0x3000)]

/-- Decide whether a character is blank. -/
def isBlank (c : Char) : Bool := blankRanges.has c

/-- A text without the blank characters at its end. -/
def trimEnd (cs : List Char) : List Char := (cs.reverse.dropWhile isBlank).reverse

/-- A text without the blank characters at its two ends. -/
def trim (cs : List Char) : List Char := trimEnd (cs.dropWhile isBlank)

/-- Decide whether a text has no character but blank ones. -/
def isBlankText (s : String) : Bool := s.toList.all isBlank

theorem isBlank_of_isWhitespace {c : Char} (h : c.isWhitespace = true) : isBlank c = true := by
  simp only [Char.isWhitespace, Bool.or_eq_true, decide_eq_true_eq] at h
  rcases h with ((rfl | rfl) | rfl) | rfl <;> decide

theorem dropWhile_eq_nil_iff {α : Type} (p : α → Bool) (xs : List α) :
    xs.dropWhile p = [] ↔ xs.all p = true := by
  induction xs with
  | nil => simp
  | cons x xs ih => cases h : p x <;> simp_all [List.dropWhile]

/-- The blank texts are those that trim to nothing. -/
theorem trim_eq_nil_iff (cs : List Char) : trim cs = [] ↔ cs.all isBlank = true := by
  constructor
  · intro h
    rw [trim, trimEnd, List.reverse_eq_nil_iff, dropWhile_eq_nil_iff, List.all_reverse] at h
    cases hd : cs.dropWhile isBlank with
    | nil => exact (dropWhile_eq_nil_iff isBlank cs).1 hd
    | cons d ds =>
        have hn : isBlank d = false := by
          have := List.head?_dropWhile_not isBlank cs
          rw [hd] at this
          simpa using this
        rw [hd] at h
        simp [hn] at h
  · intro h
    rw [trim, (dropWhile_eq_nil_iff isBlank cs).2 h]
    rfl

end BuildFix.Text
