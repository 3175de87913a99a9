/-!
# Character ranges

A property of characters is given as a list of code point ranges.  Both ends
of a range belong to it.
-/

namespace BuildFix.Text

/-- A property of characters, as a list of inclusive code point ranges. -/
abbrev Ranges := List (Nat × Nat)

/-- Decide whether a character lies in one of the ranges. -/
def Ranges.has (rs : Ranges) (c : Char) : Bool :=
  rs.any fun r => r.1 ≤ c.toNat && c.toNat ≤ r.2

theorem Ranges.has_iff (rs : Ranges) (c : Char) :
    rs.has c = true ↔ ∃ r ∈ rs, r.1 ≤ c.toNat ∧ c.toNat ≤ r.2 := by
  simp [Ranges.has]

end BuildFix.Text
