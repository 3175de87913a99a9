import BuildFix.Path
import Mathlib.Data.List.Lex
import Mathlib.Data.Prod.Lex
import Mathlib.Data.String.Basic

/-!
# The order of paths

A component is ordered by its rank and, among names, by the name.  Paths are ordered by
their first components that differ.  So the order of paths is that of words over pairs
of a rank and a name (`Path.le_iff`).  It is linear, and two paths are at the same place
in it exactly when they have the same components (`Path.sortKey_eq_iff`).
-/

namespace BuildFix

namespace Component

variable {a b : Component}

/-- What a component is ordered by. -/
def sortKey : Component → ℕ ×ₗ String
  | name s => toLex (3, s)
  | c => toLex (c.rank, "")

theorem sortKey_injective : Function.Injective sortKey := by
  intro a b h
  have hpair : ofLex a.sortKey = ofLex b.sortKey := congrArg ofLex h
  cases a <;> cases b <;> simp_all [sortKey, rank]

theorem before_iff : a.before b = true ↔ a.sortKey < b.sortKey := by
  cases a <;> cases b <;> simp [before, rank, sortKey, Prod.Lex.toLex_lt_toLex]

end Component

theorem componentsLE_iff {as bs : List Component} :
    componentsLE as bs = true ↔ as.map Component.sortKey ≤ bs.map Component.sortKey := by
  rw [← not_lt]
  induction as generalizing bs with
  | nil => exact iff_of_true (by simp [componentsLE]) (List.not_lt_nil _)
  | cons a as ih =>
      cases bs with
      | nil => simp [componentsLE]
      | cons b bs =>
          rw [componentsLE, List.map_cons, List.map_cons, List.cons_lt_cons_iff,
            Component.sortKey_injective.eq_iff]
          split
          next h => simp [h, ih]
          next h =>
            have hne : a.sortKey ≠ b.sortKey := Component.sortKey_injective.ne h
            simp [Ne.symm h, Component.before_iff, hne.le_iff_lt]

namespace Path

variable {p q : Path}

/-- What a path is ordered by. -/
def sortKey (p : Path) : List (ℕ ×ₗ String) := p.components.map Component.sortKey

theorem sortKey_eq_iff : p.sortKey = q.sortKey ↔ p.components = q.components :=
  (List.map_injective_iff.2 Component.sortKey_injective).eq_iff

theorem le_iff : p.le q = true ↔ p.sortKey ≤ q.sortKey := componentsLE_iff

end Path

end BuildFix
