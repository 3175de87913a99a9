import BuildFix.Tree.Expr

/-!
# Build files

A build file is a list of statements in order.  The path says where it came
from and has no part in what the statements mean.
-/

namespace BuildFix

/-- A build file. -/
structure File where
  /-- Where the file came from. -/
  path : String := ""
  /-- The statements, in order. -/
  stmts : List Expr
deriving DecidableEq, Repr, Inhabited

/-- The calls among the statements, each with its position. -/
def File.calls (f : File) : List (Nat × Expr) :=
  (f.stmts.zipIdx.filter fun s => s.1.callArgs?.isSome).map fun s => (s.2, s.1)

theorem File.mem_calls {f : File} {i : Nat} {e : Expr} :
    (i, e) ∈ f.calls ↔ f.stmts[i]? = some e ∧ e.callArgs?.isSome = true := by
  simp only [calls, List.mem_map, List.mem_filter, Prod.mk.injEq, Prod.exists]
  constructor
  · rintro ⟨e', i', ⟨hm, hc⟩, rfl, rfl⟩
    exact ⟨List.mem_zipIdx_iff_getElem?.1 hm, hc⟩
  · rintro ⟨hi, hc⟩
    exact ⟨e, i, ⟨List.mem_zipIdx_iff_getElem?.2 hi, hc⟩, rfl, rfl⟩

end BuildFix
