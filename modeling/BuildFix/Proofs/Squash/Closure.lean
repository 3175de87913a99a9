import BuildFix.Proofs.Squash.ByKey
import BuildFix.Proofs.Squash.Conservation
import BuildFix.Proofs.Squash.Outcomes

/-!
# Squashing is closed

Squashing takes two values apart, joins their parts and builds the result from
fresh nodes.  Taking the result apart gives the joined parts back
(`shape_of_squash`), so a squashed value can be squashed again, in any grouping
(`SquashTree.run_cases`).  Between squashable values only cases of one key can
fail (`squash_eq_error_iff`).

Squashing with nothing builds the value of a shape (`squash_none_right`,
`squash_none_left`).  The shape does not say whether its `select` is compact, and
a fresh call is not.  So a value comes back as it was, up to this flag
(`squash_none_iff`).  A squashed value has no compact `select`, so it always comes
back.
-/

namespace BuildFix

/-! ## Squashing with nothing -/

section

variable {x : Option Expr} {e : Expr} {s : Shape}

theorem joinLists_none_right (x : Option ListValue) : joinLists x none = x := by
  cases x <;> rfl

theorem joinSelects_none_right (x : Option SelectValue) : joinSelects x none = .ok x := by
  cases x <;> rw [joinSelects]

/-- A value with nothing squashed into it is built anew from its shape. -/
theorem squash_none_right (h : Shape.ofValue x = .ok s) : squash x none = .ok s.toExpr? := by
  have habsent : Shape.ofValue none = .ok .absent := rfl
  have hselect : joinSelects s.select? Shape.absent.select? = .ok s.select? :=
    joinSelects_none_right s.select?
  rw [squash_of_joinSelects h habsent hselect, Shape.list?, joinLists_none_right,
    Shape.opComments, Comments.append_empty, Shape.ofParts_parts]

/-- A value squashed into nothing is built anew from its shape. -/
theorem squash_none_left (h : Shape.ofValue x = .ok s) : squash none x = .ok s.toExpr? := by
  have habsent : Shape.ofValue none = .ok .absent := rfl
  have hselect : joinSelects Shape.absent.select? s.select? = .ok s.select? := by
    rw [Shape.select?, joinSelects]
  rw [squash_of_joinSelects habsent h hselect]
  show Except.ok (Shape.ofParts s.list? s.select? s.opComments).toExpr? = _
  rw [Shape.ofParts_parts]

/-- The expression with its call, or that on the right of its operator, no longer
compact. -/
def Expr.loosened : Expr → Expr
  | .call f args _ c => .call f args false c
  | .binary l op (.call f args _ rc) c => .binary l op (.call f args false rc) c
  | e => e

/-- Decide whether the expression is a compact call, or has one on the right of its
operator. -/
def Expr.isCompact : Expr → Bool
  | .call _ _ compact _ => compact
  | .binary _ _ (.call _ _ compact _) _ => compact
  | _ => false

theorem Expr.loosened_eq_self_iff (e : Expr) : e.loosened = e ↔ e.isCompact = false := by
  cases e with
  | call f args b c => simp [loosened, isCompact, eq_comm]
  | binary l op r c => cases r <;> simp [loosened, isCompact, eq_comm]
  | _ => exact iff_of_true rfl rfl

/-- A value built anew from its shape is the value, with its `select` not compact. -/
theorem Shape.toExpr?_of_ofExpr (h : ofExpr e = .ok s) : s.toExpr? = some e.loosened := by
  rcases ofExpr_cases h with
    ⟨l, rfl, rfl⟩ | ⟨sel, b, rfl, -, rfl⟩ | ⟨l, sel, b, op, rfl, -, rfl⟩ <;> rfl

/-- A squashable value comes back from squashing with nothing, on either side, with its
`select` not compact and all else as it was.  So it comes back as it was exactly when
its `select` was not compact. -/
theorem squash_none_iff (h : Shape.ofValue (some e) = .ok s) :
    squash (some e) none = .ok (some e.loosened) ∧
      squash none (some e) = .ok (some e.loosened) ∧
      (squash (some e) none = .ok (some e) ↔ e.isCompact = false) ∧
      (squash none (some e) = .ok (some e) ↔ e.isCompact = false) := by
  have hvalue : s.toExpr? = some e.loosened := Shape.toExpr?_of_ofExpr h
  have hright : squash (some e) none = .ok (some e.loosened) := by
    rw [squash_none_right h, hvalue]
  have hleft : squash none (some e) = .ok (some e.loosened) := by
    rw [squash_none_left h, hvalue]
  refine ⟨hright, hleft, ?_, ?_⟩
  · rw [hright, Except.ok.injEq, Option.some.injEq, Expr.loosened_eq_self_iff]
  · rw [hleft, Except.ok.injEq, Option.some.injEq, Expr.loosened_eq_self_iff]

end

/-- A `select` with a comment behind it. -/
def systemCases : SelectValue where
  entries := [.keyValue (.string "//:linux" {}) (.list [.string "a.go" {}] {}) {}]
  callComments := { suffix := [⟨"# by system"⟩] }

theorem systemCases_loosened :
    Shape.ofValue (some (systemCases.toCall true)) = .ok (.select systemCases) ∧
      squash none (some (systemCases.toCall true)) = .ok (some (systemCases.toCall false)) := by
  have h : Shape.ofValue (some (systemCases.toCall true)) = .ok (.select systemCases) := rfl
  exact ⟨h, (squash_none_iff h).2.1⟩

/-- A compact `select` does not come back as it was. -/
theorem systemCases_changed :
    Shape.ofValue (some (systemCases.toCall true)) = .ok (.select systemCases) ∧
      squash (some (systemCases.toCall true)) none ≠ .ok (some (systemCases.toCall true)) ∧
      squash none (some (systemCases.toCall true)) ≠ .ok (some (systemCases.toCall true)) := by
  have h : Shape.ofValue (some (systemCases.toCall true)) = .ok (.select systemCases) := rfl
  have hne : (Shape.select systemCases).toExpr? ≠ some (systemCases.toCall true) := by decide
  refine ⟨h, ?_, ?_⟩
  · rw [squash_none_right h, ne_eq, Except.ok.injEq]
    exact hne
  · rw [squash_none_left h, ne_eq, Except.ok.injEq]
    exact hne

/-! ## The shape of a squashed value -/

section

variable {x y r : Option Expr} {sx sy s : Shape} {e : ShapeError}

/-- What is squashed is absent when both values are. -/
theorem squash_eq_ok_none_iff : squash x y = .ok none ↔ x = none ∧ y = none := by
  refine ⟨eq_none_of_squash_eq_ok_none, ?_⟩
  rintro ⟨rfl, rfl⟩
  have habsent : Shape.ofValue none = .ok .absent := rfl
  exact squash_none_right habsent

/-- The parts of a squashed value are the joined parts of the two values. -/
theorem shape_of_squash (h : squash x y = .ok r) :
    ∃ sx sy sr, Shape.ofValue x = .ok sx ∧ Shape.ofValue y = .ok sy ∧
      Shape.ofValue r = .ok sr ∧ r = sr.toExpr? ∧ sr.list? = joinLists sx.list? sy.list? ∧
      joinSelects sx.select? sy.select? = .ok sr.select? ∧
      sr.opComments = sx.opComments ++ sy.opComments := by
  obtain ⟨sx, sy, s, hx, hy, hs, rfl⟩ := squash_eq_ok h
  have hjoined : joinShapes? sx sy =
      some (Shape.ofParts (joinLists sx.list? sy.list?) s (sx.opComments ++ sy.opComments)) := by
    rw [joinShapes?, hs]
    rfl
  refine ⟨sx, sy, _, hx, hy, ofValue_joinShapes? hx hy hjoined, rfl, Shape.list?_ofParts .., ?_,
    (shapesJoined_of_joinShapes? hjoined).op⟩
  rw [Shape.select?_ofParts]
  exact hs

/-! ## Collisions -/

/-- A case of the second `select` cannot be squashed into the cases of its key before
it, and the first such case fails with the error. -/
def CasesCollide (x y : Shape) (e : ShapeError) : Prop :=
  ∃ a b i, x.select? = some a ∧ y.select? = some b ∧ FirstFailsAt a.entries b.entries i e

theorem joinSelects_eq_error_iff {a b : Option SelectValue} :
    joinSelects a b = .error e ↔
      ∃ a' b' i, a = some a' ∧ b = some b' ∧ FirstFailsAt a'.entries b'.entries i e := by
  cases a with
  | none =>
      rw [joinSelects]
      exact iff_of_false (by rintro ⟨⟩) (by rintro ⟨_, _, _, ⟨⟩, _⟩)
  | some a =>
      cases b with
      | none =>
          rw [joinSelects]
          exact iff_of_false (by rintro ⟨⟩) (by rintro ⟨_, _, _, _, ⟨⟩, _⟩)
      | some b =>
          rw [joinSelects_eq_map, map_eq_error_iff, joinEntries_eq_error_iff]
          simp

/-- Squashable values fail to squash exactly when cases of one key collide. -/
theorem squash_eq_error_iff (hx : Shape.ofValue x = .ok sx) (hy : Shape.ofValue y = .ok sy) :
    squash x y = .error e ↔ CasesCollide sx sy e := by
  rw [CasesCollide, ← joinSelects_eq_error_iff]
  cases hs : joinSelects sx.select? sy.select? with
  | ok s =>
      rw [squash_of_joinSelects hx hy hs]
      exact iff_of_false (by rintro ⟨⟩) (by rintro ⟨⟩)
  | error e' =>
      have hsquash : squash x y = .error e' := by
        rw [squash, hx]
        simp only [bind, Except.bind]
        split
        next hy' =>
          rw [hy] at hy'
          cases hy'
        next sy' hy' =>
          rw [hy] at hy'
          cases hy'
          rw [hs]
      rw [hsquash, Except.error.injEq, Except.error.injEq]

end

/-! ## Many values -/

/-- Values that are squashed one with another. -/
inductive SquashTree where
  /-- A value as it is. -/
  | leaf (x : Option Expr)
  /-- What comes of the second tree squashed into what comes of the first. -/
  | node (first second : SquashTree)

namespace SquashTree

/-- What comes of a tree. -/
def run : SquashTree → Except ShapeError (Option Expr)
  | leaf x => .ok x
  | node first second => do squash (← first.run) (← second.run)

/-- The values of a tree, in order. -/
def leaves : SquashTree → List (Option Expr)
  | leaf x => [x]
  | node first second => first.leaves ++ second.leaves

/-- The tree has a node of these two trees. -/
inductive HasNode (first second : SquashTree) : SquashTree → Prop where
  | here : HasNode first second (node first second)
  | inFirst {s t : SquashTree} (h : HasNode first second s) : HasNode first second (node s t)
  | inSecond {s t : SquashTree} (h : HasNode first second t) : HasNode first second (node s t)

/-- A node of the tree joins two squashable values, and cases of them collide. -/
def CollidesIn (t : SquashTree) (e : ShapeError) : Prop :=
  ∃ first second x y sx sy, HasNode first second t ∧ first.run = .ok x ∧ second.run = .ok y ∧
    Shape.ofValue x = .ok sx ∧ Shape.ofValue y = .ok sy ∧ CasesCollide sx sy e

variable {s t : SquashTree} {e : ShapeError}

theorem CollidesIn.inFirst (h : s.CollidesIn e) : (node s t).CollidesIn e := by
  obtain ⟨first, second, x, y, sx, sy, hnode, h⟩ := h
  exact ⟨first, second, x, y, sx, sy, .inFirst hnode, h⟩

theorem CollidesIn.inSecond (h : t.CollidesIn e) : (node s t).CollidesIn e := by
  obtain ⟨first, second, x, y, sx, sy, hnode, h⟩ := h
  exact ⟨first, second, x, y, sx, sy, .inSecond hnode, h⟩

/-- A tree of squashable values comes to a squashable value, or cases collide in it. -/
theorem run_cases (t : SquashTree) (h : ∀ x ∈ t.leaves, ∃ s, Shape.ofValue x = .ok s) :
    (∃ r s, t.run = .ok r ∧ Shape.ofValue r = .ok s) ∨
      ∃ e, t.run = .error e ∧ t.CollidesIn e := by
  induction t with
  | leaf x =>
      obtain ⟨s, hs⟩ := h x (List.mem_singleton.2 rfl)
      exact .inl ⟨x, s, rfl, hs⟩
  | node first second ihFirst ihSecond =>
      obtain ⟨hfirst, hsecond⟩ := List.forall_mem_append.1 h
      rcases ihFirst hfirst with ⟨x, sx, hx, hsx⟩ | ⟨e, he, hcollide⟩
      · rcases ihSecond hsecond with ⟨y, sy, hy, hsy⟩ | ⟨e, he, hcollide⟩
        · have hrun : (node first second).run = squash x y := by
            rw [run, hx, hy]
            rfl
          cases hr : squash x y with
          | ok r =>
              obtain ⟨-, -, sr, -, -, hsr, -⟩ := shape_of_squash hr
              exact .inl ⟨r, sr, hrun.trans hr, hsr⟩
          | error e =>
              refine .inr ⟨e, hrun.trans hr, first, second, x, y, sx, sy, .here, hx, hy, hsx, hsy,
                (squash_eq_error_iff hsx hsy).1 hr⟩
        · refine .inr ⟨e, ?_, hcollide.inSecond⟩
          rw [run, hx, he]
          rfl
      · refine .inr ⟨e, ?_, hcollide.inFirst⟩
        rw [run, he]
        rfl

end SquashTree

/-- Taking apart what was squashed gives the lists, the calls of `select` and the
operator comments of the two values, each joined.  It is absent when both values are,
and squashing it with nothing gives it back.  So values that are squashed one with
another fail where cases collide, and nowhere else. -/
theorem squash_homomorphic :
    (∀ x y r, squash x y = .ok r →
      (∃ sx sy sr, Shape.ofValue x = .ok sx ∧ Shape.ofValue y = .ok sy ∧
        Shape.ofValue r = .ok sr ∧ sr.list? = joinLists sx.list? sy.list? ∧
        joinSelects sx.select? sy.select? = .ok sr.select? ∧
        sr.opComments = sx.opComments ++ sy.opComments) ∧
      (r = none ↔ x = none ∧ y = none) ∧ squash r none = .ok r ∧ squash none r = .ok r) ∧
    ∀ t : SquashTree, (∀ x ∈ t.leaves, ∃ s, Shape.ofValue x = .ok s) →
      (∃ r s, t.run = .ok r ∧ Shape.ofValue r = .ok s) ∨
        ∃ e, t.run = .error e ∧ t.CollidesIn e := by
  refine ⟨fun x y r h => ?_, SquashTree.run_cases⟩
  obtain ⟨sx, sy, sr, hx, hy, hr, hvalue, hlist, hselect, hop⟩ := shape_of_squash h
  refine ⟨⟨sx, sy, sr, hx, hy, hr, hlist, hselect, hop⟩, ?_, ?_, ?_⟩
  · rw [← squash_eq_ok_none_iff, h, Except.ok.injEq]
  · rw [squash_none_right hr, ← hvalue]
  · rw [squash_none_left hr, ← hvalue]

/-- A list `+` a `select`, a `select` with a case of the same key, and nothing. -/
def linuxTree : SquashTree :=
  .node (.node (.leaf (some (listPlus linuxCases))) (.leaf (some darwinCases.toExpr))) (.leaf none)

theorem linuxTree_run :
    linuxTree.run = .ok (some (listPlus joinedCases)) ∧
      ∃ s, Shape.ofValue (some (listPlus joinedCases)) = .ok s := by
  have hx : Shape.ofValue (some (listPlus linuxCases)) =
    .ok (.listPlusSelect ⟨[.string "//a" {}], {}⟩ linuxCases { before := [⟨"# deps"⟩] }) := rfl
  have hy : Shape.ofValue (some darwinCases.toExpr) = .ok (.select darwinCases) := rfl
  have h : squash (some (listPlus linuxCases)) (some darwinCases.toExpr) =
      .ok (some (listPlus joinedCases)) := squash_of_joinSelects hx hy joinSelects_linuxCases
  obtain ⟨hpair, htree⟩ := squash_homomorphic
  obtain ⟨-, -, hnone, -⟩ := hpair _ _ _ h
  have hrun : linuxTree.run = .ok (some (listPlus joinedCases)) := by
    rw [← hnone]
    show (squash (some (listPlus linuxCases)) (some darwinCases.toExpr) >>=
      fun r => squash r none) = _
    rw [h]
    rfl
  have hleaves : ∀ x ∈ linuxTree.leaves, ∃ s, Shape.ofValue x = .ok s := by
    intro x hmem
    simp only [linuxTree, SquashTree.leaves, List.cons_append, List.nil_append, List.mem_cons,
      List.not_mem_nil, or_false] at hmem
    rcases hmem with rfl | rfl | rfl
    · exact ⟨_, hx⟩
    · exact ⟨_, hy⟩
    · exact ⟨.absent, rfl⟩
  rcases htree linuxTree hleaves with ⟨r, s, hr, hs⟩ | ⟨e, he, -⟩
  · rw [hrun] at hr
    cases hr
    exact ⟨hrun, s, hs⟩
  · rw [hrun] at he
    cases he

end BuildFix
