import BuildFix.Proofs.Squash.Steps
import BuildFix.Proofs.Tree.Nesting

/-!
# How deep squashing nests

Squashing makes a value deeper.  A list and a `select` become the operands of a
sum, and so do the values of cases of one key, at every level of a nested
`select`.

The *room* of a value is the depth it has when it and all values of its cases are
operands of a sum already (`Expr.room`).  The sums that squashing adds have their
room in the values, so squashing never takes more than the larger room of the two
(`room_squash_le`), however often the keys of a `select` are repeated.

A `select` opens five arrays and objects before the value of a case, so room is
about a fifth more than depth at most (`room_le`).
-/

namespace BuildFix

open BuildFix.Expr (opensAll)

namespace Expr

mutual

/-- The depth of a value when it and all values of its cases stand in a sum. -/
def room : Expr → Nat
  | list es c => (list es c).opens + 1
  | call f args _ c => max (max f.opens (argsRoom args + 1)) c.opens + 2
  | binary l _ r c => max (max l.opens (max r.opens (r.room - 1))) c.opens + 1
  | e => e.opens

/-- The depth of the arguments of a `select` when the values of its cases stand in
a sum. -/
def argsRoom : List Expr → Nat
  | [dict entries c] => max (casesRoom entries + 1) c.opens + 1
  | args => opensAll args

/-- The depth of the entries of a `select` when the values of its cases stand in a
sum. -/
def casesRoom : List Expr → Nat
  | [] => 0
  | e :: es => max (caseRoom e) (casesRoom es)

/-- The depth of an entry of a `select` when the value of a case stands in a sum. -/
def caseRoom : Expr → Nat
  | keyValue k v c => max (max k.opens v.room) c.opens + 1
  | e => e.opens

end

/-! ## Room and depth -/

mutual

/-- A value takes no more than its room. -/
theorem opens_le_room : ∀ e : Expr, e.opens ≤ e.room
  | list .. => by
      rw [room]
      omega
  | call f args b c => by
      have := opensAll_le_argsRoom args
      rw [room, opens_call]
      omega
  | binary l op r c => by
      rw [room, opens_binary]
      omega
  | literal .. | string .. | dict .. | keyValue .. => Nat.le_refl _

theorem opensAll_le_argsRoom : ∀ args : List Expr, opensAll args ≤ argsRoom args
  | [dict entries c] => by
      have := opensAll_le_casesRoom entries
      rw [argsRoom, opensAll_cons, opensAll_nil, opens_dict]
      omega
  | [] | [literal ..] | [string ..] | [list ..] | [keyValue ..] | [binary ..] | [call ..]
  | _ :: _ :: _ => Nat.le_of_eq (by rw [argsRoom]; all_goals nofun)

theorem opensAll_le_casesRoom : ∀ es : List Expr, opensAll es ≤ casesRoom es
  | [] => Nat.le_refl _
  | e :: es => by
      have := opens_le_caseRoom e
      have := opensAll_le_casesRoom es
      rw [casesRoom, opensAll_cons]
      omega

theorem opens_le_caseRoom : ∀ e : Expr, e.opens ≤ e.caseRoom
  | keyValue k v c => by
      have := opens_le_room v
      rw [caseRoom, opens_keyValue]
      omega
  | literal .. | string .. | list .. | dict .. | binary .. | call .. => Nat.le_refl _

end

mutual

/-- Room is about a fifth more than depth at most. -/
theorem room_le : ∀ e : Expr, 5 * e.room ≤ 6 * e.opens + 3
  | list es c => by
      rw [room, opens_list]
      omega
  | call f args b c => by
      have := argsRoom_le args
      have := f.opens_pos
      rw [room, opens_call]
      omega
  | binary l op r c => by
      have := room_le r
      rw [room, opens_binary]
      omega
  | literal t c | string t c => by
      rw [room]
      · omega
      all_goals nofun
  | dict es c => by
      rw [room]
      · omega
      all_goals nofun
  | keyValue k v c => by
      rw [room]
      · omega
      all_goals nofun

theorem argsRoom_le : ∀ args : List Expr, 5 * argsRoom args ≤ 6 * opensAll args
  | [dict entries c] => by
      have := casesRoom_le entries
      rw [argsRoom, opensAll_cons, opensAll_nil, opens_dict]
      omega
  | [] | [literal ..] | [string ..] | [list ..] | [keyValue ..] | [binary ..] | [call ..]
  | _ :: _ :: _ => by
      rw [argsRoom]
      · omega
      all_goals nofun

theorem casesRoom_le : ∀ es : List Expr, 5 * casesRoom es ≤ 6 * opensAll es + 2
  | [] => Nat.zero_le _
  | e :: es => by
      have := caseRoom_le e
      have := casesRoom_le es
      rw [casesRoom, opensAll_cons]
      omega

theorem caseRoom_le : ∀ e : Expr, 5 * e.caseRoom ≤ 6 * e.opens + 2
  | keyValue k v c => by
      have := room_le v
      rw [caseRoom, opens_keyValue]
      omega
  | literal .. | string .. | list .. | dict .. | binary .. | call .. => by
      rw [caseRoom]
      · omega
      all_goals nofun

end

/-- There is room for a call in a sum. -/
theorem opens_call_lt_room (f : Expr) (args : List Expr) (b b' : Bool) (c : Comments) :
    (call f args b c).opens < (call f args b' c).room := by
  have := opensAll_le_argsRoom args
  rw [room, opens_call]
  omega

theorem casesRoom_le_iff {es : List Expr} {n : Nat} :
    casesRoom es ≤ n ↔ ∀ e ∈ es, e.caseRoom ≤ n := by
  induction es with
  | nil => simp [casesRoom]
  | cons e es ih => rw [casesRoom, Nat.max_le, ih, List.forall_mem_cons]

end Expr

/-! ## The room of the parts of a shape -/

/-- The room of a value that may be absent. -/
def roomOf : Option Expr → Nat
  | none => 0
  | some e => e.room

/-- A `select` has room where its comments and the values of its cases have. -/
theorem SelectValue.room_le_iff {sel : SelectValue} {n : Nat} : sel.toExpr.room ≤ n ↔
    sel.calleeComments.opens + 3 ≤ n ∧ Expr.casesRoom sel.entries + 5 ≤ n ∧
      sel.dictComments.opens + 4 ≤ n ∧ sel.callComments.opens + 2 ≤ n := by
  have hroom : sel.toExpr.room =
      max (max (sel.calleeComments.opens + 1)
        (max (Expr.casesRoom sel.entries + 1) sel.dictComments.opens + 1 + 1))
        sel.callComments.opens + 2 := by
    rw [← Expr.opens_literal "select"]
    rfl
  rw [hroom]
  omega

/-- The parts of a shape fit into a sum of a depth. -/
structure Shape.Fits (n : Nat) (s : Shape) : Prop where
  /-- The list is an operand of the sum. -/
  list : ∀ l, s.list? = some l → l.toExpr.opens < n
  /-- The `select` has its room. -/
  select : ∀ sel, s.select? = some sel → sel.toExpr.room ≤ n
  /-- The comments of the operator hang on the sum. -/
  op : s.opComments.opens = 0 ∨ s.opComments.opens < n

/-- A value has the room of the parts of its shape. -/
theorem Shape.fits_iff {x : Option Expr} {s : Shape} {n : Nat} (h : Shape.ofValue x = .ok s) :
    s.Fits n ↔ roomOf x ≤ n := by
  cases x with
  | none =>
      cases h
      exact iff_of_true ⟨nofun, nofun, .inl rfl⟩ (Nat.zero_le n)
  | some e =>
      rcases Shape.ofExpr_cases h with
        ⟨l, rfl, rfl⟩ | ⟨sel, b, rfl, -, rfl⟩ | ⟨l, sel, b, op, rfl, -, rfl⟩
      · constructor
        · exact fun hf => hf.list l rfl
        · intro hr
          exact ⟨fun l' hl => by cases hl; exact hr, nofun, .inl rfl⟩
      · constructor
        · exact fun hf => hf.select sel rfl
        · intro hr
          exact ⟨nofun, fun sel' hs => by cases hs; exact hr, .inl rfl⟩
      · have hopens : (sel.toCall b).opens < sel.toExpr.room := Expr.opens_call_lt_room ..
        have hroom : roomOf (some (.binary l.toExpr "+" (sel.toCall b) op)) =
            max (max l.toExpr.opens (max (sel.toCall b).opens (sel.toExpr.room - 1))) op.opens +
              1 := rfl
        rw [hroom]
        constructor
        · intro hf
          have := hf.list l rfl
          have := hf.select sel rfl
          have : op.opens = 0 ∨ op.opens < n := hf.op
          omega
        · intro hr
          refine ⟨fun l' hl => ?_, fun sel' hs => ?_, .inr ?_⟩
          · cases hl
            omega
          · cases hs
            omega
          · show op.opens < n
            omega

/-! ## Squashing -/

section

variable {S : Expr → Expr → Expr → Prop} {m : Nat} {xs ys zs : List Expr} {y : Expr}
  (hS : ∀ {xv yv v : Expr} {n : Nat}, S xv yv v → xv.room ≤ n → yv.room ≤ n → v.room ≤ n)

include hS

theorem EntryJoined.casesRoom_le (h : EntryJoined S xs y zs) (hxs : Expr.casesRoom xs ≤ m)
    (hy : y.caseRoom ≤ m) : Expr.casesRoom zs ≤ m := by
  rw [Expr.casesRoom_le_iff] at hxs ⊢
  cases h with
  | added =>
      intro e he
      rcases List.mem_append.1 he with he | he
      · exact hxs e he
      · rw [List.mem_singleton.1 he]
        exact hy
  | @shared before after key kc kc' c c' xv yv v hx hkey hv =>
      subst hx
      have hx := hxs _ (List.mem_append_right _ List.mem_cons_self)
      intro e he
      rcases List.mem_append.1 he with he | he
      · exact hxs e (List.mem_append_left _ he)
      · rcases List.mem_cons.1 he with rfl | he
        · rw [Expr.caseRoom, Expr.opens_string] at hx hy
          have hvalue : v.room ≤ m - 1 := hS hv (by omega) (by omega)
          rw [Expr.caseRoom, Expr.opens_string, Comments.opens_append, Comments.opens_append]
          omega
        · exact hxs e (List.mem_append_right _ (List.mem_cons_of_mem _ he))

theorem EntriesJoined.casesRoom_le (h : EntriesJoined S xs ys zs) (hxs : Expr.casesRoom xs ≤ m)
    (hys : Expr.casesRoom ys ≤ m) : Expr.casesRoom zs ≤ m := by
  induction h with
  | nil => exact hxs
  | cons head _ ih =>
      rw [Expr.casesRoom, Nat.max_le] at hys
      exact ih (head.casesRoom_le hS hxs hys.1) hys.2

theorem SelectsJoined.room_le {x y s : Option SelectValue} (h : SelectsJoined S x y s) {n : Nat}
    (hx : ∀ sel, x = some sel → sel.toExpr.room ≤ n)
    (hy : ∀ sel, y = some sel → sel.toExpr.room ≤ n) :
    ∀ sel, s = some sel → sel.toExpr.room ≤ n := by
  cases h with
  | left => exact hx
  | right => exact hy
  | @both x y zs he =>
      intro sel hsel
      cases hsel
      obtain ⟨hcallee, hentries, hdict, hcall⟩ := x.room_le_iff.1 (hx x rfl)
      obtain ⟨hcallee', hentries', hdict', hcall'⟩ := y.room_le_iff.1 (hy y rfl)
      have hjoined : Expr.casesRoom zs ≤ n - 5 := he.casesRoom_le hS (by omega) (by omega)
      rw [SelectValue.room_le_iff]
      simp only [Comments.opens_append]
      omega

theorem ShapesJoined.fits {x y r : Shape} (h : ShapesJoined S x y r) {n : Nat} (hx : x.Fits n)
    (hy : y.Fits n) : r.Fits n := by
  refine ⟨fun l hl => ?_, h.select.room_le hS hx.select hy.select, ?_⟩
  · rw [h.list] at hl
    cases hxl : x.list? with
    | none =>
        rw [hxl] at hl
        exact hy.list l hl
    | some lx =>
        cases hyl : y.list? with
        | none =>
            rw [hxl, hyl] at hl
            exact hx.list l (hxl.trans hl)
        | some ly =>
            rw [hxl, hyl] at hl
            cases hl
            have hlx := hx.list lx hxl
            have hly := hy.list ly hyl
            simp only [ListValue.toExpr, Expr.opens_list, Expr.opensAll_append,
              Comments.opens_append] at hlx hly ⊢
            omega
  · have hox := hx.op
    have hoy := hy.op
    rw [h.op, Comments.opens_append]
    omega

end

/-- Squashing takes no more than the larger room of the two values. -/
theorem room_squash_le {x y r : Option Expr} (h : squash x y = .ok r) {n : Nat}
    (hx : roomOf x ≤ n) (hy : roomOf y ≤ n) : roomOf r ≤ n := by
  refine squash_induction (P := fun x y r => ∀ n, roomOf x ≤ n → roomOf y ≤ n → roomOf r ≤ n)
    ?_ h n hx hy
  intro x y r sx sy sr hsx hsy hsr hjoined n hx hy
  rw [← Shape.fits_iff hsx] at hx
  rw [← Shape.fits_iff hsy] at hy
  rw [← Shape.fits_iff hsr]
  exact hjoined.fits (fun hv hxv hyv => hv _ hxv hyv) hx hy

end BuildFix
