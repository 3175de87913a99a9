import BuildFix.Proofs.Attempts
import BuildFix.Proofs.Squash.Insertion

/-!
# Squashing without its errors

A squash that fails says why, and which reason it finds first depends on the order
it looks in.  `Except.toOption` forgets the reason.

What is left of a squash is the join of two shapes (`toOption_squash`).  Their lists
and comments are joined end to end, and their calls of `select` by inserting the
entries of the second into those of the first (`toOption_joinEntries`), where a case
is joined to another by squashing its value (`joinCase?`).
-/

namespace BuildFix

/-! ## Cases -/

/-- The value `y` squashed into `x`, if it can be. -/
def joinValues? (x y : Expr) : Option Expr :=
  (squash (some x) (some y)).toOption.map (·.getD x)

/-- The case `y` joined into `x`, if its value can be squashed into that of `x`. -/
def joinCase? : Expr → Expr → Option Expr
  | .keyValue k v c, .keyValue k' v' c' =>
      (joinValues? v v').map fun w => .keyValue (k.addComments k'.comments) w (c ++ c')
  | _, _ => none

/-- Two values never squash into nothing. -/
theorem toOption_squash_some (x y : Expr) :
    (squash (some x) (some y)).toOption = (joinValues? x y).map some := by
  rw [joinValues?]
  cases h : squash (some x) (some y) with
  | error e => rfl
  | ok r =>
      obtain ⟨e, rfl⟩ := squash_some_eq_ok h
      rfl

theorem keepsKey_joinCase? : KeepsKey joinCase? := by
  intro x y r h
  unfold joinCase? at h
  split at h
  next k v c k' v' c' =>
    obtain ⟨w, -, rfl⟩ := Option.map_eq_some_iff.1 h
    exact Expr.string?_addComments k k'.comments
  next => cases h

theorem toOption_joinEntry {x : Expr} {key : String} (hx : caseKey? x = some key)
    (v : Expr) (kc c : Comments) :
    (joinEntry (fun xv => do return (← squash (some xv) (some v)).getD xv) kc c x).toOption =
      joinCase? x (.keyValue (.string key kc) v c) := by
  obtain ⟨kc', xv, c', rfl⟩ := caseKey?_eq_some_iff.1 hx
  rw [joinEntry, joinCase?, joinValues?, toOption_bind, toOption_bind]
  cases squash (some xv) (some v) <;> rfl

theorem toOption_updateCase {join : Expr → Expr → Option Expr}
    {change : Expr → Except ShapeError Expr} {y : Expr} {key : String}
    (hy : caseKey? y = some key)
    (hchange : ∀ x, caseKey? x = some key → (change x).toOption = join x y) (xs : List Expr) :
    (updateCase key y change xs).toOption = insertEntry join xs y := by
  induction xs with
  | nil => rfl
  | cons x xs ih =>
      by_cases hx : caseKey? x = some key
      · rw [updateCase, if_pos hx, insertEntry_of_shares ((sharesKey_iff hy).2 hx), ← hchange x hx]
        cases change x <;> rfl
      · rw [updateCase, if_neg hx, insertEntry_of_not_shares (mt (sharesKey_iff hy).1 hx), ← ih]
        cases updateCase key y change xs <;> rfl

/-- Joining entries is inserting them. -/
theorem toOption_joinEntries (xs ys : List Expr) :
    (joinEntries xs ys).toOption = insertEntries joinCase? xs ys := by
  induction ys generalizing xs with
  | nil =>
      rw [joinEntries]
      rfl
  | cons y ys ih =>
      cases hy : caseKey? y with
      | none =>
          rw [insertEntries, insertEntry_unkeyed hy, Option.bind_some, ← ih]
          cases y with
          | keyValue k v c =>
              have hk : k.string? = none := hy
              rw [joinEntries, hk]
              rfl
          | _ => rw [joinEntries]; rintro _ _ _ ⟨⟩
      | some key =>
          obtain ⟨kc, v, c, rfl⟩ := caseKey?_eq_some_iff.1 hy
          have hinsert : (updateCase key (.keyValue (.string key kc) v c)
              (joinEntry (fun xv => do return (← squash (some xv) (some v)).getD xv) kc c)
              xs).toOption = insertEntry joinCase? xs (.keyValue (.string key kc) v c) :=
            toOption_updateCase rfl (fun x hx => toOption_joinEntry hx v kc c) xs
          rw [insertEntries, ← hinsert, joinEntries]
          simp only [Expr.string?]
          rw [toOption_bind]
          exact Option.bind_congr fun zs _ => ih zs

section Steps

variable {S : Expr → Expr → Expr → Prop}
  (hS : ∀ x y r, squash (some x) (some y) = .ok (some r) → S x y r)

include hS

/-- Inserting an entry is joining it. -/
theorem entryJoined_of_insertEntry {xs zs : List Expr} {y : Expr}
    (h : insertEntry joinCase? xs y = some zs) : EntryJoined S xs y zs := by
  cases hkey : caseKey? y with
  | none =>
      rw [insertEntry_unkeyed hkey] at h
      cases h
      refine .added fun key hkey' => ?_
      rw [hkey] at hkey'
      cases hkey'
  | some key =>
      obtain ⟨kc, v, c, rfl⟩ := caseKey?_eq_some_iff.1 hkey
      rw [← toOption_updateCase hkey (fun x hx => toOption_joinEntry hx v kc c) xs] at h
      exact entryJoined_of_updateCase (fun xv r => hS xv v r) (toOption_eq_some_iff.1 h)

theorem entriesJoined_of_insertEntries {xs ys zs : List Expr}
    (h : insertEntries joinCase? xs ys = some zs) : EntriesJoined S xs ys zs := by
  induction ys generalizing xs with
  | nil =>
      cases h
      exact .nil
  | cons y ys ih =>
      obtain ⟨xs', hhead, htail⟩ := Option.bind_eq_some_iff.1 h
      exact .cons (entryJoined_of_insertEntry hS hhead) (ih htail)

end Steps

/-! ## Calls of select -/

@[simp] theorem toOption_joinSelects_none_left (y : Option SelectValue) :
    (joinSelects none y).toOption = some y := by
  rw [joinSelects]
  rfl

@[simp] theorem toOption_joinSelects_none_right (x : Option SelectValue) :
    (joinSelects x none).toOption = some x := by
  cases x <;> rw [joinSelects] <;> rfl

theorem toOption_joinSelects_some (x y : SelectValue) :
    (joinSelects (some x) (some y)).toOption =
      (insertEntries joinCase? x.entries y.entries).map fun entries =>
        some ⟨entries, x.dictComments ++ y.dictComments, x.callComments ++ y.callComments,
          x.calleeComments ++ y.calleeComments⟩ := by
  rw [joinSelects, ← toOption_joinEntries]
  cases joinEntries x.entries y.entries <;> rfl

theorem selectsJoined_of_joinSelects {x y s : Option SelectValue}
    (h : (joinSelects x y).toOption = some s) : SelectsJoined (fun _ _ _ => True) x y s := by
  cases x with
  | none =>
      rw [toOption_joinSelects_none_left] at h
      cases h
      exact .right
  | some x =>
      cases y with
      | none =>
          rw [toOption_joinSelects_none_right] at h
          cases h
          exact .left
      | some y =>
          rw [toOption_joinSelects_some] at h
          obtain ⟨zs, hzs, rfl⟩ := Option.map_eq_some_iff.1 h
          exact .both (entriesJoined_of_insertEntries (fun _ _ _ _ => trivial) hzs)

/-! ## Shapes -/

/-- The shape `y` joined into `x`, if their calls of `select` can be. -/
def joinShapes? (x y : Shape) : Option Shape :=
  (joinSelects x.select? y.select?).toOption.map fun s =>
    Shape.ofParts (joinLists x.list? y.list?) s (x.opComments ++ y.opComments)

/-- Squashing joins the shapes of two values. -/
theorem toOption_squash (x y : Option Expr) :
    (squash x y).toOption = (Shape.ofValue x).toOption.bind fun sx =>
      (Shape.ofValue y).toOption.bind fun sy => (joinShapes? sx sy).map Shape.toExpr? := by
  rw [squash, toOption_bind]
  refine Option.bind_congr fun sx _ => ?_
  split
  next e hy =>
    rw [hy]
    rfl
  next sy hy =>
    rw [hy, toOption_bind]
    show _ = (joinShapes? sx sy).map Shape.toExpr?
    rw [joinShapes?]
    cases joinSelects sx.select? sy.select? <;> rfl

theorem toOption_squash_of_shape {x y : Option Expr} {sx sy : Shape}
    (hx : Shape.ofValue x = .ok sx) (hy : Shape.ofValue y = .ok sy) :
    (squash x y).toOption = (joinShapes? sx sy).map Shape.toExpr? := by
  rw [toOption_squash, hx, hy]
  rfl

theorem toOption_squash_left_error {x : Option Expr} {e : ShapeError}
    (hx : Shape.ofValue x = .error e) (y : Option Expr) : (squash x y).toOption = none := by
  rw [toOption_squash, hx]
  rfl

theorem toOption_squash_right_error {y : Option Expr} {e : ShapeError}
    (hy : Shape.ofValue y = .error e) (x : Option Expr) : (squash x y).toOption = none := by
  rw [toOption_squash, hy]
  exact Option.bind_fun_none _

theorem shapesJoined_of_joinShapes? {x y r : Shape} (h : joinShapes? x y = some r) :
    ShapesJoined (fun _ _ _ => True) x y r := by
  obtain ⟨s, hs, rfl⟩ := Option.map_eq_some_iff.1 h
  have hselect := selectsJoined_of_joinSelects hs
  refine ⟨Shape.list?_ofParts .., ?_, hselect.opComments⟩
  rw [Shape.select?_ofParts]
  exact hselect

/-- The joined shape is that of its value. -/
theorem ofValue_joinShapes? {x y : Option Expr} {sx sy r : Shape} (hx : Shape.ofValue x = .ok sx)
    (hy : Shape.ofValue y = .ok sy) (h : joinShapes? sx sy = some r) :
    Shape.ofValue r.toExpr? = .ok r :=
  Shape.ofValue_toExpr? ((shapesJoined_of_joinShapes? h).select.valid
    (Shape.valid_of_ofValue hx) (Shape.valid_of_ofValue hy))

theorem bind_joinShapes? (x y : Shape) {α : Type} (f : Option SelectValue → Option α) :
    ((joinShapes? x y).bind fun r => f r.select?) =
      (joinSelects x.select? y.select?).toOption.bind f := by
  simp only [joinShapes?, Option.bind_map, Function.comp_def, Shape.select?_ofParts]

end BuildFix
