import BuildFix.Squash.Shape

/-!
# Squashing values

Squashing joins two attribute values and drops nothing of either.  Elements are
neither sorted nor deduplicated, and the first value comes first.

Lists are joined end to end.  The cases of a `select` are gone through in the
order of the second value.  A case whose key is new goes to the end.  A case
whose key is there is squashed into the first case of that key, which keeps its
place.  An entry without a key goes to the end as it is.  Comments are joined
node by node.

Squashing fails when a value is not squashable, or when two cases of one key
hold values that cannot be squashed.
-/

namespace BuildFix

/-! ## Lists and cases -/

/-- The elements of `x` followed by those of `y`. -/
def joinLists : Option ListValue → Option ListValue → Option ListValue
  | none, y => y
  | some x, none => some x
  | some x, some y => some ⟨x.elements ++ y.elements, x.comments ++ y.comments⟩

/-- The entry `x` with its value joined to a value by `join`, and the comments
of a key and of an entry behind its own. -/
def joinEntry (join : Expr → Except ShapeError Expr) (keyComments entryComments : Comments) :
    Expr → Except ShapeError Expr
  | .keyValue key value c => do
      let value ← join value
      return .keyValue (key.addComments keyComments) value (c ++ entryComments)
  | e => .ok e

/-- Change the first entry with the key by `change`, or add `new` at the end. -/
def updateCase (key : String) (new : Expr) (change : Expr → Except ShapeError Expr) :
    List Expr → Except ShapeError (List Expr)
  | [] => .ok [new]
  | x :: xs =>
      if caseKey? x = some key then do return (← change x) :: xs
      else do return x :: (← updateCase key new change xs)

/-! ## Squashing -/

mutual

/-- The value `y` squashed into `x`. -/
def squash (x y : Option Expr) : Except ShapeError (Option Expr) := do
  let sx ← Shape.ofValue x
  match _h : Shape.ofValue y with
  | .error e => .error e
  | .ok sy =>
      let select ← joinSelects sx.select? sy.select?
      return (Shape.ofParts (joinLists sx.list? sy.list?) select
        (sx.opComments ++ sy.opComments)).toExpr?
termination_by 2 * sizeOf y + 1
decreasing_by
  have := Shape.sizeOf_select?_le _h
  omega

/-- The `select` `y` squashed into `x`. -/
def joinSelects (x y : Option SelectValue) : Except ShapeError (Option SelectValue) :=
  match x, y with
  | none, y => .ok y
  | some x, none => .ok (some x)
  | some x, some y => do
      let entries ← joinEntries x.entries y.entries
      return some ⟨entries, x.dictComments ++ y.dictComments, x.callComments ++ y.callComments,
        x.calleeComments ++ y.calleeComments⟩
termination_by 2 * sizeOf y
decreasing_by
  cases y
  simp
  omega

/-- The entries `ys` squashed into `xs`, one after the other. -/
def joinEntries (xs : List Expr) : List Expr → Except ShapeError (List Expr)
  | [] => .ok xs
  | .keyValue k v c :: ys => do
      let entry := Expr.keyValue k v c
      let xs ←
        match k.string? with
        | none => .ok (xs ++ [entry])
        | some key =>
            updateCase key entry
              (joinEntry (fun xv => do return (← squash (some xv) (some v)).getD xv) k.comments c)
              xs
      joinEntries xs ys
  | y :: ys => joinEntries (xs ++ [y]) ys
termination_by ys => 2 * sizeOf ys

end

end BuildFix
