import BuildFix.Tree.File
import BuildFix.Json.Draft

/-!
# Trees from JSON

A build file is read from the draft of its JSON text.  The first problem in the
order of the text is the one reported, and a fault of the text counts like a
fault of its content.

* A file takes the members `path` and `stmts` and refuses all others.
* An expression, comments and a comment pass over members they do not know.
* A known member that is repeated is refused.

The statements of a file are read as they come.  Of a statement only the
comments are looked into at once.  Its other members are first read as values,
with at most 127 containers open.  Then the type is looked up among them, and
the fields of that type are read in the order of the text.  Below a statement
everything is a value already, so the text can no longer be at fault there.

A member that comments pass over straight from the text is only read past.  It
may nest without limit and may hold strings and numbers that are no values.

A file, comments and a comment may also be written as arrays of their fields.
-/

namespace BuildFix

open Json (Draft)

/-! ## Errors -/

/-- Why a text is no build file. -/
inductive ReadError where
  /-- The text is not JSON. -/
  | malformed
  /-- A value has the wrong type. -/
  | mismatch
  /-- A field is missing. -/
  | missingField (name : String)
  /-- A file has a member it does not know. -/
  | unknownField (name : String)
  /-- An expression has a type that does not exist. -/
  | unknownType (name : String)
  /-- A known member is repeated. -/
  | duplicateField (name : String)
deriving DecidableEq, Repr

/-- What an error says. -/
def ReadError.message : ReadError → String
  | malformed => "not a JSON text"
  | mismatch => "a value has the wrong type"
  | missingField name => s!"missing field `{name}`"
  | unknownField name => s!"unknown field `{name}`, expected `path` or `stmts`"
  | unknownType name =>
      s!"unknown variant `{name}`, expected one of " ++
        "`literal`, `string`, `list`, `dict`, `key_value`, `binary`, `call`"
  | duplicateField name => s!"duplicate field `{name}`"

/-- Where a value is read from. -/
inductive Place where
  /-- Straight from the text. -/
  | text
  /-- From a value that was read before. -/
  | value
deriving DecidableEq, Repr

/-- What an array with too many items is reported as.  In a text the parser
waits for the end of the array. -/
def Place.surplus : Place → ReadError
  | text => .malformed
  | value => .mismatch

/-- What is wrong with a value of the wrong type.  An array or an object is
refused at its bracket, and any other value after it was read. -/
def mismatchOf : Draft → ReadError
  | .cut | .string none => .malformed
  | .number numeral => if Json.inRange numeral then .mismatch else .malformed
  | _ => .mismatch

/-- The value of a string. -/
def stringOf : Draft → Except ReadError String
  | .string (some s) => .ok s
  | d => .error (mismatchOf d)

/-! ## Comments -/

/-- The comment among the members of an object. -/
def Comment.among (found : Option String) : List (Option String × Draft) → Except ReadError Comment
  | [] =>
      match found with
      | some token => .ok ⟨token⟩
      | none => .error (.missingField "token")
  | (none, _) :: _ => .error .malformed
  | (some key, d) :: ms =>
      if key = "token" then
        if found.isSome then .error (.duplicateField key)
        else do among (some (← stringOf d)) ms
      else if d.isWhole then among found ms
      else .error .malformed

/-- The comment a draft spells. -/
def Comment.ofDraft (place : Place) : Draft → Except ReadError Comment
  | .object members => among none members
  | .array [] => .error .mismatch
  | .array [d] => do return ⟨← stringOf d⟩
  | .array (d :: _ :: _) => do
      let _ ← stringOf d
      .error place.surplus
  | d => .error (mismatchOf d)

namespace Comments

/-- The group of comments a draft spells. -/
def groupOf (place : Place) : Draft → Except ReadError (List Comment)
  | .array items => items.mapM (Comment.ofDraft place)
  | d => .error (mismatchOf d)

/-- The names of the groups. -/
def groupNames : List String := ["before", "suffix", "after"]

/-- The comments among the members of an object. -/
def among (place : Place) (found : List (String × List Comment)) :
    List (Option String × Draft) → Except ReadError Comments
  | [] =>
      .ok ⟨(found.lookup "before").getD [], (found.lookup "suffix").getD [],
        (found.lookup "after").getD []⟩
  | (none, _) :: _ => .error .malformed
  | (some key, d) :: ms =>
      if key ∈ groupNames then
        if (found.lookup key).isSome then .error (.duplicateField key)
        else do among place ((key, ← groupOf place d) :: found) ms
      else if d.isWhole then among place found ms
      else .error .malformed

/-- The comments a draft spells. -/
def ofDraft (place : Place) : Draft → Except ReadError Comments
  | .object members => among place [] members
  | .array items => do
      let groups ← (items.take 3).mapM (groupOf place)
      if 3 < items.length then .error place.surplus
      else .ok ⟨groups[0]?.getD [], groups[1]?.getD [], groups[2]?.getD []⟩
  | d => .error (mismatchOf d)

end Comments

/-! ## The types of expressions -/

/-- What an expression is. -/
inductive Kind where
  | literal
  | string
  | list
  | dict
  | keyValue
  | binary
  | call
deriving DecidableEq, Repr

namespace Kind

/-- The kinds by name, in order. -/
def names : List (String × Kind) :=
  [("literal", literal), ("string", string), ("list", list), ("dict", dict),
    ("key_value", keyValue), ("binary", binary), ("call", call)]

/-- The kind that the value of `type` names.  The place in the order of the
kinds will do as well. -/
def ofDraft : Draft → Except ReadError Kind
  | .string (some name) =>
      match names.lookup name with
      | some kind => .ok kind
      | none => .error (.unknownType name)
  | .number numeral =>
      match (names.zipIdx.map fun k => (toString k.2, k.1.2)).lookup numeral with
      | some kind => .ok kind
      | none => .error .mismatch
  | _ => .error .mismatch

/-- The kind among the members of an expression. -/
def among (found : Option Kind) : List (Option String × Draft) → Except ReadError Kind
  | [] =>
      match found with
      | some kind => .ok kind
      | none => .error (.missingField "type")
  | (key, d) :: ms =>
      if key = some "type" then
        if found.isSome then .error (.duplicateField "type")
        else do among (some (← ofDraft d)) ms
      else among found ms

end Kind

/-- What a field of an expression holds. -/
inductive Slot where
  /-- A token, a value or an operator. -/
  | text
  /-- A key, a left operand or a callee. -/
  | first
  /-- A value or a right operand. -/
  | second
  /-- Elements, entries or arguments. -/
  | items
  /-- The compactness of a call. -/
  | compact
deriving DecidableEq, Repr

/-- The fields of a kind. -/
def Kind.fields : Kind → List (String × Slot)
  | literal => [("token", .text)]
  | string => [("value", .text)]
  | list => [("elements", .items)]
  | dict => [("entries", .items)]
  | keyValue => [("key", .first), ("value", .second)]
  | binary => [("left", .first), ("op", .text), ("right", .second)]
  | call => [("callee", .first), ("args", .items), ("force_compact", .compact)]

/-- The fields of an expression that were read so far. -/
structure Slots where
  /-- The token, the value or the operator. -/
  text : Option String := none
  /-- The key, the left operand or the callee. -/
  first : Option Expr := none
  /-- The value or the right operand. -/
  second : Option Expr := none
  /-- The elements, the entries or the arguments. -/
  items : Option (List Expr) := none
  /-- The compactness of the call. -/
  compact : Option Bool := none

namespace Slots

/-- Decide whether a field was read. -/
def has (s : Slots) : Slot → Bool
  | .text => s.text.isSome
  | .first => s.first.isSome
  | .second => s.second.isSome
  | .items => s.items.isSome
  | .compact => s.compact.isSome

/-- A field that must be there. -/
def need {α : Type} (name : String) : Option α → Except ReadError α
  | some x => .ok x
  | none => .error (.missingField name)

/-- The expression of a kind with these fields.  The first missing field in the
order of the kind is reported. -/
def toExpr (s : Slots) (c : Comments) : Kind → Except ReadError Expr
  | .literal => do return .literal (← need "token" s.text) c
  | .string => do return .string (← need "value" s.text) c
  | .list => .ok (.list (s.items.getD []) c)
  | .dict => .ok (.dict (s.items.getD []) c)
  | .keyValue => do return .keyValue (← need "key" s.first) (← need "value" s.second) c
  | .binary => do
      return .binary (← need "left" s.first) (← need "op" s.text) (← need "right" s.second) c
  | .call => do
      return .call (← need "callee" s.first) (s.items.getD []) (s.compact.getD false) c

end Slots

/-! ## Expressions -/

namespace Expr

/-- The containers that may be open below a member of a statement.  The file,
its list of statements and the statement are open already. -/
def memberDepth : Nat := 124

/-- The comments among the members of an expression.  Straight from the text the
other members have to be values. -/
def commentsAmong (place : Place) (found : Option Comments) :
    List (Option String × Draft) → Except ReadError Comments
  | [] => .ok (found.getD {})
  | (none, _) :: _ => .error .malformed
  | (some key, d) :: ms =>
      if key = "comments" then
        if found.isSome then .error (.duplicateField key)
        else do commentsAmong place (some (← Comments.ofDraft place d)) ms
      else if place = .text && (d.value? memberDepth).isNone then .error .malformed
      else commentsAmong place found ms

mutual

/-- The expression a draft spells. -/
def ofDraft (place : Place) : Draft → Except ReadError Expr
  | .object members => do
      let comments ← commentsAmong place none members
      let kind ← Kind.among none members
      let slots ← slotsAmong kind {} members
      slots.toExpr comments kind
  | d => .error (mismatchOf d)

/-- The fields of a kind among the members of an expression. -/
def slotsAmong (kind : Kind) (s : Slots) : List (Option String × Draft) → Except ReadError Slots
  | [] => .ok s
  | (key, d) :: ms =>
      match key.bind (kind.fields.lookup ·) with
      | none => slotsAmong kind s ms
      | some slot =>
          if s.has slot then .error (.duplicateField (key.getD ""))
          else match slot with
            | .text => do slotsAmong kind { s with text := some (← stringOf d) } ms
            | .first => do slotsAmong kind { s with first := some (← ofDraft .value d) } ms
            | .second => do slotsAmong kind { s with second := some (← ofDraft .value d) } ms
            | .items => do slotsAmong kind { s with items := some (← listOf d) } ms
            | .compact =>
                match d with
                | .bool b => slotsAmong kind { s with compact := some b } ms
                | d => .error (mismatchOf d)

/-- The list of expressions a draft spells. -/
def listOf : Draft → Except ReadError (List Expr)
  | .array items => itemsOf items
  | d => .error (mismatchOf d)

/-- The expressions that drafts spell. -/
def itemsOf : List Draft → Except ReadError (List Expr)
  | [] => .ok []
  | d :: ds => do
      let e ← ofDraft .value d
      return e :: (← itemsOf ds)

end

end Expr

/-! ## Files -/

namespace File

/-- The statements a draft spells. -/
def stmtsOf : Draft → Except ReadError (List Expr)
  | .array items => items.mapM (Expr.ofDraft .text)
  | d => .error (mismatchOf d)

/-- The file among the members of an object. -/
def among (path : Option String) (stmts : Option (List Expr)) :
    List (Option String × Draft) → Except ReadError File
  | [] =>
      match stmts with
      | some stmts => .ok ⟨path.getD "", stmts⟩
      | none => .error (.missingField "stmts")
  | (none, _) :: _ => .error .malformed
  | (some key, d) :: ms =>
      if key = "path" then
        if path.isSome then .error (.duplicateField key)
        else do among (some (← stringOf d)) stmts ms
      else if key = "stmts" then
        if stmts.isSome then .error (.duplicateField key)
        else do among path (some (← stmtsOf d)) ms
      else .error (.unknownField key)

/-- The file a draft spells. -/
def ofDraft : Draft → Except ReadError File
  | .object members => among none none members
  | .array [] => .error .mismatch
  | .array [path] => do
      let _ ← stringOf path
      .error .mismatch
  | .array [path, stmts] => do return ⟨← stringOf path, ← stmtsOf stmts⟩
  | .array (path :: stmts :: _ :: _) => do
      let _ ← stringOf path
      let _ ← stmtsOf stmts
      .error .malformed
  | d => .error (mismatchOf d)

/-- The file a text spells. -/
def parse (text : String) : Except ReadError File := do
  let doc := Draft.read text
  let f ← ofDraft doc.root
  if doc.alone then .ok f else .error .malformed

end File

end BuildFix
