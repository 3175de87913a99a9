import BuildFix.Json.Token
import BuildFix.Json.Numeral
import BuildFix.Json.Printer

/-!
# Reading JSON

A text is read as far as it is JSON.  The result is a `Draft`: a value in which
`cut` marks the place where the text stops being JSON.  Whoever looks through
the draft in the order of the text meets the mark exactly where the text went
wrong, so errors of the text and errors of its content come in one order.

A fault inside an array is an item `cut`, and a fault inside an object is a
member with the value `cut`.  That member has no name if the fault came before
its name was read.

Some faults are of the content of a token.  A string may have a lone surrogate
half, and a number may be out of range.  Such a value has its place in the
draft, and `Draft.value?` refuses it.  It also refuses a value with too many
containers open at once.

The parser goes through the tokens with a stack of the containers that are open.
-/

namespace BuildFix.Json

/-- A JSON value that may stop in the middle. -/
inductive Draft where
  /-- The text stops being JSON here. -/
  | cut
  /-- The value `null`. -/
  | null
  /-- A truth value. -/
  | bool (b : Bool)
  /-- A number, as its numeral. -/
  | number (numeral : String)
  /-- A string, unless it has a lone surrogate half. -/
  | string (s : Option String)
  /-- An array. -/
  | array (items : List Draft)
  /-- An object, with its members in order. -/
  | object (members : List (Option String × Draft))
deriving Repr, Inhabited

namespace Draft

/-! ## Values and drafts -/

mutual

/-- The value a draft spells, if its text is JSON and at most `depth` containers
are open at once. -/
def value? (depth : Nat) : Draft → Option Json
  | cut => none
  | null => some .null
  | bool b => some (.bool b)
  | number numeral => if inRange numeral then some (.number numeral) else none
  | string s => s.map .string
  | array items =>
      match depth with
      | 0 => none
      | depth + 1 => (values? depth items).map .array
  | object members =>
      match depth with
      | 0 => none
      | depth + 1 => (memberValues? depth members).map .object

/-- The values of a list of drafts. -/
def values? (depth : Nat) : List Draft → Option (List Json)
  | [] => some []
  | d :: ds => (value? depth d).bind fun v => (values? depth ds).map (v :: ·)

/-- The members of a list of drafts with names. -/
def memberValues? (depth : Nat) : List (Option String × Draft) → Option (List (String × Json))
  | [] => some []
  | (key, d) :: ms =>
      key.bind fun key => (value? depth d).bind fun v =>
        (memberValues? depth ms).map ((key, v) :: ·)

end

mutual

/-- A value as a draft without faults. -/
def ofJson : Json → Draft
  | .null => null
  | .bool b => bool b
  | .number numeral => number numeral
  | .string s => string (some s)
  | .array items => array (ofItems items)
  | .object members => object (ofMembers members)

/-- A list of values as drafts. -/
def ofItems : List Json → List Draft
  | [] => []
  | v :: vs => ofJson v :: ofItems vs

/-- A list of members as drafts. -/
def ofMembers : List (String × Json) → List (Option String × Draft)
  | [] => []
  | (key, v) :: ms => (some key, ofJson v) :: ofMembers ms

end

mutual

/-- Decide whether the text of a draft is a complete value, whatever its tokens
hold. -/
def isWhole : Draft → Bool
  | cut => false
  | null | bool _ | number _ | string _ => true
  | array items => areWhole items
  | object members => areWholeMembers members

/-- Decide whether all drafts are complete. -/
def areWhole : List Draft → Bool
  | [] => true
  | d :: ds => isWhole d && areWhole ds

/-- Decide whether the values of all members are complete. -/
def areWholeMembers : List (Option String × Draft) → Bool
  | [] => true
  | (_, d) :: ms => isWhole d && areWholeMembers ms

end

/-! ## The stack of open containers -/

/-- An open container.  What was read stands last to first. -/
inductive Frame where
  /-- An array, with its items. -/
  | array (done : List Draft)
  /-- An object, with its members. -/
  | object (done : List (Option String × Draft))
  /-- An object, with its members and the name of the member being read. -/
  | member (done : List (Option String × Draft)) (key : Option String)
deriving Repr

/-- The open container with one more value. -/
def Frame.push (v : Draft) : Frame → Frame
  | array done => array (v :: done)
  | object done => object ((none, v) :: done)
  | member done key => object ((key, v) :: done)

/-- The container as a draft. -/
def Frame.close : Frame → Draft
  | array done => .array done.reverse
  | object done | member done _ => .object done.reverse

/-- The root of the draft, where the text stops inside the open containers. -/
def abandon : List Frame → Draft → Draft
  | [], v => v
  | f :: fs, v => abandon fs (f.push v).close

/-! ## The parser -/

/-- What the parser waits for. -/
inductive Wait where
  /-- A value. -/
  | value
  /-- A value or the end of an array that has no item yet. -/
  | item
  /-- The name of a member. -/
  | key
  /-- The name of a member or the end of an object that has none yet. -/
  | member
  /-- A colon. -/
  | colon
  /-- A comma or the end of the container. -/
  | next
deriving DecidableEq, Repr

/-- What a token leads to. -/
inductive Outcome where
  /-- The parser goes on. -/
  | more (stack : List Frame) (wait : Wait)
  /-- The root is complete. -/
  | done (root : Draft)
  /-- The token has no place here. -/
  | stop

/-- A value is complete and goes into the innermost open container. -/
def settle (v : Draft) : List Frame → Outcome
  | [] => .done v
  | f :: fs => .more (f.push v :: fs) .next

/-- The first token of a value. -/
def enter (stack : List Frame) : Token → Outcome
  | .openArray => .more (.array [] :: stack) .item
  | .openObject => .more (.object [] :: stack) .member
  | .null => settle null stack
  | .bool b => settle (bool b) stack
  | .number numeral => settle (number numeral) stack
  | .string s => settle (string s) stack
  | _ => .stop

/-- What one token leads to. -/
def step (stack : List Frame) (wait : Wait) (t : Token) : Outcome :=
  match wait, stack, t with
  | .item, .array [] :: fs, .closeArray => settle (array []) fs
  | .item, _, _ | .value, _, _ => enter stack t
  | .member, .object [] :: fs, .closeObject => settle (object []) fs
  | .member, .object done :: fs, .string s | .key, .object done :: fs, .string s =>
      .more (.member done s :: fs) .colon
  | .colon, _, .colon => .more stack .value
  | .next, .array _ :: _, .comma => .more stack .value
  | .next, .array done :: fs, .closeArray => settle (array done.reverse) fs
  | .next, .object _ :: _, .comma => .more stack .key
  | .next, .object done :: fs, .closeObject => settle (object done.reverse) fs
  | _, _, _ => .stop

/-- A text that was read. -/
structure Document where
  /-- The value at its root. -/
  root : Draft
  /-- Nothing follows the root. -/
  alone : Bool
deriving Repr, Inhabited

/-- Read tokens, with the containers of the stack open. -/
def parse (stack : List Frame) (wait : Wait) : List Token → Document
  | [] => ⟨abandon stack cut, true⟩
  | t :: ts =>
      match step stack wait t with
      | .more stack wait => parse stack wait ts
      | .done root => ⟨root, ts.isEmpty⟩
      | .stop => ⟨abandon stack cut, true⟩

end Draft

/-- Read a text. -/
def Draft.read (text : String) : Draft.Document := Draft.parse [] .value (tokens text.toList)

/-- The value a text spells, if it is JSON with at most `depth` containers open
at once. -/
def parse? (depth : Nat) (text : String) : Option Json :=
  let doc := Draft.read text
  if doc.alone then doc.root.value? depth else none

example : (parse? 2 " [[1, true] , \"\\u0041\"]").map compact = some "[[1,true],\"A\"]" := by
  decide +kernel
example : (parse? 1 "[[]]").map compact = none := by decide +kernel
example : (parse? 9 "[1,]").map compact = none := by decide +kernel

end BuildFix.Json
