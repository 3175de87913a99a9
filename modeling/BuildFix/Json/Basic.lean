import BuildFix.Text.Blank

/-!
# JSON values

A value keeps what its text shows.  The members of an object stay in the order
of the text, a repeated name stays repeated, and a number is its numeral.

`Json.opens` counts the arrays and objects that are open at once at the deepest
place of a value.
-/

namespace BuildFix

/-- A JSON value. -/
inductive Json where
  /-- The value `null`. -/
  | null
  /-- A truth value. -/
  | bool (b : Bool)
  /-- A number, as its numeral. -/
  | number (numeral : String)
  /-- A string. -/
  | string (s : String)
  /-- An array. -/
  | array (items : List Json)
  /-- An object, with its members in order. -/
  | object (members : List (String × Json))
deriving Repr, Inhabited

namespace Json

/-- An integer as a value. -/
def int (n : Int) : Json := number (toString n)

/-- A natural number as a value. -/
def nat (n : Nat) : Json := number (toString n)

/-- A list of strings as a value. -/
def strings (ss : List String) : Json := array (ss.map string)

/-- The value of the first member named `key`. -/
def get? (key : String) : Json → Option Json
  | object members => members.lookup key
  | _ => none

mutual

/-- The number of arrays and objects open at once at the deepest place. -/
def opens : Json → Nat
  | array items => opensItems items + 1
  | object members => opensMembers members + 1
  | _ => 0

/-- The deepest place of a list of values. -/
def opensItems : List Json → Nat
  | [] => 0
  | v :: vs => max v.opens (opensItems vs)

/-- The deepest place of a list of members. -/
def opensMembers : List (String × Json) → Nat
  | [] => 0
  | (_, v) :: ms => max v.opens (opensMembers ms)

end

example : (array [object [("a", null)], null]).opens = 2 := by decide

end Json

end BuildFix
