import BuildFix.Json.Basic

/-!
# Printing JSON

A value is printed under a `Layout`, which says what stands before an item at a
given depth and what stands after the colon of a member.  `Layout.compact` puts
nothing there.  `Layout.pretty` puts every item on a line of its own, two blanks
deeper than its container, and a blank after a colon.  An empty array and an
empty object have nothing between their brackets under any layout.

In a string only the quote, the backslash and the characters below the blank are
escaped, five of those by a letter and the others by four hexadecimal digits.
-/

namespace BuildFix.Json

/-! ## Strings -/

/-- A character as it stands in a JSON string. -/
def escapeChar (c : Char) : List Char :=
  if c = '"' then ['\\', '"']
  else if c = '\\' then ['\\', '\\']
  else if c = '\x08' then ['\\', 'b']
  else if c = '\x0c' then ['\\', 'f']
  else if c = '\n' then ['\\', 'n']
  else if c = '\r' then ['\\', 'r']
  else if c = '\t' then ['\\', 't']
  else if c < ' ' then
    ['\\', 'u', '0', '0', Nat.digitChar (c.toNat / 16), Nat.digitChar (c.toNat % 16)]
  else [c]

/-- The characters of a string, escaped. -/
def escape (s : String) : List Char := s.toList.flatMap escapeChar

/-- A string with its quotes. -/
def stringChars (s : String) : List Char := '"' :: (escape s ++ ['"'])

/-! ## Values -/

/-- The parts of a printed value that carry no meaning. -/
structure Layout where
  /-- What stands before an item, or before a closing bracket, at a depth. -/
  lineBreak : Nat → List Char
  /-- What stands after the colon of a member. -/
  gap : List Char

/-- Nothing but what the value needs. -/
def Layout.compact : Layout := ⟨fun _ => [], []⟩

/-- Every item on its own line, indented by two blanks for each level. -/
def Layout.pretty : Layout := ⟨fun depth => '\n' :: List.replicate (2 * depth) ' ', [' ']⟩

mutual

/-- A value as text, where `depth` containers are open. -/
def print (lay : Layout) (depth : Nat) : Json → List Char
  | null => "null".toList
  | bool true => "true".toList
  | bool false => "false".toList
  | number numeral => numeral.toList
  | string s => stringChars s
  | array [] => ['[', ']']
  | array (v :: vs) =>
      '[' :: (lay.lineBreak (depth + 1) ++ print lay (depth + 1) v ++
        printItems lay (depth + 1) vs ++ lay.lineBreak depth ++ [']'])
  | object [] => ['{', '}']
  | object ((key, v) :: ms) =>
      '{' :: (lay.lineBreak (depth + 1) ++ stringChars key ++ ':' :: lay.gap ++
        print lay (depth + 1) v ++ printMembers lay (depth + 1) ms ++ lay.lineBreak depth ++ ['}'])

/-- The items of an array after the first. -/
def printItems (lay : Layout) (depth : Nat) : List Json → List Char
  | [] => []
  | v :: vs => ',' :: (lay.lineBreak depth ++ print lay depth v ++ printItems lay depth vs)

/-- The members of an object after the first. -/
def printMembers (lay : Layout) (depth : Nat) : List (String × Json) → List Char
  | [] => []
  | (key, v) :: ms =>
      ',' :: (lay.lineBreak depth ++ stringChars key ++ ':' :: lay.gap ++ print lay depth v ++
        printMembers lay depth ms)

end

/-- A value as text without blanks. -/
def compact (v : Json) : String := String.ofList (print .compact 0 v)

/-- A value as text with a line for each item. -/
def pretty (v : Json) : String := String.ofList (print .pretty 0 v)

example : (object [("a", array [null, int (-1)]), ("b", string "\n\x01")]).compact =
    "\x7b\"a\":[null,-1],\"b\":\"\\n\\u0001\"\x7d" := by decide +kernel
example : (array [array [], nat 7]).pretty = "[\n  [],\n  7\n]" := by decide +kernel

end BuildFix.Json
