import BuildFix.Toml.Basic
import BuildFix.Toml.Scalar

/-!
# Reading TOML

A reader takes characters from the front of a text and gives what they spell and
the rest.  It gives nothing if the text does not fit.

Readers that go on for as long as the text does are bounded by a number, which
is set to more than twice the length of the text where reading starts (`parse?`).
Of three rounds two take a character at least, so the bound is never reached.

Arrays and inline tables may spread over lines, and a comma may follow their last
item.  At most `nesting` of them may be open at once, and a key has at most as
many parts.  A text of several lines keeps its line ends as they are.
-/

namespace BuildFix.Toml

/-- How many arrays and inline tables may be open at once, and how many parts a key
may have. -/
def nesting : Nat := 80

/-! ## Blanks and lines -/

/-- Decide whether a character may stand in a comment or a text.  A tab may, and
no other control character. -/
def isTextChar (c : Char) : Bool := c = '\t' || (' ' ≤ c && c ≠ '\x7f')

/-- The rest of a text behind blanks. -/
def skipBlanks (cs : List Char) : List Char := cs.dropWhile fun c => c = ' ' || c = '\t'

/-- The rest of a text behind a line end. -/
def lineEnd? : List Char → Option (List Char)
  | '\n' :: cs => some cs
  | '\r' :: '\n' :: cs => some cs
  | _ => none

/-- The rest of a text behind a comment, if there is one. -/
def skipComment : List Char → List Char
  | '#' :: cs => cs.dropWhile isTextChar
  | cs => cs

/-- The rest of a text behind blanks, comments and line ends. -/
def skipLines : Nat → List Char → List Char
  | 0, cs => cs
  | bound + 1, cs =>
      let cs := skipComment (skipBlanks cs)
      match lineEnd? cs with
      | some cs => skipLines bound cs
      | none => cs

/-- The rest of a text behind blanks and line ends. -/
def skipGap : List Char → List Char
  | '\r' :: '\n' :: cs => skipGap cs
  | c :: cs => if c = ' ' || c = '\t' || c = '\n' then skipGap cs else c :: cs
  | [] => []

/-! ## Texts -/

/-- The character that hexadecimal digits spell. -/
def charOf? (ds : List Char) : Option Char :=
  let n := valueOf 16 ds
  if ds.all isHexDigit && n.isValidChar then some (Char.ofNat n) else none

/-- The character that an escape spells, behind its backslash. -/
def escape? : List Char → Option (Char × List Char)
  | 'b' :: cs => some ('\x08', cs)
  | 't' :: cs => some ('\t', cs)
  | 'n' :: cs => some ('\n', cs)
  | 'f' :: cs => some ('\x0c', cs)
  | 'r' :: cs => some ('\r', cs)
  | 'e' :: cs => some ('\x1b', cs)
  | '"' :: cs => some ('"', cs)
  | '\\' :: cs => some ('\\', cs)
  | 'x' :: cs => ofCode 2 cs
  | 'u' :: cs => ofCode 4 cs
  | 'U' :: cs => ofCode 8 cs
  | _ => none
where
  /-- The character with a code of so many digits. -/
  ofCode (count : Nat) (cs : List Char) : Option (Char × List Char) :=
    if (cs.take count).length < count then none
    else (charOf? (cs.take count)).map fun c => (c, cs.drop count)

/-- A character in front of what was read. -/
def push (c : Char) (r : List Char × List Char) : List Char × List Char := (c :: r.1, r.2)

/-- The text up to a double quote. -/
def basic? : Nat → List Char → Option (List Char × List Char)
  | 0, _ => none
  | bound + 1, cs =>
      match cs with
      | '"' :: cs => some ([], cs)
      | '\\' :: cs => do
          let (c, cs) ← escape? cs
          (basic? bound cs).map (push c)
      | c :: cs => if isTextChar c then (basic? bound cs).map (push c) else none
      | [] => none

/-- The text up to a single quote. -/
def literal? (cs : List Char) : Option (List Char × List Char) :=
  let body := cs.takeWhile fun c => isTextChar c && c ≠ '\''
  match cs.drop body.length with
  | '\'' :: cs => some (body, cs)
  | _ => none

/-- The text of several lines up to three quotes.  Two more quotes may stand in
front of those.  Escapes are looked at only if `escapes` says so, and a backslash
at the end of a line takes away the blanks and line ends behind it. -/
def lines? (quote : Char) (escapes : Bool) : Nat → List Char → Option (List Char × List Char)
  | 0, _ => none
  | bound + 1, cs =>
      let quotes := (cs.takeWhile (· = quote)).length
      if 3 ≤ quotes then
        if quotes ≤ 5 then some (List.replicate (quotes - 3) quote, cs.drop quotes) else none
      else match cs with
        | '\n' :: cs => (lines? quote escapes bound cs).map (push '\n')
        | '\r' :: '\n' :: cs =>
            (lines? quote escapes bound cs).map fun r => push '\r' (push '\n' r)
        | '\\' :: cs =>
            if escapes then
              match lineEnd? (skipBlanks cs) with
              | some cs => lines? quote escapes bound (skipGap cs)
              | none => do
                  let (c, cs) ← escape? cs
                  (lines? quote escapes bound cs).map (push c)
            else (lines? quote escapes bound cs).map (push '\\')
        | c :: cs => if isTextChar c then (lines? quote escapes bound cs).map (push c) else none
        | [] => none

/-- A text behind its first line end. -/
def dropLineEnd (cs : List Char) : List Char := (lineEnd? cs).getD cs

/-- A text as a value. -/
def text? (bound : Nat) : List Char → Option (List Char × List Char)
  | '"' :: '"' :: '"' :: cs => lines? '"' true bound (dropLineEnd cs)
  | '\'' :: '\'' :: '\'' :: cs => lines? '\'' false bound (dropLineEnd cs)
  | '"' :: cs => basic? bound cs
  | '\'' :: cs => literal? cs
  | _ => none

/-! ## Keys -/

/-- Decide whether a character may stand in a key without quotes. -/
def isKeyChar (c : Char) : Bool := c.isAlphanum || c = '_' || c = '-'

/-- A key without dots. -/
def simpleKey? (bound : Nat) : List Char → Option (String × List Char)
  | '"' :: cs => (basic? bound cs).map fun r => (String.ofList r.1, r.2)
  | '\'' :: cs => (literal? cs).map fun r => (String.ofList r.1, r.2)
  | cs =>
      let key := cs.takeWhile isKeyChar
      if key.isEmpty then none else some (String.ofList key, cs.drop key.length)

/-- The parts of a key, with dots between them. -/
def parts? : Nat → List Char → Option (List String × List Char)
  | 0, _ => none
  | bound + 1, cs => do
      let (key, cs) ← simpleKey? bound (skipBlanks cs)
      match skipBlanks cs with
      | '.' :: cs => (parts? bound cs).map fun r => (key :: r.1, r.2)
      | cs => some ([key], cs)

/-- A key, which may be dotted. -/
def key? (bound : Nat) (cs : List Char) : Option (List String × List Char) :=
  (parts? bound cs).filter fun r => r.1.length ≤ nesting

/-! ## Values -/

/-- Decide whether a character may stand in a word.  All characters may, but those
that mean something of their own. -/
def isAtomChar (c : Char) : Bool :=
  ['.', '=', ',', '[', ']', '{', '}', '#', ' ', '\t', '\r', '\n'].all fun d => c ≠ d

/-- Decide whether a text starts with a word. -/
def startsWord (cs : List Char) : Bool :=
  cs.head?.any fun c => isAtomChar c && c ≠ '"' && c ≠ '\''

/-- The words in front of a text, with the points and blanks between them, and the
rest.  Blanks that no word follows belong to the rest. -/
def splitWords : List Char → List Char × List Char
  | [] => ([], [])
  | c :: cs =>
      if isAtomChar c || c = '.' || (c = ' ' || c = '\t') && startsWord (skipBlanks cs) then
        push c (splitWords cs)
      else ([], c :: cs)

/-- A scalar.  It goes on over blanks, since a time may follow a date behind one. -/
def scalar? (cs : List Char) : Option (Value × List Char) :=
  let (words, rest) := splitWords cs
  (Scalar.ofWord? words).map fun s => (.scalar s, rest)

mutual

/-- A value, in which at most `room` arrays and inline tables are open at once. -/
def value? : Nat → Nat → List Char → Option (Value × List Char)
  | 0, _, _ => none
  | bound + 1, room, cs =>
      match cs, room with
      | '[' :: _, 0 | '{' :: _, 0 => none
      | '[' :: cs, room + 1 =>
          (items? bound room (skipLines bound cs)).map fun r => (.array r.1, r.2)
      | '{' :: cs, room + 1 =>
          (pairs? bound room [] (skipLines bound cs)).map fun r =>
            (.table (memberValues r.1), r.2)
      | c :: _, _ =>
          if c = '"' || c = '\'' then
            (text? bound cs).map fun r => (.text (String.ofList r.1), r.2)
          else scalar? cs
      | [], _ => none

/-- The items of an array, up to its end. -/
def items? : Nat → Nat → List Char → Option (List Value × List Char)
  | 0, _, _ => none
  | bound + 1, room, cs =>
      match cs with
      | ']' :: cs => some ([], cs)
      | cs => do
          let (v, cs) ← value? bound room cs
          match skipLines bound cs with
          | ',' :: cs => (items? bound room (skipLines bound cs)).map fun r => (v :: r.1, r.2)
          | ']' :: cs => some ([v], cs)
          | _ => none

/-- The pairs of an inline table behind those of `ms`, up to its end. -/
def pairs? : Nat → Nat → Members → List Char → Option (Members × List Char)
  | 0, _, _, _ => none
  | bound + 1, room, ms, cs =>
      match cs with
      | '}' :: cs => some (ms, cs)
      | cs => do
          let (key, cs) ← key? bound cs
          let cs ← skip? '=' (skipLines bound cs)
          let (v, cs) ← value? bound room (skipLines bound cs)
          let ms ← put v true key ms
          match skipLines bound cs with
          | ',' :: cs => pairs? bound room ms (skipLines bound cs)
          | '}' :: cs => some (ms, cs)
          | _ => none

end

/-! ## Documents -/

/-- A document being read. -/
structure Draft where
  /-- The tables so far. -/
  members : Members := []
  /-- The header that the next pairs belong to. -/
  header : List String := []

/-- One line of a document, behind its blanks.  The rest starts where the line is
over. -/
def line? (bound : Nat) (d : Draft) : List Char → Option (Draft × List Char)
  | '[' :: '[' :: cs => do
      let (key, cs) ← key? bound cs
      let cs ← skip? ']' (← skip? ']' cs)
      some (⟨← openElement key d.members, key⟩, cs)
  | '[' :: cs => do
      let (key, cs) ← key? bound cs
      let cs ← skip? ']' cs
      some (⟨← openTable key d.members, key⟩, cs)
  | cs => do
      let (key, cs) ← key? bound cs
      let cs ← skip? '=' cs
      let (v, cs) ← value? bound nesting (skipBlanks cs)
      some ({ d with members := ← atTable (put v true key) d.header d.members }, cs)

/-- The lines of a document. -/
def document? : Nat → Draft → List Char → Option Draft
  | 0, _, _ => none
  | bound + 1, d, cs =>
      match skipLines bound cs with
      | [] => some d
      | cs => do
          let (d, cs) ← line? bound d cs
          match skipComment (skipBlanks cs) with
          | [] => some d
          | cs => document? bound d (← lineEnd? cs)

/-- The document that a text spells.  A byte order mark may stand in front. -/
def parse? (text : String) : Option Value :=
  let cs := text.toList
  let cs := if cs.head? = some '\ufeff' then cs.tail else cs
  (document? (2 * cs.length + 8) {} cs).map fun d => .table (memberValues d.members)

end BuildFix.Toml
