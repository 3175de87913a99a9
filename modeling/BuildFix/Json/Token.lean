import BuildFix.Json.Basic

/-!
# The tokens of a JSON text

The scanner reads a text one character at a time.  Its `Mode` says what it is
in the middle of, and `Mode.step` gives the tokens a character completes and the
next mode.

A text that is not JSON has tokens too, up to the first character that no token
allows.  There the scanner puts the token `fault` and stops.

A string may hold escapes of surrogate halves.  A high half followed at once by
a low one is one character.  Any other half spells no character, and then the
token carries no string.
-/

namespace BuildFix.Json

/-- A lexical unit of a JSON text. -/
inductive Token where
  /-- The character `[`. -/
  | openArray
  /-- The character `]`. -/
  | closeArray
  /-- The character `{`. -/
  | openObject
  /-- The character `}`. -/
  | closeObject
  /-- The character `,`. -/
  | comma
  /-- The character `:`. -/
  | colon
  /-- The word `null`. -/
  | null
  /-- The word `true` or `false`. -/
  | bool (b : Bool)
  /-- A numeral. -/
  | number (numeral : String)
  /-- A string, unless it has a lone surrogate half. -/
  | string (s : Option String)
  /-- The place where the text stops being JSON. -/
  | fault
deriving DecidableEq, Repr, Inhabited

/-! ## Strings -/

/-- A piece of a string between its quotes. -/
inductive Piece where
  /-- A character. -/
  | char (c : Char)
  /-- An escaped surrogate half. -/
  | half (unit : Nat)
deriving DecidableEq, Repr

/-- The piece that an escape of four hexadecimal digits spells. -/
def Piece.ofUnit (unit : Nat) : Piece :=
  if 0xd800 ≤ unit && unit < 0xe000 then .half unit else .char (Char.ofNat unit)

/-- The characters that pieces spell, if every surrogate half has its partner. -/
def spell : List Piece → Option (List Char)
  | [] => some []
  | .char c :: ps => (spell ps).map (c :: ·)
  | .half high :: .half low :: ps =>
      if high < 0xdc00 && 0xdc00 ≤ low then
        (spell ps).map (Char.ofNat (0x10000 + (high - 0xd800) * 0x400 + (low - 0xdc00)) :: ·)
      else none
  | .half _ :: _ => none

/-- The token of a string whose pieces were read last to first. -/
def Token.ofPieces (seen : List Piece) : Token := .string ((spell seen.reverse).map String.ofList)

/-- The character that a letter after a backslash stands for. -/
def unescape? : Char → Option Char
  | '"' => some '"'
  | '\\' => some '\\'
  | '/' => some '/'
  | 'b' => some '\x08'
  | 'f' => some '\x0c'
  | 'n' => some '\n'
  | 'r' => some '\r'
  | 't' => some '\t'
  | _ => none

/-- The value of a hexadecimal digit. -/
def hexValue? (c : Char) : Option Nat :=
  if '0' ≤ c && c ≤ '9' then some (c.toNat - '0'.toNat)
  else if 'a' ≤ c && c ≤ 'f' then some (c.toNat - 'a'.toNat + 10)
  else if 'A' ≤ c && c ≤ 'F' then some (c.toNat - 'A'.toNat + 10)
  else none

/-! ## Numerals -/

/-- The part of a numeral that was read last. -/
inductive Stage where
  /-- The sign in front. -/
  | minus
  /-- The single digit `0` in front. -/
  | zero
  /-- The digits in front, of which the first is not `0`. -/
  | whole
  /-- The decimal point. -/
  | point
  /-- The digits after the point. -/
  | fraction
  /-- The letter of the exponent. -/
  | letter
  /-- The sign of the exponent. -/
  | sign
  /-- The digits of the exponent. -/
  | exponent
deriving DecidableEq, Repr

/-- Decide whether a numeral may end here. -/
def Stage.isComplete : Stage → Bool
  | zero | whole | fraction | exponent => true
  | minus | point | letter | sign => false

/-- The stage after one more character, if the numeral goes on with it. -/
def Stage.next? (s : Stage) (c : Char) : Option Stage :=
  match s with
  | minus => if c = '0' then some zero else if c.isDigit then some whole else none
  | zero => if c = '.' then some point else if c = 'e' || c = 'E' then some letter else none
  | whole =>
      if c.isDigit then some whole else if c = '.' then some point
      else if c = 'e' || c = 'E' then some letter else none
  | point => if c.isDigit then some fraction else none
  | fraction =>
      if c.isDigit then some fraction else if c = 'e' || c = 'E' then some letter else none
  | letter =>
      if c.isDigit then some exponent else if c = '+' || c = '-' then some sign else none
  | sign | exponent => if c.isDigit then some exponent else none

/-! ## The scanner -/

/-- What the scanner is in the middle of. -/
inductive Mode where
  /-- Between two tokens. -/
  | between
  /-- In a word, with the letters still to come. -/
  | word (rest : List Char) (token : Token)
  /-- In a numeral, with the characters read last to first. -/
  | numeral (stage : Stage) (seen : List Char)
  /-- In a string, with the pieces read last to first. -/
  | text (seen : List Piece)
  /-- In a string, after a backslash. -/
  | escape (seen : List Piece)
  /-- In an escape by code, with the number of digits to come. -/
  | code (seen : List Piece) (left : Nat) (value : Nat)
  /-- Behind the fault. -/
  | stopped
deriving DecidableEq, Repr

/-- Decide whether a character may stand between two tokens. -/
def isSpace (c : Char) : Bool := c = ' ' || c = '\t' || c = '\n' || c = '\r'

/-- The tokens that the first character after a token completes, and the mode
after it. -/
def Mode.start (c : Char) : List Token × Mode :=
  if isSpace c then ([], between)
  else if c.isDigit then ([], numeral (if c = '0' then .zero else .whole) [c])
  else match c with
    | '[' => ([.openArray], between)
    | ']' => ([.closeArray], between)
    | '{' => ([.openObject], between)
    | '}' => ([.closeObject], between)
    | ',' => ([.comma], between)
    | ':' => ([.colon], between)
    | '"' => ([], text [])
    | '-' => ([], numeral .minus ['-'])
    | 'n' => ([], word ['u', 'l', 'l'] .null)
    | 't' => ([], word ['r', 'u', 'e'] (.bool true))
    | 'f' => ([], word ['a', 'l', 's', 'e'] (.bool false))
    | _ => ([.fault], stopped)

/-- The token of a numeral whose characters were read last to first. -/
def Token.ofNumeral (seen : List Char) : Token := .number (String.ofList seen.reverse)

/-- The tokens that one character completes, and the mode after it. -/
def Mode.step (m : Mode) (c : Char) : List Token × Mode :=
  match m with
  | between => start c
  | word rest token =>
      if rest.head? = some c then
        if rest.tail = [] then ([token], between) else ([], word rest.tail token)
      else ([.fault], stopped)
  | numeral stage seen =>
      match stage.next? c with
      | some stage' => ([], numeral stage' (c :: seen))
      | none =>
          if stage.isComplete && !c.isDigit then
            (.ofNumeral seen :: (start c).1, (start c).2)
          else ([.fault], stopped)
  | text seen =>
      if c = '"' then ([.ofPieces seen], between)
      else if c = '\\' then ([], escape seen)
      else if c < ' ' then ([.fault], stopped)
      else ([], text (.char c :: seen))
  | escape seen =>
      if c = 'u' then ([], code seen 3 0)
      else match unescape? c with
        | some d => ([], text (.char d :: seen))
        | none => ([.fault], stopped)
  | code seen left value =>
      match hexValue? c with
      | none => ([.fault], stopped)
      | some d =>
          match left with
          | 0 => ([], text (.ofUnit (value * 16 + d) :: seen))
          | left + 1 => ([], code seen left (value * 16 + d))
  | stopped => ([], stopped)

/-- The tokens at the end of the text. -/
def Mode.finish : Mode → List Token
  | between | stopped => []
  | numeral stage seen => if stage.isComplete then [.ofNumeral seen] else [.fault]
  | word .. | text .. | escape .. | code .. => [.fault]

/-- The tokens of a text, after those of `done`, which stand last to first. -/
def scan (m : Mode) (done : List Token) : List Char → List Token
  | [] => done.reverse ++ m.finish
  | c :: cs => scan (m.step c).2 ((m.step c).1.reverse ++ done) cs

/-- The tokens of a text. -/
def tokens (cs : List Char) : List Token := scan .between [] cs

theorem scan_eq_append (m : Mode) (done : List Token) (cs : List Char) :
    scan m done cs = done.reverse ++ scan m [] cs := by
  induction cs generalizing m done with
  | nil => simp [scan]
  | cons c cs ih =>
      rw [scan, ih, scan, ih (m.step c).2 ((m.step c).1.reverse ++ [])]
      simp

/-- One character of a text, as the tokens it completes and the scan from the
mode after it. -/
theorem scan_cons (m : Mode) (c : Char) (cs : List Char) :
    scan m [] (c :: cs) = (m.step c).1 ++ scan (m.step c).2 [] cs := by
  rw [scan, scan_eq_append]
  simp

example : tokens "[-1.5e3, \"a\\u00e9\"]".toList =
    [.openArray, .number "-1.5e3", .comma, .string (some "aé"), .closeArray] := by decide +kernel
example : tokens "\"\\ud83d\\ude00\" \"\\ud83d\"".toList =
    [.string (some "😀"), .string none] := by decide +kernel
example : tokens "[01".toList = [.openArray, .fault] := by decide +kernel

end BuildFix.Json
