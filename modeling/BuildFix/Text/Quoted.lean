import BuildFix.Text.Unprintable

/-!
# Quoted texts

Messages show a name between double quotes, so that a reader sees where it
starts and ends and which characters it has.  A quote and a backslash get a
backslash before them, and five control characters have a letter.  Every other
unprintable character is its code point in hexadecimal, as in `\u{200b}`.  All
other characters stand for themselves.
-/

namespace BuildFix.Text

/-- The lower-case hexadecimal digits of a number, without leading zeros. -/
def hexDigits (n : Nat) : List Char := Nat.toDigits 16 n

/-- A character as it stands in a quoted text. -/
def quotedChar (c : Char) : List Char :=
  if c = '"' then ['\\', '"']
  else if c = '\\' then ['\\', '\\']
  else if c = '\n' then ['\\', 'n']
  else if c = '\r' then ['\\', 'r']
  else if c = '\t' then ['\\', 't']
  else if c = '\x00' then ['\\', '0']
  else if isUnprintable c then ['\\', 'u', '{'] ++ hexDigits c.toNat ++ ['}']
  else [c]

/-- A name as messages show it. -/
def quoted (s : String) : String :=
  String.ofList ('"' :: s.toList.flatMap quotedChar ++ ['"'])

theorem quoted_toList (s : String) :
    (quoted s).toList = '"' :: s.toList.flatMap quotedChar ++ ['"'] := by
  simp [quoted]

example : quoted "a\"b\\c" = "\"a\\\"b\\\\c\"" := by decide +kernel
example : quoted "\x01é\u200b" = "\"\\u\x7b1\x7dé\\u\x7b200b\x7d\"" := by decide +kernel

end BuildFix.Text
