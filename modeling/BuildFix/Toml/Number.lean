/-!
# The numbers of TOML

A number is an integer, which may be written to the base 16, 8 or 2, or it has a
fraction or an exponent, or it is one of the words `inf` and `nan`.  Single
underscores may stand between its digits.  A decimal number has no needless zero
in front.

An integer may be without a value.  One kind is the mark of a base without digits.
The other is a decimal integer with an underscore that goes on with something else:
it is taken for an integer as long as every underscore stands between hexadecimal
digits.

Not every number can be held.  An integer has to have a value, which fits into 128
bits.  A number with a fraction or an exponent is held as a double, and must not
be rounded to infinity.  `isFinite_natCast` and `isFinite_negSucc` say that this
is decided exactly.
-/

namespace BuildFix.Toml

/-- A number as it is written. -/
inductive Number where
  /-- An integer, which may be without a value. -/
  | integer (value : Option Int)
  /-- A number that is `digits` times a power of ten, without its sign. -/
  | scaled (digits : Nat) (exponent : Int)
  /-- Infinity, or what is no number. -/
  | named
deriving DecidableEq, Repr, Inhabited

/-! ## Digits -/

/-- The groups of characters between underscores. -/
def groups : List Char → List (List Char)
  | [] => [[]]
  | c :: cs =>
      if c = '_' then [] :: groups cs
      else match groups cs with
        | [] => [[c]]
        | g :: gs => (c :: g) :: gs

/-- Decide whether a text is digits with single underscores between them. -/
def isDigits (digit : Char → Bool) (cs : List Char) : Bool :=
  (groups cs).all fun g => !g.isEmpty && g.all digit

/-- Decide whether a text is a decimal number without a sign. -/
def isWhole (cs : List Char) : Bool :=
  isDigits Char.isDigit cs && (cs.length == 1 || cs.head? != some '0')

/-- Decide whether a character is a hexadecimal digit. -/
def isHexDigit (c : Char) : Bool :=
  c.isDigit || ('a' ≤ c && c ≤ 'f') || ('A' ≤ c && c ≤ 'F')

/-- The value of a digit. -/
def digitOf (c : Char) : Nat :=
  if c.isDigit then c.toNat - '0'.toNat else c.toLower.toNat - 'a'.toNat + 10

/-- The value of digits in a base. -/
def valueOf (base : Nat) (cs : List Char) : Nat :=
  cs.foldl (fun n c => if c = '_' then n else n * base + digitOf c) 0

/-- The digits in front of a text, with their underscores, and the rest. -/
def splitDigits (cs : List Char) : List Char × List Char :=
  cs.span fun c => c.isDigit || c = '_'

/-! ## Signs -/

/-- A text without the sign in front. -/
def unsigned : List Char → List Char
  | '+' :: cs | '-' :: cs => cs
  | cs => cs

/-- A number with the sign of a text. -/
def withSign (cs : List Char) (n : Nat) : Int := if cs.head? = some '-' then -n else n

/-! ## Reading -/

namespace Number

/-- An integer in a base, behind the mark of the base. -/
def based? (base : Nat) (ds : List Char) : Option Number :=
  if ds.isEmpty then some (.integer none)
  else if isDigits (fun c => isHexDigit c && digitOf c < base) ds then
    some (.integer (some (valueOf base ds)))
  else none

/-- Decide whether every underscore behind the first character of a text stands
between hexadecimal digits. -/
def isLinked : List Char → Bool
  | c :: '_' :: cs => isHexDigit c && cs.head?.any isHexDigit && isLinked cs
  | _ :: cs => isLinked cs
  | [] => true

/-- Decide whether a text without a sign is a decimal integer with an underscore,
whatever it goes on with.  A zero in front would be needless, and a point, the letter
of an exponent or a space would make it something else. -/
def isLoose (cs : List Char) : Bool :=
  let (digits, rest) := splitDigits cs
  (cs.head?.any fun c => c.isDigit && c ≠ '0') && digits.contains '_' &&
    rest.all (fun c => c ≠ '.' && c ≠ 'e' && c ≠ 'E' && c ≠ ' ') && isLinked cs

/-- A decimal integer. -/
def whole? (cs : List Char) : Option Number :=
  let ds := unsigned cs
  if isWhole ds then some (.integer (some (withSign cs (valueOf 10 ds))))
  else if isLoose ds then some (.integer none)
  else none

/-- The exponent of a number, which may be missing. -/
def exponent? : List Char → Option Int
  | [] => some 0
  | c :: cs =>
      if (c = 'e' || c = 'E') && isDigits Char.isDigit (unsigned cs) then
        some (withSign cs (valueOf 10 (unsigned cs)))
      else none

/-- A number with a fraction or an exponent. -/
def scaled? (cs : List Char) : Option Number :=
  let (whole, rest) := splitDigits (unsigned cs)
  if isWhole whole then
    match rest with
    | '.' :: rest =>
        let (fraction, rest) := splitDigits rest
        if isDigits Char.isDigit fraction then
          (exponent? rest).map fun e =>
            .scaled (valueOf 10 (whole ++ fraction)) (e - fraction.countP Char.isDigit)
        else none
    | rest => (exponent? rest).map (.scaled (valueOf 10 whole))
  else none

/-- One of the words for a number. -/
def named? (cs : List Char) : Option Number :=
  let word := unsigned cs
  if word = ['i', 'n', 'f'] || word = ['n', 'a', 'n'] then some .named else none

/-- The number that a word spells. -/
def ofWord? : List Char → Option Number
  | '0' :: 'x' :: ds => based? 16 ds
  | '0' :: 'o' :: ds => based? 8 ds
  | '0' :: 'b' :: ds => based? 2 ds
  | cs => whole? cs <|> scaled? cs <|> named? cs

/-! ## Numbers that can be held -/

/-- The least number that a double rounds to infinity. -/
def doubleLimit : Nat := Nat.pow 2 1024 - Nat.pow 2 970

/-- Decide whether a double holds `digits` times a power of ten.  Large powers are
not computed: a number of two digits or more than 308 zeros is beyond every
double, and one with more places than bits is below one. -/
def isFinite (digits : Nat) : Int → Bool
  | .ofNat e => digits = 0 || (e ≤ 308 && digits * Nat.pow 10 e < doubleLimit)
  | .negSucc e => digits.log2 ≤ e || digits < doubleLimit * Nat.pow 10 (e + 1)

/-- Decide whether a number can be held. -/
def isHeld : Number → Bool
  | integer none => false
  | integer (some n) => -(Nat.pow 2 127 : Nat) ≤ n && n < (Nat.pow 2 128 : Nat)
  | scaled digits e => isFinite digits e
  | named => true

/-- One with more than 308 zeros is beyond every double. -/
theorem doubleLimit_lt {e : Nat} (h : 308 < e) : doubleLimit < Nat.pow 10 e := by
  obtain ⟨k, rfl⟩ : ∃ k, e = 103 + (206 + k) := ⟨e - 309, by omega⟩
  have hs : doubleLimit < Nat.pow 10 103 * Nat.pow 10 206 := by decide +kernel
  have hp : Nat.pow 10 206 ≤ Nat.pow 10 (206 + k) := Nat.pow_le_pow_right (by decide) (by omega)
  have he : Nat.pow 10 (103 + (206 + k)) = Nat.pow 10 103 * Nat.pow 10 (206 + k) :=
    Nat.pow_add 10 103 (206 + k)
  rw [he]
  exact Nat.lt_of_lt_of_le hs (Nat.mul_le_mul_left _ hp)

/-- A number with zeros behind its digits is decided by its value. -/
theorem isFinite_natCast (digits e : Nat) :
    isFinite digits (e : Int) = true ↔ digits * Nat.pow 10 e < doubleLimit := by
  show isFinite digits (.ofNat e) = true ↔ _
  rcases Nat.eq_zero_or_pos digits with rfl | hd
  · have h : 0 < doubleLimit := by decide +kernel
    simp [isFinite, h]
  · by_cases he : e ≤ 308
    · simp [isFinite, he, Nat.ne_of_gt hd]
    · have hp : doubleLimit < Nat.pow 10 e := doubleLimit_lt (by omega)
      have hm : Nat.pow 10 e ≤ digits * Nat.pow 10 e := Nat.le_mul_of_pos_left _ hd
      simp only [isFinite, he, Nat.ne_of_gt hd, decide_false, Bool.false_and, Bool.or_false,
        Bool.false_eq_true, false_iff]
      omega

/-- A number with places behind the point is decided by its value. -/
theorem isFinite_negSucc (digits e : Nat) :
    isFinite digits (.negSucc e) = true ↔ digits < doubleLimit * Nat.pow 10 (e + 1) := by
  by_cases he : digits.log2 ≤ e
  · have hd : digits < Nat.pow 2 (e + 1) :=
      Nat.lt_of_lt_of_le Nat.lt_log2_self (Nat.pow_le_pow_right (by decide) (by omega))
    have hp : Nat.pow 2 (e + 1) ≤ Nat.pow 10 (e + 1) := Nat.pow_le_pow_left (by decide) _
    have hm : Nat.pow 10 (e + 1) ≤ doubleLimit * Nat.pow 10 (e + 1) :=
      Nat.le_mul_of_pos_left _ (by decide +kernel)
    simp only [isFinite, he, decide_true, Bool.true_or, true_iff]
    omega
  · simp [isFinite, he]

end Number

example : Number.ofWord? "1_000".toList = some (.integer (some 1000)) ∧
    Number.ofWord? "0xDEAD_beef".toList = some (.integer (some 3735928559)) ∧
    Number.ofWord? "0x".toList = some (.integer none) ∧
    Number.ofWord? "-1_0x".toList = some (.integer none) ∧
    Number.ofWord? "-6.02e+23".toList = some (.scaled 602 21) := by decide +kernel
example : Number.ofWord? "01".toList = none ∧ Number.ofWord? "1__0".toList = none ∧
    Number.ofWord? "1.".toList = none ∧ Number.ofWord? "-0x1".toList = none ∧
    Number.ofWord? "1_x".toList = none ∧ Number.ofWord? "0_a".toList = none := by decide +kernel

end BuildFix.Toml
