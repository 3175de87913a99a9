import BuildFix.Json.Printer
import BuildFix.Json.Token

/-!
# The tokens of a printed value

A value without numbers is printed so that every token ends with its own last
character.  The scanner therefore needs not see what follows, and the tokens of
the printed text are the tokens of the value (`scan_print`), whatever stands
behind it.  The layout adds nothing but blanks (`Layout.Blank`), which leave no
tokens.

A character of a string is printed as it is or escaped, and the scanner comes to
the same character either way (`scan_escapeChar`).
-/

namespace BuildFix.Json

/-! ## Values without numbers -/

mutual

/-- Decide whether there is no number in a value. -/
def isPlain : Json → Bool
  | number _ => false
  | array items => arePlain items
  | object members => arePlainMembers members
  | null | bool _ | string _ => true

/-- Decide whether there is no number in a list of values. -/
def arePlain : List Json → Bool
  | [] => true
  | v :: vs => isPlain v && arePlain vs

/-- Decide whether there is no number in a list of members. -/
def arePlainMembers : List (String × Json) → Bool
  | [] => true
  | (_, v) :: ms => isPlain v && arePlainMembers ms

end

theorem arePlain_iff {vs : List Json} : arePlain vs = true ↔ ∀ v ∈ vs, v.isPlain = true := by
  induction vs with
  | nil => simp [arePlain]
  | cons v vs ih => simp [arePlain, ih]

theorem arePlainMembers_append (ms ns : List (String × Json)) :
    arePlainMembers (ms ++ ns) = (arePlainMembers ms && arePlainMembers ns) := by
  induction ms with
  | nil => rfl
  | cons m ms ih => rw [List.cons_append, arePlainMembers, ih, arePlainMembers, Bool.and_assoc]

/-! ## The tokens of a value -/

mutual

/-- The tokens that spell a value. -/
def lexemes : Json → List Token
  | null => [.null]
  | bool b => [.bool b]
  | number numeral => [.number numeral]
  | string s => [.string (some s)]
  | array [] => [.openArray, .closeArray]
  | array (v :: vs) => .openArray :: (lexemes v ++ (itemLexemes vs ++ [.closeArray]))
  | object [] => [.openObject, .closeObject]
  | object ((key, v) :: ms) =>
      .openObject :: .string (some key) :: .colon ::
        (lexemes v ++ (memberLexemes ms ++ [.closeObject]))

/-- The tokens that spell the items of an array after the first. -/
def itemLexemes : List Json → List Token
  | [] => []
  | v :: vs => .comma :: (lexemes v ++ itemLexemes vs)

/-- The tokens that spell the members of an object after the first. -/
def memberLexemes : List (String × Json) → List Token
  | [] => []
  | (key, v) :: ms => .comma :: .string (some key) :: .colon :: (lexemes v ++ memberLexemes ms)

end

/-! ## Blanks -/

/-- A layout that adds nothing but blanks. -/
structure Layout.Blank (lay : Layout) : Prop where
  /-- Blanks before an item. -/
  lineBreak : ∀ depth, ∀ c ∈ lay.lineBreak depth, isSpace c = true
  /-- Blanks after a colon. -/
  gap : ∀ c ∈ lay.gap, isSpace c = true

theorem Layout.blank_compact : Layout.compact.Blank where
  lineBreak _ _ h := nomatch h
  gap _ h := nomatch h

theorem Layout.blank_pretty : Layout.pretty.Blank where
  lineBreak depth c h := by
    rcases List.mem_cons.1 h with rfl | h
    · rfl
    · rw [List.eq_of_mem_replicate h]
      rfl
  gap c h := by
    rw [List.mem_singleton.1 h]
    rfl

/-- Blanks between two tokens leave no token. -/
theorem scan_blanks {blanks : List Char} (h : ∀ c ∈ blanks, isSpace c = true) (cs : List Char) :
    scan .between [] (blanks ++ cs) = scan .between [] cs := by
  induction blanks with
  | nil => rfl
  | cons c blanks ih =>
      have hstep : Mode.between.step c = ([], .between) := if_pos (h c List.mem_cons_self)
      rw [List.cons_append, scan_cons, hstep]
      exact ih fun d hd => h d (List.mem_cons_of_mem _ hd)

/-! ## Strings -/

theorem hexValue?_digitChar : ∀ d < 16, hexValue? (Nat.digitChar d) = some d := by
  decide

/-- A control character without a letter of its own has two significant digits. -/
theorem scan_hexEscape {c : Char} (h : c.toNat < 32) (seen : List Piece) (cs : List Char) :
    scan (.text seen) [] (['\\', 'u', '0', '0', Nat.digitChar (c.toNat / 16),
        Nat.digitChar (c.toNat % 16)] ++ cs) =
      scan (.text (.char c :: seen)) [] cs := by
  have hhigh := hexValue?_digitChar (c.toNat / 16) (by omega)
  have hlow := hexValue?_digitChar (c.toNat % 16) (by omega)
  have hvalue : c.toNat / 16 * 16 + c.toNat % 16 = c.toNat := by omega
  have hpiece : Piece.ofUnit c.toNat = .char c := by
    rw [Piece.ofUnit, if_neg (by simp; omega), Char.ofNat_toNat]
  have hzero : hexValue? '0' = some 0 := rfl
  simp only [List.cons_append, List.nil_append, scan_cons, Mode.step, hzero, hhigh, hlow]
  simp [hvalue, hpiece]

/-- The scanner comes to a character, however it is printed. -/
theorem scan_escapeChar (c : Char) (seen : List Piece) (cs : List Char) :
    scan (.text seen) [] (escapeChar c ++ cs) = scan (.text (.char c :: seen)) [] cs := by
  unfold escapeChar
  split
  next h => subst h; rfl
  split
  next h => subst h; rfl
  split
  next h => subst h; rfl
  split
  next h => subst h; rfl
  split
  next h => subst h; rfl
  split
  next h => subst h; rfl
  split
  next h => subst h; rfl
  split
  next h => exact scan_hexEscape h seen cs
  next hquote hback _ _ _ _ _ hctl =>
    rw [List.singleton_append, scan_cons, Mode.step, if_neg hquote, if_neg hback, if_neg hctl]
    rfl

theorem scan_escape (chars : List Char) (seen : List Piece) (cs : List Char) :
    scan (.text seen) [] (chars.flatMap escapeChar ++ cs) =
      scan (.text ((chars.map Piece.char).reverse ++ seen)) [] cs := by
  induction chars generalizing seen with
  | nil => rfl
  | cons c chars ih =>
      rw [List.flatMap_cons, List.append_assoc, scan_escapeChar, ih, List.map_cons,
        List.reverse_cons, List.append_assoc, List.singleton_append]

theorem spell_map_char (chars : List Char) : spell (chars.map Piece.char) = some chars := by
  induction chars with
  | nil => rfl
  | cons c chars ih => rw [List.map_cons, spell, ih, Option.map_some]

/-- The token of a printed string is the string. -/
theorem scan_stringChars (s : String) (cs : List Char) :
    scan .between [] (stringChars s ++ cs) = .string (some s) :: scan .between [] cs := by
  have hopen : Mode.between.step '"' = ([], .text []) := rfl
  have hclose : (Mode.text (s.toList.map Piece.char).reverse).step '"' =
      ([.string (some s)], .between) := by
    rw [Mode.step, if_pos rfl, Token.ofPieces, List.reverse_reverse, spell_map_char,
      Option.map_some, String.ofList_toList]
  rw [stringChars, escape, List.cons_append, scan_cons, hopen, List.append_assoc, List.nil_append,
    scan_escape, List.append_nil, List.singleton_append, scan_cons, hclose]
  rfl

/-! ## Values -/

section

variable {lay : Layout} (hlay : lay.Blank)

include hlay

/-- The name of a member, printed. -/
theorem scan_key (key : String) (cs : List Char) :
    scan .between [] (stringChars key ++ ':' :: (lay.gap ++ cs)) =
      .string (some key) :: .colon :: scan .between [] cs := by
  have hcolon : Mode.between.step ':' = ([.colon], .between) := rfl
  rw [scan_stringChars, scan_cons, hcolon, scan_blanks hlay.gap]
  rfl

mutual

/-- The tokens of a printed value are those of the value, and the scanner goes on
behind it. -/
theorem scan_print : ∀ (v : Json) (depth : Nat) (cs : List Char), v.isPlain = true →
    scan .between [] (print lay depth v ++ cs) = v.lexemes ++ scan .between [] cs
  | null, _, cs, _ => scan_eq_append .between [.null] cs
  | bool true, _, cs, _ => scan_eq_append .between [.bool true] cs
  | bool false, _, cs, _ => scan_eq_append .between [.bool false] cs
  | string s, _, cs, _ => by
      rw [print, scan_stringChars]
      rfl
  | array [], _, cs, _ => scan_eq_append .between [.closeArray, .openArray] cs
  | array (v :: vs), depth, cs, h => by
      rw [isPlain, arePlain, Bool.and_eq_true] at h
      have hopen : Mode.between.step '[' = ([.openArray], .between) := rfl
      have hclose : Mode.between.step ']' = ([.closeArray], .between) := rfl
      simp only [print, lexemes, List.cons_append, List.append_assoc, List.nil_append]
      rw [scan_cons, hopen, scan_blanks (hlay.lineBreak _), scan_print v _ _ h.1,
        scan_printItems vs _ _ h.2, scan_blanks (hlay.lineBreak _), scan_cons, hclose]
      rfl
  | object [], _, cs, _ => scan_eq_append .between [.closeObject, .openObject] cs
  | object ((key, v) :: ms), depth, cs, h => by
      rw [isPlain, arePlainMembers, Bool.and_eq_true] at h
      have hopen : Mode.between.step '{' = ([.openObject], .between) := rfl
      have hclose : Mode.between.step '}' = ([.closeObject], .between) := rfl
      simp only [print, lexemes, List.cons_append, List.append_assoc, List.nil_append]
      rw [scan_cons, hopen, scan_blanks (hlay.lineBreak _), scan_key hlay, scan_print v _ _ h.1,
        scan_printMembers ms _ _ h.2, scan_blanks (hlay.lineBreak _), scan_cons, hclose]
      rfl

/-- The tokens of printed items. -/
theorem scan_printItems : ∀ (vs : List Json) (depth : Nat) (cs : List Char),
    arePlain vs = true →
    scan .between [] (printItems lay depth vs ++ cs) = itemLexemes vs ++ scan .between [] cs
  | [], _, _, _ => rfl
  | v :: vs, depth, cs, h => by
      rw [arePlain, Bool.and_eq_true] at h
      have hcomma : Mode.between.step ',' = ([.comma], .between) := rfl
      simp only [printItems, itemLexemes, List.cons_append, List.append_assoc]
      rw [scan_cons, hcomma, scan_blanks (hlay.lineBreak _), scan_print v _ _ h.1,
        scan_printItems vs _ _ h.2]
      rfl

/-- The tokens of printed members. -/
theorem scan_printMembers : ∀ (ms : List (String × Json)) (depth : Nat) (cs : List Char),
    arePlainMembers ms = true →
    scan .between [] (printMembers lay depth ms ++ cs) = memberLexemes ms ++ scan .between [] cs
  | [], _, _, _ => rfl
  | (key, v) :: ms, depth, cs, h => by
      rw [arePlainMembers, Bool.and_eq_true] at h
      have hcomma : Mode.between.step ',' = ([.comma], .between) := rfl
      simp only [printMembers, memberLexemes, List.cons_append, List.append_assoc]
      rw [scan_cons, hcomma, scan_blanks (hlay.lineBreak _), scan_key hlay, scan_print v _ _ h.1,
        scan_printMembers ms _ _ h.2]
      rfl

end

/-- The tokens of a printed value with blanks behind it. -/
theorem tokens_print {v : Json} (h : v.isPlain = true) (depth : Nat) {blanks : List Char}
    (hblanks : ∀ c ∈ blanks, isSpace c = true) :
    tokens (print lay depth v ++ blanks) = v.lexemes := by
  have hend := scan_blanks hblanks []
  rw [List.append_nil] at hend
  rw [tokens, scan_print hlay v depth blanks h, hend]
  exact List.append_nil _

end

end BuildFix.Json
