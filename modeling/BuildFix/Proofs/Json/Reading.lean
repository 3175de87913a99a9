import BuildFix.Json.Draft
import BuildFix.Proofs.Json.Scanning

/-!
# Reading a printed value

A draft has tokens as a value has (`Draft.lexemes`), and the parser takes the tokens
of a draft without a cut as one step.  Wherever it waits for a value, it comes to the
same place as if the draft had been put there at once (`parse_lexemes`, with
`Draft.resume` for what comes then).  So a printed value is read as the draft that
holds it and has no faults (`read_print`).

Such a draft spells its value again, unless too many containers are open at once
for whoever reads it (`value?_ofJson`).
-/

namespace BuildFix.Json

namespace Draft

/-! ## Values as drafts -/

theorem ofItems_eq_map (vs : List Json) : ofItems vs = vs.map ofJson := by
  induction vs with
  | nil => rfl
  | cons v vs ih => rw [ofItems, ih, List.map_cons]

theorem ofMembers_append (ms ns : List (String × Json)) :
    ofMembers (ms ++ ns) = ofMembers ms ++ ofMembers ns := by
  induction ms with
  | nil => rfl
  | cons m ms ih => rw [List.cons_append, ofMembers, ih, ofMembers, List.cons_append]

end Draft

/-! ## Depth -/

theorem opensMembers_append (ms ns : List (String × Json)) :
    opensMembers (ms ++ ns) = max (opensMembers ms) (opensMembers ns) := by
  induction ms with
  | nil => rw [List.nil_append, opensMembers, Nat.zero_max]
  | cons m ms ih => rw [List.cons_append, opensMembers, ih, opensMembers, Nat.max_assoc]

theorem opensItems_le_iff {vs : List Json} {n : Nat} :
    opensItems vs ≤ n ↔ ∀ v ∈ vs, v.opens ≤ n := by
  induction vs with
  | nil => simp [opensItems]
  | cons v vs ih => rw [opensItems, Nat.max_le, ih, List.forall_mem_cons]

namespace Draft

mutual

/-- The value of a draft without faults, if it is not too deep. -/
theorem value?_ofJson : ∀ (v : Json) (depth : Nat), v.isPlain = true →
    value? depth (ofJson v) = if v.opens ≤ depth then some v else none
  | .null, _, _ | .bool _, _, _ | .string _, _, _ => rfl
  | .array _, 0, _ => rfl
  | .array items, depth + 1, h => by
      rw [ofJson, value?, values?_ofItems items depth h]
      simp only [opens, Nat.add_le_add_iff_right]
      split <;> rfl
  | .object _, 0, _ => rfl
  | .object members, depth + 1, h => by
      rw [ofJson, value?, memberValues?_ofMembers members depth h]
      simp only [opens, Nat.add_le_add_iff_right]
      split <;> rfl

theorem values?_ofItems : ∀ (vs : List Json) (depth : Nat), arePlain vs = true →
    values? depth (ofItems vs) = if opensItems vs ≤ depth then some vs else none
  | [], _, _ => rfl
  | v :: vs, depth, h => by
      rw [arePlain, Bool.and_eq_true] at h
      rw [ofItems, values?, value?_ofJson v depth h.1, values?_ofItems vs depth h.2, opensItems]
      simp only [Nat.max_le]
      by_cases hv : v.opens ≤ depth <;> by_cases hvs : opensItems vs ≤ depth <;>
        simp [hv, hvs]

theorem memberValues?_ofMembers : ∀ (ms : List (String × Json)) (depth : Nat),
    arePlainMembers ms = true →
    memberValues? depth (ofMembers ms) = if opensMembers ms ≤ depth then some ms else none
  | [], _, _ => rfl
  | (key, v) :: ms, depth, h => by
      rw [arePlainMembers, Bool.and_eq_true] at h
      rw [ofMembers, memberValues?, value?_ofJson v depth h.1,
        memberValues?_ofMembers ms depth h.2, opensMembers]
      simp only [Nat.max_le]
      by_cases hv : v.opens ≤ depth <;> by_cases hms : opensMembers ms ≤ depth <;>
        simp [hv, hms]

end

/-! ## The tokens of a draft -/

mutual

/-- The tokens that spell a draft. -/
def lexemes : Draft → List Token
  | cut => [.fault]
  | null => [.null]
  | bool b => [.bool b]
  | number numeral => [.number numeral]
  | string s => [.string s]
  | array [] => [.openArray, .closeArray]
  | array (d :: ds) => .openArray :: (lexemes d ++ (itemLexemes ds ++ [.closeArray]))
  | object [] => [.openObject, .closeObject]
  | object ((key, d) :: ms) =>
      .openObject :: .string key :: .colon :: (lexemes d ++ (memberLexemes ms ++ [.closeObject]))

/-- The tokens that spell the items of an array after the first. -/
def itemLexemes : List Draft → List Token
  | [] => []
  | d :: ds => .comma :: (lexemes d ++ itemLexemes ds)

/-- The tokens that spell the members of an object after the first. -/
def memberLexemes : List (Option String × Draft) → List Token
  | [] => []
  | (key, d) :: ms => .comma :: .string key :: .colon :: (lexemes d ++ memberLexemes ms)

end

mutual

/-- A value has the same tokens as a draft. -/
theorem lexemes_ofJson : ∀ v : Json, (ofJson v).lexemes = v.lexemes
  | .null | .bool _ | .number _ | .string _ | .array [] | .object [] => rfl
  | .array (v :: vs) => by
      rw [ofJson, ofItems, lexemes, lexemes_ofJson v, itemLexemes_ofItems vs, Json.lexemes]
  | .object ((key, v) :: ms) => by
      rw [ofJson, ofMembers, lexemes, lexemes_ofJson v, memberLexemes_ofMembers ms, Json.lexemes]

theorem itemLexemes_ofItems : ∀ vs : List Json, itemLexemes (ofItems vs) = Json.itemLexemes vs
  | [] => rfl
  | v :: vs => by
      rw [ofItems, itemLexemes, lexemes_ofJson v, itemLexemes_ofItems vs, Json.itemLexemes]

theorem memberLexemes_ofMembers : ∀ ms : List (String × Json),
    memberLexemes (ofMembers ms) = Json.memberLexemes ms
  | [] => rfl
  | (key, v) :: ms => by
      rw [ofMembers, memberLexemes, lexemes_ofJson v, memberLexemes_ofMembers ms,
        Json.memberLexemes]

end

mutual

/-- A value has no cut. -/
theorem isWhole_ofJson : ∀ v : Json, (ofJson v).isWhole = true
  | .null | .bool _ | .number _ | .string _ => rfl
  | .array vs => areWhole_ofItems vs
  | .object ms => areWholeMembers_ofMembers ms

theorem areWhole_ofItems : ∀ vs : List Json, areWhole (ofItems vs) = true
  | [] => rfl
  | v :: vs => by rw [ofItems, areWhole, isWhole_ofJson v, areWhole_ofItems vs, Bool.and_self]

theorem areWholeMembers_ofMembers : ∀ ms : List (String × Json),
    areWholeMembers (ofMembers ms) = true
  | [] => rfl
  | (key, v) :: ms => by
      rw [ofMembers, areWholeMembers, isWhole_ofJson v, areWholeMembers_ofMembers ms,
        Bool.and_self]

end

/-! ## Parsing -/

/-- What the parser comes to when a value is complete and tokens are left. -/
def resume (v : Draft) (ts : List Token) : List Frame → Document
  | [] => ⟨v, ts.isEmpty⟩
  | f :: fs => parse (f.push v :: fs) .next ts

theorem parse_of_settle {stack : List Frame} {wait : Wait} {t : Token} {v : Draft}
    {outer : List Frame} (h : step stack wait t = settle v outer) (ts : List Token) :
    parse stack wait (t :: ts) = resume v ts outer := by
  rw [parse, h]
  cases outer <;> rfl

theorem parse_of_more {stack stack' : List Frame} {wait wait' : Wait} {t : Token}
    (h : step stack wait t = .more stack' wait') (ts : List Token) :
    parse stack wait (t :: ts) = parse stack' wait' ts := by
  rw [parse, h]

/-- The parser waits for a value here. -/
def TakesValue (wait : Wait) : Prop := wait = .value ∨ wait = .item

/-- The first token of a value does not end an array. -/
theorem step_of_takesValue {wait : Wait} (hwait : TakesValue wait) (stack : List Frame)
    (t : Token) (ht : t ≠ .closeArray) : step stack wait t = enter stack t := by
  rcases hwait with rfl | rfl
  · rfl
  · unfold step
    split <;> first | rfl | contradiction

mutual

/-- The tokens of a draft without a cut are taken as the draft. -/
theorem parse_lexemes : ∀ (d : Draft) (wait : Wait) (stack : List Frame) (ts : List Token),
    d.isWhole = true → TakesValue wait → parse stack wait (d.lexemes ++ ts) = resume d ts stack
  | .null, _, stack, ts, _, h => parse_of_settle (step_of_takesValue h stack .null (by simp)) ts
  | .bool _, _, stack, ts, _, h =>
      parse_of_settle (step_of_takesValue h stack (.bool _) (by simp)) ts
  | .number _, _, stack, ts, _, h =>
      parse_of_settle (step_of_takesValue h stack (.number _) (by simp)) ts
  | .string _, _, stack, ts, _, h =>
      parse_of_settle (step_of_takesValue h stack (.string _) (by simp)) ts
  | .array [], _, stack, ts, _, h => by
      rw [lexemes, List.cons_append,
        parse_of_more (step_of_takesValue h stack .openArray (by simp))]
      exact parse_of_settle rfl ts
  | .array (d :: ds), _, stack, ts, hd, h => by
      rw [isWhole, areWhole, Bool.and_eq_true] at hd
      rw [lexemes, List.cons_append,
        parse_of_more (step_of_takesValue h stack .openArray (by simp)),
        List.append_assoc, parse_lexemes d .item _ _ hd.1 (.inr rfl)]
      exact parse_itemLexemes ds [d] stack ts hd.2
  | .object [], _, stack, ts, _, h => by
      rw [lexemes, List.cons_append,
        parse_of_more (step_of_takesValue h stack .openObject (by simp))]
      exact parse_of_settle rfl ts
  | .object ((key, d) :: ms), _, stack, ts, hd, h => by
      rw [isWhole, areWholeMembers, Bool.and_eq_true] at hd
      rw [lexemes, List.cons_append,
        parse_of_more (step_of_takesValue h stack .openObject (by simp)),
        List.cons_append, parse_of_more rfl, List.cons_append, parse_of_more rfl,
        List.append_assoc, parse_lexemes d .value _ _ hd.1 (.inl rfl)]
      exact parse_memberLexemes ms [(key, d)] stack ts hd.2

/-- The tokens of the items of an array that has items already, last to first. -/
theorem parse_itemLexemes : ∀ (ds done : List Draft) (stack : List Frame) (ts : List Token),
    areWhole ds = true →
    parse (.array done :: stack) .next (itemLexemes ds ++ [Token.closeArray] ++ ts) =
      resume (.array (done.reverse ++ ds)) ts stack
  | [], done, stack, ts, _ => by
      rw [List.append_nil]
      exact parse_of_settle rfl ts
  | d :: ds, done, stack, ts, hd => by
      rw [areWhole, Bool.and_eq_true] at hd
      rw [itemLexemes, List.cons_append, List.cons_append, parse_of_more rfl, List.append_assoc,
        List.append_assoc, parse_lexemes d .value _ _ hd.1 (.inl rfl), resume, Frame.push,
        ← List.append_assoc, parse_itemLexemes ds (d :: done) stack ts hd.2, List.reverse_cons,
        List.append_assoc]
      rfl

/-- The tokens of the members of an object that has members already, last to
first. -/
theorem parse_memberLexemes : ∀ (ms done : List (Option String × Draft)) (stack : List Frame)
    (ts : List Token), areWholeMembers ms = true →
    parse (.object done :: stack) .next (memberLexemes ms ++ [Token.closeObject] ++ ts) =
      resume (.object (done.reverse ++ ms)) ts stack
  | [], done, stack, ts, _ => by
      rw [List.append_nil]
      exact parse_of_settle rfl ts
  | (key, d) :: ms, done, stack, ts, hd => by
      rw [areWholeMembers, Bool.and_eq_true] at hd
      rw [memberLexemes, List.cons_append, List.cons_append, parse_of_more rfl, List.cons_append,
        List.cons_append, parse_of_more rfl, List.cons_append, List.cons_append,
        parse_of_more rfl, List.append_assoc, List.append_assoc,
        parse_lexemes d .value _ _ hd.1 (.inl rfl), resume, Frame.push, ← List.append_assoc,
        parse_memberLexemes ms ((key, d) :: done) stack ts hd.2, List.reverse_cons,
        List.append_assoc]
      rfl

end

/-- A text whose tokens are those of a draft without a cut is read as the draft alone. -/
theorem read_of_tokens {text : String} {d : Draft} (hd : d.isWhole = true)
    (h : tokens text.toList = d.lexemes) : read text = ⟨d, true⟩ := by
  have hparse := parse_lexemes d .value [] [] hd (.inl rfl)
  rw [List.append_nil] at hparse
  rw [read, h, hparse]
  rfl

/-- A printed value with blanks behind it is read as the value alone. -/
theorem read_print {lay : Layout} (hlay : lay.Blank) {v : Json} (h : v.isPlain = true)
    {blanks : List Char} (hblanks : ∀ c ∈ blanks, isSpace c = true) :
    read (String.ofList (print lay 0 v ++ blanks)) = ⟨ofJson v, true⟩ := by
  refine read_of_tokens (isWhole_ofJson v) ?_
  rw [String.toList_ofList, tokens_print hlay h 0 hblanks, lexemes_ofJson]

end Draft

end BuildFix.Json
