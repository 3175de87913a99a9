import BuildFix.Proofs.Json.Reading

/-!
# The texts that spell a draft

The parser forgets nothing that it reads.  At any time the tokens behind it are those of
the containers that are open, outermost first (`Draft.Consumed`).  One token keeps that so
(`Draft.Consumed.step`), and so does a run.  A text that is read to its end without a cut
therefore has the tokens of the draft that was read, and no other text is read as that
draft (`Draft.read_eq_iff`).

Which drafts have a text depends on their tokens alone.  A token that the scanner has found
in some text can be written again wherever a token may stand (`Token.Writable`), and so can
a list of such tokens (`exists_text`).
-/

namespace BuildFix.Json

namespace Draft

/-! ## Drafts without a cut -/

theorem areWhole_iff {ds : List Draft} : areWhole ds = true ↔ ∀ d ∈ ds, d.isWhole = true := by
  induction ds with
  | nil => simp [areWhole]
  | cons d ds ih => simp [areWhole, ih]

theorem areWholeMembers_iff {ms : List (Option String × Draft)} :
    areWholeMembers ms = true ↔ ∀ m ∈ ms, m.2.isWhole = true := by
  induction ms with
  | nil => simp [areWholeMembers]
  | cons m ms ih => simp [areWholeMembers, ih]

theorem isSome_values?_iff {n : Nat} {ds : List Draft} :
    (values? n ds).isSome = true ↔ ∀ d ∈ ds, (d.value? n).isSome = true := by
  induction ds with
  | nil => simp [values?]
  | cons d ds ih => cases hd : d.value? n <;> simp [values?, hd, ih]

theorem isSome_memberValues?_iff {n : Nat} {ms : List (Option String × Draft)} :
    (memberValues? n ms).isSome = true ↔
      ∀ m ∈ ms, m.1.isSome = true ∧ (m.2.value? n).isSome = true := by
  induction ms with
  | nil => simp [memberValues?]
  | cons m ms ih =>
      obtain ⟨key, d⟩ := m
      cases key <;> cases hd : d.value? n <;> simp [memberValues?, hd, ih]

mutual

/-- A draft that spells a value has no cut. -/
theorem isWhole_of_value? : ∀ (d : Draft) (n : Nat), (d.value? n).isSome = true →
    d.isWhole = true
  | .cut, _, h => h
  | .null, _, _ | .bool _, _, _ | .number _, _, _ | .string _, _, _ => rfl
  | .array _, 0, h | .object _, 0, h => nomatch h
  | .array ds, n + 1, h => by
      rw [value?, Option.isSome_map, isSome_values?_iff] at h
      exact areWhole_of_value? ds n h
  | .object ms, n + 1, h => by
      rw [value?, Option.isSome_map, isSome_memberValues?_iff] at h
      exact areWholeMembers_of_value? ms n fun m hm => (h m hm).2

theorem areWhole_of_value? : ∀ (ds : List Draft) (n : Nat),
    (∀ d ∈ ds, (d.value? n).isSome = true) → areWhole ds = true
  | [], _, _ => rfl
  | d :: ds, n, h => by
      obtain ⟨hd, hds⟩ := List.forall_mem_cons.1 h
      rw [areWhole, isWhole_of_value? d n hd, areWhole_of_value? ds n hds, Bool.and_self]

theorem areWholeMembers_of_value? : ∀ (ms : List (Option String × Draft)) (n : Nat),
    (∀ m ∈ ms, (m.2.value? n).isSome = true) → areWholeMembers ms = true
  | [], _, _ => rfl
  | (key, d) :: ms, n, h => by
      obtain ⟨hd, hms⟩ := List.forall_mem_cons.1 h
      rw [areWholeMembers, isWhole_of_value? d n hd, areWholeMembers_of_value? ms n hms,
        Bool.and_self]

end

/-! ## The tokens of open containers -/

/-- The tokens that spell the items of an array. -/
def listLexemes : List Draft → List Token
  | [] => []
  | d :: ds => d.lexemes ++ itemLexemes ds

/-- The tokens that spell the members of an object. -/
def recordLexemes : List (Option String × Draft) → List Token
  | [] => []
  | (key, d) :: ms => .string key :: .colon :: (d.lexemes ++ memberLexemes ms)

theorem lexemes_array (ds : List Draft) :
    (array ds).lexemes = .openArray :: (listLexemes ds ++ [.closeArray]) := by
  cases ds <;> simp [lexemes, listLexemes]

theorem lexemes_object (ms : List (Option String × Draft)) :
    (object ms).lexemes = .openObject :: (recordLexemes ms ++ [.closeObject]) := by
  cases ms with
  | nil => rfl
  | cons m ms => simp [lexemes, recordLexemes]

/-- What separates a new item or member from those that are there. -/
def separator {α : Type} : List α → List Token
  | [] => []
  | _ :: _ => [.comma]

theorem separator_of_ne_nil {α : Type} {xs : List α} (h : xs ≠ []) : separator xs = [.comma] := by
  cases xs with
  | nil => exact absurd rfl h
  | cons x xs => rfl

theorem separator_reverse {α : Type} (xs : List α) : separator xs.reverse = separator xs := by
  cases xs with
  | nil => rfl
  | cons x xs => exact separator_of_ne_nil (by simp)

theorem itemLexemes_append (ds ds' : List Draft) :
    itemLexemes (ds ++ ds') = itemLexemes ds ++ itemLexemes ds' := by
  induction ds with
  | nil => rfl
  | cons d ds ih => simp [itemLexemes, ih]

theorem memberLexemes_append (ms ms' : List (Option String × Draft)) :
    memberLexemes (ms ++ ms') = memberLexemes ms ++ memberLexemes ms' := by
  induction ms with
  | nil => rfl
  | cons m ms ih => simp [memberLexemes, ih]

theorem listLexemes_concat (ds : List Draft) (d : Draft) :
    listLexemes (ds ++ [d]) = listLexemes ds ++ separator ds ++ d.lexemes := by
  cases ds with
  | nil => simp [listLexemes, separator, itemLexemes]
  | cons e ds => simp [listLexemes, separator, itemLexemes, itemLexemes_append]

theorem recordLexemes_concat (ms : List (Option String × Draft)) (key : Option String)
    (d : Draft) : recordLexemes (ms ++ [(key, d)]) =
      recordLexemes ms ++ separator ms ++ .string key :: .colon :: d.lexemes := by
  cases ms with
  | nil => simp [recordLexemes, separator, memberLexemes]
  | cons m ms => simp [recordLexemes, separator, memberLexemes, memberLexemes_append]

/-- The tokens of an open container, up to the last value in it. -/
def Frame.filled : Frame → List Token
  | array done => .openArray :: listLexemes done.reverse
  | object done | member done _ => .openObject :: recordLexemes done.reverse

/-- The tokens of an open container that waits for a value, or for a name. -/
def Frame.waiting : Frame → List Token
  | array done => .openArray :: (listLexemes done.reverse ++ separator done)
  | object done => .openObject :: (recordLexemes done.reverse ++ separator done)
  | member done key =>
      .openObject :: (recordLexemes done.reverse ++ separator done ++ [.string key, .colon])

/-- An open container takes a value next. -/
def Frame.TakesValue : Frame → Prop
  | array _ | member _ _ => True
  | object _ => False

/-- An open container has a value and takes a comma or its end next. -/
def Frame.HasValue : Frame → Prop
  | array done => done ≠ []
  | object done => done ≠ []
  | member _ _ => False

theorem Frame.filled_push {f : Frame} (h : f.TakesValue) (v : Draft) :
    (f.push v).filled = f.waiting ++ v.lexemes := by
  cases f with
  | array done => simp [push, filled, waiting, listLexemes_concat, separator_reverse]
  | object done => exact h.elim
  | member done key => simp [push, filled, waiting, recordLexemes_concat, separator_reverse]

theorem Frame.hasValue_push {f : Frame} (h : f.TakesValue) (v : Draft) : (f.push v).HasValue := by
  cases f with
  | array done => exact List.cons_ne_nil _ _
  | object done => exact h.elim
  | member done key => exact List.cons_ne_nil _ _

/-- The tokens of the open containers, the innermost of which is waiting. -/
def openLexemes : List Frame → List Token
  | [] => []
  | f :: fs => openLexemes fs ++ f.waiting

/-! ## What was consumed -/

/-- The tokens behind the parser are those of the open containers.  All containers around
the innermost one are waiting for it. -/
def Consumed (ts : List Token) (stack : List Frame) : Wait → Prop
  | .value | .item => (∀ f ∈ stack, f.TakesValue) ∧ ts = openLexemes stack
  | .key | .member => ∃ done fs, stack = .object done :: fs ∧ (∀ f ∈ fs, f.TakesValue) ∧
      ts = openLexemes stack
  | .colon => ∃ done key fs, stack = .member done key :: fs ∧ (∀ f ∈ fs, f.TakesValue) ∧
      ts ++ [.colon] = openLexemes stack
  | .next => ∃ f fs, stack = f :: fs ∧ (∀ f ∈ fs, f.TakesValue) ∧ f.HasValue ∧
      ts = openLexemes fs ++ f.filled

/-- Where the parser goes, it has consumed the tokens. -/
def Accounts (ts : List Token) : Outcome → Prop
  | .more stack wait => Consumed ts stack wait
  | .done root => ts = root.lexemes
  | .stop => True

section

variable {ts : List Token} {stack fs : List Frame} {wait : Wait}

theorem accounts_settle (hfs : ∀ f ∈ fs, f.TakesValue) (v : Draft)
    (hts : ts = openLexemes fs ++ v.lexemes) : Accounts ts (settle v fs) := by
  cases fs with
  | nil => exact hts
  | cons f fs =>
      obtain ⟨hf, hfs⟩ := List.forall_mem_cons.1 hfs
      refine ⟨f.push v, fs, rfl, hfs, Frame.hasValue_push hf v, ?_⟩
      rw [hts, openLexemes, Frame.filled_push hf, List.append_assoc]

theorem accounts_enter (hstack : ∀ f ∈ stack, f.TakesValue) (t : Token) :
    Accounts (openLexemes stack ++ [t]) (enter stack t) := by
  cases t with
  | openArray => exact ⟨List.forall_mem_cons.2 ⟨trivial, hstack⟩, rfl⟩
  | openObject => exact ⟨[], stack, rfl, hstack, rfl⟩
  | null => exact accounts_settle hstack _ rfl
  | bool b => exact accounts_settle hstack _ rfl
  | number numeral => exact accounts_settle hstack _ rfl
  | string s => exact accounts_settle hstack _ rfl
  | closeArray => trivial
  | closeObject => trivial
  | comma => trivial
  | colon => trivial
  | fault => trivial

/-- One token keeps the account. -/
theorem Consumed.step (h : Consumed ts stack wait) (t : Token) :
    Accounts (ts ++ [t]) (step stack wait t) := by
  unfold Draft.step
  split
  next fs =>
    obtain ⟨hstack, rfl⟩ := h
    exact accounts_settle (List.forall_mem_cons.1 hstack).2 _ (by simp [openLexemes,
      Frame.waiting, listLexemes, separator, lexemes])
  next =>
    obtain ⟨hstack, rfl⟩ := h
    exact accounts_enter hstack t
  next =>
    obtain ⟨hstack, rfl⟩ := h
    exact accounts_enter hstack t
  next =>
    obtain ⟨done, fs, heq, hfs, rfl⟩ := h
    cases heq
    exact accounts_settle hfs _ (by simp [openLexemes, Frame.waiting, recordLexemes, separator,
      lexemes])
  next =>
    obtain ⟨done, fs, heq, hfs, rfl⟩ := h
    cases heq
    exact ⟨_, _, _, rfl, hfs, by simp [openLexemes, Frame.waiting]⟩
  next =>
    obtain ⟨done, fs, heq, hfs, rfl⟩ := h
    cases heq
    exact ⟨_, _, _, rfl, hfs, by simp [openLexemes, Frame.waiting]⟩
  next =>
    obtain ⟨done, key, fs, rfl, hfs, hts⟩ := h
    exact ⟨List.forall_mem_cons.2 ⟨trivial, hfs⟩, hts⟩
  next =>
    obtain ⟨f, fs, heq, hfs, hvalue, rfl⟩ := h
    cases heq
    refine ⟨List.forall_mem_cons.2 ⟨trivial, hfs⟩, ?_⟩
    simp [openLexemes, Frame.waiting, Frame.filled, separator_of_ne_nil hvalue]
  next =>
    obtain ⟨f, fs, heq, hfs, hvalue, rfl⟩ := h
    cases heq
    exact accounts_settle hfs _ (by simp [Frame.filled, lexemes_array])
  next =>
    obtain ⟨f, fs, heq, hfs, hvalue, rfl⟩ := h
    cases heq
    exact ⟨_, _, rfl, hfs, by simp [openLexemes, Frame.waiting, Frame.filled,
      separator_of_ne_nil hvalue]⟩
  next =>
    obtain ⟨f, fs, heq, hfs, hvalue, rfl⟩ := h
    cases heq
    exact accounts_settle hfs _ (by simp [Frame.filled, lexemes_object])
  next => trivial

theorem isWhole_close_push {v : Draft} (h : v.isWhole = false) (f : Frame) :
    (f.push v).close.isWhole = false := by
  rw [← Bool.not_eq_true] at h ⊢
  intro hclose
  cases f with
  | array done => exact h (areWhole_iff.1 hclose v (by simp))
  | object done => exact h (areWholeMembers_iff.1 hclose (none, v) (by simp))
  | member done key => exact h (areWholeMembers_iff.1 hclose (key, v) (by simp))

/-- What was left off has a cut. -/
theorem isWhole_abandon {v : Draft} (h : v.isWhole = false) (fs : List Frame) :
    (abandon fs v).isWhole = false := by
  induction fs generalizing v with
  | nil => exact h
  | cons f fs ih => exact ih (isWhole_close_push h f)

/-- A run that ends without a cut has consumed the tokens of its root. -/
theorem Consumed.parse {d : Draft} (hd : d.isWhole = true) (h : Consumed ts stack wait)
    {rest : List Token} (hparse : parse stack wait rest = ⟨d, true⟩) : ts ++ rest = d.lexemes := by
  induction rest generalizing ts stack wait with
  | nil =>
      have hroot : abandon stack cut = d := congrArg Document.root hparse
      rw [← hroot, isWhole_abandon rfl] at hd
      cases hd
  | cons t rest ih =>
      have hstep := h.step t
      rw [Draft.parse] at hparse
      cases hout : Draft.step stack wait t with
      | more stack' wait' =>
          rw [hout] at hstep hparse
          rw [← ih hstep hparse, List.append_assoc, List.singleton_append]
      | done root =>
          rw [hout] at hstep hparse
          have hroot : root = d := congrArg Document.root hparse
          have halone : rest = [] := List.isEmpty_iff.1 (congrArg Document.alone hparse)
          rw [← hroot, halone]
          exact hstep
      | stop =>
          rw [hout] at hparse
          have hroot : abandon stack cut = d := congrArg Document.root hparse
          rw [← hroot, isWhole_abandon rfl] at hd
          cases hd

end

/-- A text spells a draft if it has the tokens of the draft. -/
def SpelledBy (d : Draft) (text : String) : Prop := tokens text.toList = d.lexemes

/-- A text is read as a draft without a cut exactly when it spells the draft. -/
theorem read_eq_iff {text : String} {d : Draft} (hd : d.isWhole = true) :
    read text = ⟨d, true⟩ ↔ d.SpelledBy text := by
  refine ⟨fun h => ?_, read_of_tokens hd⟩
  have hstart : Consumed [] [] .value := ⟨nofun, rfl⟩
  exact hstart.parse hd h

end Draft

/-! ## Tokens that can be written -/

/-- A token can be written, with a space behind it, wherever a token may stand. -/
def Token.Writable (t : Token) : Prop :=
  ∃ cs : List Char, ∀ rest, scan .between [] (cs ++ ' ' :: rest) = t :: scan .between [] rest

theorem writable_of_scan {t : Token} (cs : List Char)
    (h : ∀ rest, scan .between [] (cs ++ ' ' :: rest) = scan .between [t] rest) : t.Writable :=
  ⟨cs, fun rest => (h rest).trans (scan_eq_append .between [t] rest)⟩

theorem writable_string (s : Option String) : (Token.string s).Writable := by
  cases s with
  | none => exact writable_of_scan ['"', '\\', 'u', 'd', '8', '0', '0', '"'] fun _ => rfl
  | some s => exact ⟨stringChars s, fun rest => scan_stringChars s (' ' :: rest)⟩

/-- Neither a numeral nor the fault. -/
def Token.isPlain : Token → Bool
  | number _ | fault => false
  | _ => true

/-- All tokens but numerals can be written as they are. -/
theorem Token.writable {t : Token} (h : t.isPlain = true) : t.Writable := by
  cases t with
  | openArray => exact writable_of_scan ['['] fun _ => rfl
  | closeArray => exact writable_of_scan [']'] fun _ => rfl
  | openObject => exact writable_of_scan ['{'] fun _ => rfl
  | closeObject => exact writable_of_scan ['}'] fun _ => rfl
  | comma => exact writable_of_scan [','] fun _ => rfl
  | colon => exact writable_of_scan [':'] fun _ => rfl
  | null => exact writable_of_scan ['n', 'u', 'l', 'l'] fun _ => rfl
  | bool b =>
      cases b with
      | false => exact writable_of_scan ['f', 'a', 'l', 's', 'e'] fun _ => rfl
      | true => exact writable_of_scan ['t', 'r', 'u', 'e'] fun _ => rfl
  | number numeral => cases h
  | string s => exact writable_string s
  | fault => cases h

theorem Token.ne_fault {t : Token} (h : t.isPlain = true) : t ≠ .fault := by
  rintro rfl
  cases h

/-- Every token of the list is the fault or can be written. -/
def AllWritable (ts : List Token) : Prop := ∀ t ∈ ts, t = .fault ∨ t.Writable

theorem allWritable_nil : AllWritable [] := List.forall_mem_nil _

theorem allWritable_fault : AllWritable [.fault] := List.forall_mem_singleton.2 (.inl rfl)

theorem allWritable_singleton {t : Token} (h : t.isPlain = true) : AllWritable [t] :=
  List.forall_mem_singleton.2 (.inr (Token.writable h))

theorem AllWritable.append {ts us : List Token} (hts : AllWritable ts) (hus : AllWritable us) :
    AllWritable (ts ++ us) := List.forall_mem_append.2 ⟨hts, hus⟩

/-! ## The tokens that the scanner finds -/

/-- What the scanner is in the middle of can be written once it is complete.  A numeral
begins where a token may stand. -/
def Mode.Sound : Mode → Prop
  | numeral stage seen =>
      ∀ rest, scan .between [] (seen.reverse ++ rest) = scan (.numeral stage seen) [] rest
  | word _ token => token.isPlain = true
  | _ => True

/-- No numeral goes on with a space. -/
theorem Stage.next?_space (stage : Stage) : stage.next? ' ' = none := by
  cases stage <;> rfl

theorem writable_ofNumeral {stage : Stage} {seen : List Char}
    (h : (Mode.numeral stage seen).Sound) (hcomplete : stage.isComplete = true) :
    AllWritable [.ofNumeral seen] := by
  refine List.forall_mem_singleton.2 (.inr ⟨seen.reverse, fun rest => ?_⟩)
  have hstep : (Mode.numeral stage seen).step ' ' = ([.ofNumeral seen], .between) := by
    simp only [Mode.step, stage.next?_space, hcomplete]
    rfl
  rw [h, scan_cons, hstep]
  rfl

theorem sound_fault : AllWritable [.fault] ∧ Mode.stopped.Sound := ⟨allWritable_fault, trivial⟩

theorem sound_start (c : Char) : AllWritable (Mode.start c).1 ∧ (Mode.start c).2.Sound := by
  have hnumeral {stage : Stage} (h : Mode.between.step c = ([], .numeral stage [c])) :
      (Mode.numeral stage [c]).Sound := by
    intro rest
    rw [List.reverse_singleton, List.singleton_append, scan_cons, h]
    rfl
  unfold Mode.start
  split
  next => exact ⟨allWritable_nil, trivial⟩
  next hspace =>
    split
    next hdigit =>
      exact ⟨allWritable_nil, hnumeral ((if_neg hspace).trans (if_pos hdigit))⟩
    next hdigit =>
      -- The minus, the quote, the words, what begins no token, and the tokens of one character.
      split
      case h_8 => exact ⟨allWritable_nil, hnumeral rfl⟩
      case h_7 => exact ⟨allWritable_nil, trivial⟩
      case h_9 | h_10 | h_11 => exact ⟨allWritable_nil, rfl⟩
      case h_12 => exact sound_fault
      all_goals exact ⟨allWritable_singleton rfl, trivial⟩

/-- A numeral goes on, or it is complete and the character begins what is behind it. -/
theorem sound_numeral {stage : Stage} {seen : List Char} (h : (Mode.numeral stage seen).Sound)
    (c : Char) : AllWritable ((Mode.numeral stage seen).step c).1 ∧
      ((Mode.numeral stage seen).step c).2.Sound := by
  have hstep := scan_cons (.numeral stage seen) c
  cases hnext : stage.next? c with
  | some stage' =>
      have hm : (Mode.numeral stage seen).step c = ([], .numeral stage' (c :: seen)) := by
        rw [Mode.step, hnext]
      rw [hm] at hstep ⊢
      refine ⟨allWritable_nil, fun rest => ?_⟩
      rw [List.reverse_cons, List.append_assoc, List.singleton_append, h, hstep]
      rfl
  | none =>
      rw [Mode.step, hnext]
      by_cases hcomplete : (stage.isComplete && !c.isDigit) = true
      · have hstart := sound_start c
        simp only [hcomplete, if_true]
        exact ⟨(writable_ofNumeral h (Bool.and_eq_true_iff.1 hcomplete).1).append hstart.1,
          hstart.2⟩
      · simp only [hcomplete]
        exact sound_fault

/-- One character completes tokens that can be written. -/
theorem Mode.Sound.step {m : Mode} (h : m.Sound) (c : Char) :
    AllWritable (m.step c).1 ∧ (m.step c).2.Sound := by
  cases m with
  | between => exact sound_start c
  | word rest token =>
      rw [Mode.step]
      split
      · split
        · exact ⟨allWritable_singleton h, trivial⟩
        · exact ⟨allWritable_nil, h⟩
      · exact sound_fault
  | numeral stage seen => exact sound_numeral h c
  | text seen =>
      rw [Mode.step]
      split
      · exact ⟨allWritable_singleton rfl, trivial⟩
      · split
        · exact ⟨allWritable_nil, trivial⟩
        · split
          · exact sound_fault
          · exact ⟨allWritable_nil, trivial⟩
  | escape seen =>
      rw [Mode.step]
      split
      · exact ⟨allWritable_nil, trivial⟩
      · split
        · exact ⟨allWritable_nil, trivial⟩
        · exact sound_fault
  | code seen left value =>
      rw [Mode.step]
      split
      · exact sound_fault
      · split <;> exact ⟨allWritable_nil, trivial⟩
  | stopped => exact ⟨allWritable_nil, trivial⟩

theorem Mode.Sound.finish {m : Mode} (h : m.Sound) : AllWritable m.finish := by
  cases m with
  | between | stopped => exact allWritable_nil
  | numeral stage seen =>
      rw [Mode.finish]
      split
      next hcomplete => exact writable_ofNumeral h hcomplete
      next => exact allWritable_fault
  | word | text | escape | code => exact allWritable_fault

/-- The scanner finds no token that cannot be written, but the fault. -/
theorem Mode.Sound.scan {m : Mode} (h : m.Sound) (cs : List Char) :
    AllWritable (scan m [] cs) := by
  induction cs generalizing m with
  | nil => exact h.finish
  | cons c cs ih =>
      obtain ⟨htokens, hmode⟩ := h.step c
      rw [scan_cons]
      exact htokens.append (ih hmode)

/-- Tokens that can be written one by one can be written in a row. -/
theorem exists_text {ts : List Token} (h : ∀ t ∈ ts, t.Writable) :
    ∃ text : String, tokens text.toList = ts := by
  suffices hchars : ∃ cs : List Char, tokens cs = ts by
    obtain ⟨cs, hcs⟩ := hchars
    exact ⟨String.ofList cs, by rw [String.toList_ofList, hcs]⟩
  induction ts with
  | nil => exact ⟨[], rfl⟩
  | cons t ts ih =>
      obtain ⟨ht, hts⟩ := List.forall_mem_cons.1 h
      obtain ⟨cs, hcs⟩ := ht
      obtain ⟨cs', hcs'⟩ := ih hts
      exact ⟨cs ++ ' ' :: cs', (hcs cs').trans (congrArg (t :: ·) hcs')⟩

namespace Draft

/-! ## Drafts that can be written -/

section

variable {p : Token → Prop} (hp : ∀ t : Token, t.isPlain = true → p t)

include hp

theorem forall_itemLexemes (ds : List Draft) :
    (∀ t ∈ itemLexemes ds, p t) ↔ ∀ d ∈ ds, ∀ t ∈ d.lexemes, p t := by
  have hcomma := hp .comma rfl
  induction ds with
  | nil => simp [itemLexemes]
  | cons d ds ih => simp [itemLexemes, or_imp, forall_and, hcomma, ih]

theorem forall_memberLexemes (ms : List (Option String × Draft)) :
    (∀ t ∈ memberLexemes ms, p t) ↔ ∀ m ∈ ms, ∀ t ∈ m.2.lexemes, p t := by
  have hcomma := hp .comma rfl
  have hcolon := hp .colon rfl
  have hstring (s : Option String) := hp (.string s) rfl
  induction ms with
  | nil => simp [memberLexemes]
  | cons m ms ih => simp [memberLexemes, or_imp, forall_and, hcomma, hcolon, hstring, ih]

/-- An array adds no numeral and no fault to the tokens of its items. -/
theorem forall_lexemes_array {ds : List Draft} :
    (∀ t ∈ (array ds).lexemes, p t) ↔ ∀ d ∈ ds, ∀ t ∈ d.lexemes, p t := by
  have hopen := hp .openArray rfl
  have hclose := hp .closeArray rfl
  have hitems := forall_itemLexemes hp
  cases ds with
  | nil => simp [lexemes, hopen, hclose]
  | cons d ds => simp [lexemes, or_imp, forall_and, hopen, hclose, hitems]

/-- An object adds no numeral and no fault to the tokens of its members. -/
theorem forall_lexemes_object {ms : List (Option String × Draft)} :
    (∀ t ∈ (object ms).lexemes, p t) ↔ ∀ m ∈ ms, ∀ t ∈ m.2.lexemes, p t := by
  have hopen := hp .openObject rfl
  have hclose := hp .closeObject rfl
  have hcolon := hp .colon rfl
  have hstring (s : Option String) := hp (.string s) rfl
  have hmembers := forall_memberLexemes hp
  cases ms with
  | nil => simp [lexemes, hopen, hclose]
  | cons m ms => simp [lexemes, or_imp, forall_and, hopen, hclose, hcolon, hstring, hmembers]

end

mutual

/-- The fault is no token of a draft without a cut. -/
theorem ne_fault_of_isWhole : ∀ d : Draft, d.isWhole = true → ∀ t ∈ d.lexemes, t ≠ .fault
  | .null, _ | .bool _, _ | .number _, _ | .string _, _ => by simp [lexemes]
  | .array ds, h => (forall_lexemes_array fun _ => Token.ne_fault).2 (ne_fault_of_areWhole ds h)
  | .object ms, h =>
      (forall_lexemes_object fun _ => Token.ne_fault).2 (ne_fault_of_areWholeMembers ms h)

theorem ne_fault_of_areWhole : ∀ ds : List Draft, areWhole ds = true →
    ∀ d ∈ ds, ∀ t ∈ d.lexemes, t ≠ .fault
  | [], _ => nofun
  | d :: ds, h => by
      rw [areWhole, Bool.and_eq_true] at h
      exact List.forall_mem_cons.2 ⟨ne_fault_of_isWhole d h.1, ne_fault_of_areWhole ds h.2⟩

theorem ne_fault_of_areWholeMembers : ∀ ms : List (Option String × Draft),
    areWholeMembers ms = true → ∀ m ∈ ms, ∀ t ∈ m.2.lexemes, t ≠ .fault
  | [], _ => nofun
  | (key, d) :: ms, h => by
      rw [areWholeMembers, Bool.and_eq_true] at h
      exact List.forall_mem_cons.2 ⟨ne_fault_of_isWhole d h.1, ne_fault_of_areWholeMembers ms h.2⟩

end

/-- All tokens of a draft can be written. -/
def Writable (d : Draft) : Prop := ∀ t ∈ d.lexemes, t.Writable

theorem writable_array_iff {ds : List Draft} : (array ds).Writable ↔ ∀ d ∈ ds, d.Writable :=
  forall_lexemes_array fun _ => Token.writable

theorem writable_object_iff {ms : List (Option String × Draft)} :
    (object ms).Writable ↔ ∀ m ∈ ms, m.2.Writable := forall_lexemes_object fun _ => Token.writable

/-- A draft that some text spells can be written again. -/
theorem SpelledBy.writable {d : Draft} {text : String} (hd : d.isWhole = true)
    (h : d.SpelledBy text) : d.Writable := by
  intro t ht
  have hstart : Mode.between.Sound := trivial
  rw [← h] at ht
  rcases hstart.scan text.toList t ht with hfault | hwritable
  · rw [h] at ht
    exact absurd hfault (ne_fault_of_isWhole d hd t ht)
  · exact hwritable

/-- A value without numbers is spelled by the text that is printed for it. -/
theorem spelledBy_compact {v : Json} (h : v.isPlain = true) : (ofJson v).SpelledBy v.compact := by
  have htokens := tokens_print Layout.blank_compact h 0 (List.forall_mem_nil _)
  rw [List.append_nil] at htokens
  rw [SpelledBy, compact, String.toList_ofList, htokens, lexemes_ofJson]

/-- A value without numbers can be written. -/
theorem writable_ofJson {v : Json} (h : v.isPlain = true) : (ofJson v).Writable :=
  (spelledBy_compact h).writable (isWhole_ofJson v)

theorem Writable.exists_text {d : Draft} (h : d.Writable) : ∃ text, d.SpelledBy text :=
  Json.exists_text h

end Draft

end BuildFix.Json
