import BuildFix.Proofs.Attempts
import BuildFix.Proofs.Tree.Nesting
import BuildFix.Tree.Decode

/-!
# Reading a written tree

The reader undoes the writer.  An expression is written as its fields
(`Expr.fieldMembers`) with its comments behind them.  From these members the reader
takes the comments (`commentsAmong_written`), then the kind (`among_written`), then
the fields (`slotsAmong_written`), and each of the three passes over what belongs to
the others.

The only thing that can go wrong is the depth.  Of a statement the reader takes
every member but the comments as a value first, and such a value may not be too
deep.  So a written build file is read back exactly when its JSON form opens no
more than 127 arrays and objects at once, and otherwise its text is malformed
(`parse_written`).
-/

namespace BuildFix

open Json (Draft isPlain arePlain arePlainMembers opensMembers)
open Json.Draft (ofJson ofItems ofMembers)

/-! ## Comments -/

namespace Comments

theorem groupOf_toJson (place : Place) (group : List Comment) :
    groupOf place (ofJson (.array (group.map Comment.toJson))) = .ok group := by
  have hitem : ∀ c ∈ group, (Comment.ofDraft place ∘ ofJson ∘ Comment.toJson) c = .ok (id c) :=
    fun c _ => rfl
  rw [ofJson, Draft.ofItems_eq_map, groupOf, List.map_map, List.mapM_map, mapM_eq_ok hitem,
    List.map_id]

/-- A group that was written is found, unless it is empty. -/
theorem among_groupMember (place : Place) {found : List (String × List Comment)} {key : String}
    (hkey : key ∈ groupNames) (hnew : found.lookup key = none) (group : List Comment)
    (rest : List (Option String × Draft)) :
    among place found (ofMembers (groupMember key group) ++ rest) =
      among place (if group.isEmpty then found else (key, group) :: found) rest := by
  unfold groupMember
  split
  · rfl
  · rw [ofMembers, ofMembers, List.singleton_append, among, if_pos hkey, hnew, groupOf_toJson]
    rfl

/-- Written comments are read back. -/
theorem ofDraft_toJson (place : Place) (c : Comments) :
    ofDraft place (ofJson c.toJson) = .ok c := by
  obtain ⟨before, suffix, after⟩ := c
  rw [toJson, ofJson, ofDraft, Draft.ofMembers_append, Draft.ofMembers_append, List.append_assoc,
    among_groupMember place (by decide) rfl]
  rw [among_groupMember place (by decide) (by split <;> rfl),
    ← List.append_nil (ofMembers (groupMember "after" after)),
    among_groupMember place (by decide) (by split <;> split <;> rfl)]
  cases before <;> cases suffix <;> cases after <;> rfl

/-! ## Plainness -/

theorem arePlainMembers_groupMember (key : String) (group : List Comment) :
    arePlainMembers (groupMember key group) = true := by
  unfold groupMember
  split
  · rfl
  · rw [arePlainMembers, isPlain, arePlainMembers, Bool.and_true, Json.arePlain_iff]
    intro v hv
    obtain ⟨c, -, rfl⟩ := List.mem_map.1 hv
    rfl

theorem arePlainMembers_member (c : Comments) : arePlainMembers c.member = true := by
  unfold member
  split
  · rfl
  · simp only [arePlainMembers, toJson, isPlain, Json.arePlainMembers_append,
      arePlainMembers_groupMember, Bool.and_self]

end Comments

/-! ## Expressions -/

namespace Expr

/-- What an expression is. -/
def kind : Expr → Kind
  | literal .. => .literal
  | string .. => .string
  | list .. => .list
  | dict .. => .dict
  | keyValue .. => .keyValue
  | binary .. => .binary
  | call .. => .call

/-- The members that an expression is written as, without its comments. -/
def fieldMembers : Expr → List (String × Json)
  | literal token _ => [("type", .string "literal"), ("token", .string token)]
  | string value _ => [("type", .string "string"), ("value", .string value)]
  | list elements _ => [("type", .string "list"), ("elements", .array (toJsons elements))]
  | dict entries _ => [("type", .string "dict"), ("entries", .array (toJsons entries))]
  | keyValue key value _ =>
      [("type", .string "key_value"), ("key", key.toJson), ("value", value.toJson)]
  | binary left op right _ =>
      [("type", .string "binary"), ("left", left.toJson), ("op", .string op),
        ("right", right.toJson)]
  | call callee args compact _ =>
      [("type", .string "call"), ("callee", callee.toJson), ("args", .array (toJsons args))] ++
        if compact then [("force_compact", .bool true)] else []

/-- The fields that an expression has. -/
def slots : Expr → Slots
  | literal text _ | string text _ => { text := some text }
  | list items _ | dict items _ => { items := some items }
  | keyValue first second _ => { first := some first, second := some second }
  | binary first text second _ =>
      { text := some text, first := some first, second := some second }
  | call first items compact _ =>
      { first := some first, items := some items, compact := if compact then some true else none }

theorem toExpr_slots (e : Expr) : e.slots.toExpr e.comments e.kind = .ok e := by
  cases e with
  | call f args compact c => cases compact <;> rfl
  | _ => rfl

theorem toJson_eq (e : Expr) : e.toJson = .object (e.fieldMembers ++ e.comments.member) := by
  cases e <;> rw [toJson] <;> rfl

mutual

/-- An expression is written without numbers. -/
theorem isPlain_toJson : ∀ e : Expr, e.toJson.isPlain = true
  | literal _ c | string _ c => by
      rw [toJson, isPlain, Json.arePlainMembers_append, c.arePlainMembers_member]
      rfl
  | list es c | dict es c => by
      simp [toJson, isPlain, arePlainMembers, arePlain_toJsons es, c.arePlainMembers_member]
  | keyValue k v c => by
      simp [toJson, isPlain, arePlainMembers, isPlain_toJson k, isPlain_toJson v,
        c.arePlainMembers_member]
  | binary l _ r c => by
      simp [toJson, isPlain, arePlainMembers, isPlain_toJson l, isPlain_toJson r,
        c.arePlainMembers_member]
  | call f args compact c => by
      cases compact <;>
        simp [toJson, isPlain, arePlainMembers, isPlain_toJson f, arePlain_toJsons args,
          c.arePlainMembers_member]

theorem arePlain_toJsons : ∀ es : List Expr, arePlain (toJsons es) = true
  | [] => rfl
  | e :: es => by rw [toJsons, arePlain, isPlain_toJson e, arePlain_toJsons es, Bool.and_self]

end

theorem arePlainMembers_fieldMembers (e : Expr) : arePlainMembers e.fieldMembers = true := by
  have h := e.isPlain_toJson
  rw [toJson_eq, isPlain, Json.arePlainMembers_append, Bool.and_eq_true] at h
  exact h.1

theorem comments_notMem_fieldMembers (e : Expr) : "comments" ∉ e.fieldMembers.map Prod.fst := by
  cases e with
  | call f args compact c => cases compact <;> simp [fieldMembers]
  | _ => simp [fieldMembers]

/-! ## The three passes -/

/-- Straight from the text the other members are taken as values first. -/
theorem commentsAmong_others {ms : List (String × Json)} (hkeys : "comments" ∉ ms.map Prod.fst)
    (hplain : arePlainMembers ms = true) (place : Place) (rest : List (Option String × Draft)) :
    commentsAmong place none (ofMembers ms ++ rest) =
      if place = .text ∧ memberDepth < opensMembers ms then .error .malformed
      else commentsAmong place none rest := by
  induction ms with
  | nil => simp [ofMembers, opensMembers]
  | cons m ms ih =>
      obtain ⟨key, v⟩ := m
      rw [arePlainMembers, Bool.and_eq_true] at hplain
      rw [List.map_cons, List.mem_cons, not_or] at hkeys
      rw [ofMembers, List.cons_append, commentsAmong, if_neg (Ne.symm hkeys.1), ih hkeys.2 hplain.2,
        Draft.value?_ofJson v memberDepth hplain.1, opensMembers]
      by_cases hv : v.opens ≤ memberDepth
      · have : memberDepth < max v.opens (opensMembers ms) ↔ memberDepth < opensMembers ms := by
          omega
        simp [hv, this]
      · have : memberDepth < max v.opens (opensMembers ms) := by omega
        cases place <;> simp [hv, this]

theorem commentsAmong_member (place : Place) (c : Comments) :
    commentsAmong place none (ofMembers c.member) = .ok c := by
  unfold Comments.member
  split
  next h =>
    rw [(Comments.isEmpty_iff c).1 h]
    rfl
  next =>
    rw [ofMembers, ofMembers, commentsAmong, if_pos rfl, Comments.ofDraft_toJson]
    rfl

/-- The comments of a written expression, unless its fields are too deep. -/
theorem commentsAmong_written (place : Place) (e : Expr) :
    commentsAmong place none (ofMembers (e.fieldMembers ++ e.comments.member)) =
      if place = .text ∧ memberDepth < opensMembers e.fieldMembers then .error .malformed
      else .ok e.comments := by
  rw [Draft.ofMembers_append, commentsAmong_others e.comments_notMem_fieldMembers
    e.arePlainMembers_fieldMembers, commentsAmong_member]

/-- The kind of a written expression. -/
theorem among_written (e : Expr) (c : Comments) :
    Kind.among none (ofMembers (e.fieldMembers ++ c.member)) = .ok e.kind := by
  have hmember (k : Kind) : Kind.among (some k) (ofMembers c.member) = .ok k := by
    unfold Comments.member
    split <;> rfl
  cases e with
  | call f args compact _ => cases compact <;> exact hmember .call
  | literal => exact hmember .literal
  | string => exact hmember .string
  | list => exact hmember .list
  | dict => exact hmember .dict
  | keyValue => exact hmember .keyValue
  | binary => exact hmember .binary

section

variable {kind : Kind} {s : Slots} {key : String} {d : Draft} {ms : List (Option String × Draft)}

theorem slotsAmong_other (h : kind.fields.lookup key = none) :
    slotsAmong kind s ((some key, d) :: ms) = slotsAmong kind s ms := by
  simp only [slotsAmong, Option.bind_some, h]

theorem slotsAmong_text {text : String} (h : kind.fields.lookup key = some .text)
    (hnew : s.text = none) (hd : stringOf d = .ok text) :
    slotsAmong kind s ((some key, d) :: ms) = slotsAmong kind { s with text := some text } ms := by
  simp only [slotsAmong, Option.bind_some, h, Slots.has, hnew, hd]
  rfl

theorem slotsAmong_first {e : Expr} (h : kind.fields.lookup key = some .first)
    (hnew : s.first = none) (hd : ofDraft .value d = .ok e) :
    slotsAmong kind s ((some key, d) :: ms) = slotsAmong kind { s with first := some e } ms := by
  simp only [slotsAmong, Option.bind_some, h, Slots.has, hnew, hd]
  rfl

theorem slotsAmong_second {e : Expr} (h : kind.fields.lookup key = some .second)
    (hnew : s.second = none) (hd : ofDraft .value d = .ok e) :
    slotsAmong kind s ((some key, d) :: ms) = slotsAmong kind { s with second := some e } ms := by
  simp only [slotsAmong, Option.bind_some, h, Slots.has, hnew, hd]
  rfl

theorem slotsAmong_items {ds : List Draft} {es : List Expr}
    (h : kind.fields.lookup key = some .items) (hnew : s.items = none)
    (hds : itemsOf ds = .ok es) :
    slotsAmong kind s ((some key, .array ds) :: ms) =
      slotsAmong kind { s with items := some es } ms := by
  simp only [slotsAmong, Option.bind_some, h, Slots.has, hnew, listOf, hds]
  rfl

end

theorem slotsAmong_member (kind : Kind) (s : Slots) (c : Comments) :
    slotsAmong kind s (ofMembers c.member) = .ok s := by
  unfold Comments.member
  split
  · rfl
  · exact slotsAmong_other (by cases kind <;> rfl)

/-- A written expression, once its fields are read, unless they are too deep. -/
theorem ofDraft_written (place : Place) {e : Expr}
    (h : slotsAmong e.kind {} (ofMembers (e.fieldMembers ++ e.comments.member)) = .ok e.slots) :
    ofDraft place (ofJson e.toJson) =
      if place = .text ∧ memberDepth < opensMembers e.fieldMembers then .error .malformed
      else .ok e := by
  rw [toJson_eq, ofJson, ofDraft, commentsAmong_written]
  split
  · rfl
  · rw [among_written]
    show (do let slots ← slotsAmong e.kind {} _; slots.toExpr e.comments e.kind) = _
    rw [h]
    exact e.toExpr_slots

mutual

/-- The fields of a written expression. -/
theorem slotsAmong_written : ∀ (e : Expr) (c : Comments),
    slotsAmong e.kind {} (ofMembers (e.fieldMembers ++ c.member)) = .ok e.slots
  | literal .., c | string .., c => slotsAmong_member _ _ c
  | list es _, c | dict es _, c => by
      refine (slotsAmong_other rfl).trans ?_
      refine (slotsAmong_items rfl rfl (itemsOf_written es)).trans ?_
      exact slotsAmong_member _ _ c
  | keyValue k v _, c => by
      have hk := ofDraft_written .value (slotsAmong_written k k.comments)
      have hv := ofDraft_written .value (slotsAmong_written v v.comments)
      refine (slotsAmong_other rfl).trans ?_
      refine (slotsAmong_first rfl rfl hk).trans ?_
      refine (slotsAmong_second rfl rfl hv).trans ?_
      exact slotsAmong_member _ _ c
  | binary l op r _, c => by
      have hl := ofDraft_written .value (slotsAmong_written l l.comments)
      have hr := ofDraft_written .value (slotsAmong_written r r.comments)
      refine (slotsAmong_other rfl).trans ?_
      refine (slotsAmong_first rfl rfl hl).trans ?_
      refine (slotsAmong_text rfl rfl rfl).trans ?_
      refine (slotsAmong_second rfl rfl hr).trans ?_
      exact slotsAmong_member _ _ c
  | call f args compact _, c => by
      have hf := ofDraft_written .value (slotsAmong_written f f.comments)
      rw [fieldMembers, List.append_assoc]
      refine (slotsAmong_other rfl).trans ?_
      refine (slotsAmong_first rfl rfl hf).trans ?_
      refine (slotsAmong_items rfl rfl (itemsOf_written args)).trans ?_
      cases compact <;> exact slotsAmong_member _ _ c

theorem itemsOf_written : ∀ es : List Expr, itemsOf (ofItems (toJsons es)) = .ok es
  | [] => rfl
  | e :: es => by
      have he := ofDraft_written .value (slotsAmong_written e e.comments)
      rw [toJsons, ofItems, itemsOf, he, itemsOf_written es]
      rfl

end

theorem opens_eq (e : Expr) :
    e.opens = max (opensMembers e.fieldMembers) e.comments.opens + 1 := by
  rw [opens, toJson_eq, Json.opens, Json.opensMembers_append, Comments.opens]

/-- A written statement is read back, unless it is too deep. -/
theorem ofDraft_stmt (e : Expr) :
    ofDraft .text (ofJson e.toJson) =
      if e.opens ≤ memberDepth + 1 then .ok e else .error .malformed := by
  have hcomments : e.comments.opens ≤ memberDepth :=
    Nat.le_trans e.comments.opens_le (by decide)
  rw [ofDraft_written .text (slotsAmong_written e e.comments), opens_eq]
  by_cases h : memberDepth < opensMembers e.fieldMembers
  · rw [if_pos ⟨rfl, h⟩, if_neg (by omega)]
  · rw [if_neg (fun hc => h hc.2), if_pos (by omega)]

end Expr

/-! ## Files -/

namespace File

/-- The deepest nesting of arrays and objects that a text of a build file may have. -/
def textDepth : Nat := Expr.memberDepth + 3

theorem isPlain_toJson (f : File) : f.toJson.isPlain = true := by
  simp [toJson, isPlain, arePlainMembers, Expr.arePlain_toJsons]

/-- Written statements are read back, unless one is too deep. -/
theorem stmtsOf_written (es : List Expr) :
    stmtsOf (ofJson (.array (Expr.toJsons es))) =
      if Expr.opensAll es ≤ Expr.memberDepth + 1 then .ok es else .error .malformed := by
  rw [ofJson, stmtsOf]
  induction es with
  | nil => rfl
  | cons e es ih =>
      rw [Expr.toJsons, ofItems, List.mapM_cons, Expr.ofDraft_stmt, ih, Expr.opensAll_cons]
      by_cases he : e.opens ≤ Expr.memberDepth + 1
      · by_cases hes : Expr.opensAll es ≤ Expr.memberDepth + 1
        · rw [if_pos he, if_pos hes, if_pos (Nat.max_le.2 ⟨he, hes⟩)]
          rfl
        · rw [if_pos he, if_neg hes, if_neg fun h => hes (Nat.max_le.1 h).2]
          rfl
      · rw [if_neg he, if_neg fun h => he (Nat.max_le.1 h).1]
        rfl

/-- A written build file is read back from its value, unless it is too deep. -/
theorem ofDraft_written (f : File) :
    ofDraft (ofJson f.toJson) =
      if f.toJson.opens ≤ textDepth then .ok f else .error .malformed := by
  have hstmts : ofDraft (ofJson f.toJson) =
      (stmtsOf (ofJson (.array (Expr.toJsons f.stmts)))).map fun stmts => ⟨f.path, stmts⟩ := by
    show (do among (some f.path) (some (← stmtsOf (ofJson (.array (Expr.toJsons f.stmts))))) []) = _
    cases stmtsOf (ofJson (.array (Expr.toJsons f.stmts))) <;> rfl
  rw [hstmts, stmtsOf_written, opens_toJson]
  by_cases h : Expr.opensAll f.stmts ≤ Expr.memberDepth + 1
  · rw [if_pos h, if_pos (by unfold textDepth; omega)]
    rfl
  · rw [if_neg h, if_neg (by unfold textDepth; omega)]
    rfl

/-- A printed build file with blanks behind it is read back, unless it is too deep. -/
theorem parse_written {lay : Json.Layout} (hlay : lay.Blank) (f : File) {blanks : List Char}
    (hblanks : ∀ c ∈ blanks, Json.isSpace c = true) :
    parse (String.ofList (Json.print lay 0 f.toJson ++ blanks)) =
      if f.toJson.opens ≤ textDepth then .ok f else .error .malformed := by
  rw [parse, Draft.read_print hlay f.isPlain_toJson hblanks, ofDraft_written]
  split <;> rfl

/-- The text written for a build file is read back, unless it is too deep. -/
theorem parse_text (f : File) :
    parse f.text = if f.toJson.opens ≤ textDepth then .ok f else .error .malformed := by
  have hblanks : ∀ c ∈ ['\n'], Json.isSpace c = true :=
    List.forall_mem_singleton.2 rfl
  rw [← parse_written Json.Layout.blank_pretty f hblanks, text, Json.pretty, String.ofList_append]

/-- A build file that opens no more than 127 arrays and objects at once is read
back from both of its texts, the one without blanks and the one with a line for
each item. -/
theorem parse_printed {f : File} (h : f.toJson.opens ≤ 127) :
    parse f.toJson.compact = .ok f ∧ parse f.toJson.pretty = .ok f := by
  have hread {lay : Json.Layout} (hlay : lay.Blank) :
      parse (String.ofList (Json.print lay 0 f.toJson)) = .ok f := by
    have hwritten : parse (String.ofList (Json.print lay 0 f.toJson ++ [])) = _ :=
      parse_written hlay f nofun
    rw [List.append_nil] at hwritten
    exact hwritten.trans (if_pos h)
  exact ⟨hread Json.Layout.blank_compact, hread Json.Layout.blank_pretty⟩

/-- A value in so many lists, each the only element of the next. -/
def nested (e : Expr) : Nat → Expr
  | 0 => e
  | n + 1 => .list [nested e n] {}

/-- A build file as deep as can be read, with characters that are escaped and
others that are not. -/
def deepest : File where
  path := "\"caf\u00e9\"\x00/BUILD"
  stmts := [nested (.literal "\x1f\x7f" {}) 62,
    .call (.literal "f" {}) [.string "a\\b\n\u2028" ⟨[], [⟨"#\t𝄞"⟩], []⟩] true {}]

theorem deepest_printed : deepest.toJson.opens = 127 ∧
    parse deepest.toJson.compact = .ok deepest ∧ parse deepest.toJson.pretty = .ok deepest :=
  ⟨by decide +kernel, parse_printed (by decide +kernel)⟩

end File

end BuildFix
