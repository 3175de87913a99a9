import BuildFix.Proofs.Tree.Members
import BuildFix.Proofs.Tree.Rereading
import Mathlib.Logic.Relation

/-!
# Rearranging the text of a tree

A text is rearranged one step at a time (`Rearranges`).  The members of any object may change
places.  An expression, comments or a comment may get a member that has no field there, with
any value without numbers that does not nest too deep.  Either may happen at any depth.

What a part of the text is read as, its `Role`, decides which names have no field.  It
follows from the roles around it and, for the fields of an expression, from the kind of the
expression, wherever the member that tells it stands.

No step is seen by whoever reads the part (`Rearranges.keeps`).  Complete parts stay
complete, values stay values, and what can be written stays so (`Rearranges.hereditary`).
Only a build file itself refuses members that it does not know (`File.among_unknown`).
-/

namespace BuildFix

open Json (Draft)
open Json.Draft (ofJson)

/-! ## Roles -/

/-- What a part of a text is read as. -/
inductive Role where
  /-- A build file. -/
  | file
  /-- The statements of a build file. -/
  | stmts
  /-- An expression. -/
  | expr
  /-- A list of expressions. -/
  | exprs
  /-- The comments of an expression. -/
  | comments
  /-- A group of comments. -/
  | group
  /-- A comment. -/
  | comment
  /-- Anything else. -/
  | other
deriving DecidableEq

namespace Role

/-- The role of the value of a field of an expression. -/
def ofSlot : Slot → Role
  | .first | .second => expr
  | .items => exprs
  | .text | .compact => other

/-- The role of the items of an array. -/
def item : Role → Role
  | stmts | exprs => expr
  | comments => group
  | group => comment
  | file | expr | comment | other => other

/-- The role of the value of a member of an object with these members. -/
def member (ms : List Member) (key : Option String) : Role → Role
  | file => if key = some "stmts" then stmts else other
  | expr =>
      if key = some "comments" then comments
      else match Kind.among none ms with
        | .ok kind => ((key.bind (kind.fields.lookup ·)).map ofSlot).getD other
        | .error _ => other
  | comments => if key.any (· ∈ Comments.groupNames) then group else other
  | stmts | exprs | group | comment | other => other

/-- An object with these members may have other members, and a name is not that of a field.
The fields of an expression are the type, the comments and those of its kind. -/
def Lacks (ms : List Member) (key : String) : Role → Prop
  | expr => key ≠ "type" ∧ key ≠ "comments" ∧
      ∀ kind, Kind.among none ms = .ok kind → kind.fields.lookup key = none
  | comments => key ∉ Comments.groupNames
  | comment => key ≠ "token"
  | file | stmts | exprs | group | other => False

end Role

/-! ## Steps -/

/-- One step of rearranging a part of a text, which has a role and `n` containers around it. -/
inductive Rearranges : Role → Nat → Draft → Draft → Prop where
  /-- The members of an object change places. -/
  | permute {role : Role} {n : Nat} {ms ms' : List Member} (hperm : ms.Perm ms') :
      Rearranges role n (.object ms) (.object ms')
  /-- An object gets a member that it has no field for. -/
  | extend {role : Role} {n : Nat} {ms : List Member} {key : String} {v : Json}
      (hkey : role.Lacks ms key) (hplain : v.isPlain = true)
      (hopens : n + 1 + v.opens ≤ File.textDepth) :
      Rearranges role n (.object ms) (.object ((some key, ofJson v) :: ms))
  /-- An item of an array is rearranged. -/
  | item {role : Role} {n : Nat} {d d' : Draft} {pre post : List Draft}
      (hitem : Rearranges role.item (n + 1) d d') :
      Rearranges role n (.array (pre ++ d :: post)) (.array (pre ++ d' :: post))
  /-- The value of a member is rearranged. -/
  | member {role : Role} {n : Nat} {key : Option String} {d d' : Draft} {pre post : List Member}
      (hvalue : Rearranges (role.member (pre ++ (key, d) :: post) key) (n + 1) d d') :
      Rearranges role n (.object (pre ++ (key, d) :: post)) (.object (pre ++ (key, d') :: post))

/-- A build file is rearranged in any number of steps. -/
def Rearranged : Draft → Draft → Prop := Relation.ReflTransGen (Rearranges .file 0)

/-! ## What every part keeps -/

/-- A property of parts at a depth is decided by the items of an array, and by the names and
values of an object, and it holds of values without numbers that do not nest too deep. -/
structure Hereditary (named : Option String → Prop) (P : Nat → Draft → Prop) : Prop where
  /-- Every text is a name. -/
  name (key : String) : named (some key)
  /-- An array has the property if its items have it. -/
  array {n ds ds'} (h : P n (.array ds)) : P n (.array ds') ↔ ∀ d ∈ ds', P (n + 1) d
  /-- An object has the property if its values have it. -/
  object {n ms ms'} (h : P n (.object ms)) :
    P n (.object ms') ↔ ∀ m ∈ ms', named m.1 ∧ P (n + 1) m.2
  /-- Values have the property. -/
  value {n} {v : Json} (hplain : v.isPlain = true) (hopens : n + v.opens ≤ File.textDepth) :
    P n (ofJson v)

theorem Rearranges.hereditary {named : Option String → Prop} {P : Nat → Draft → Prop}
    (hP : Hereditary named P) {role : Role} {n : Nat} {d d' : Draft} (h : Rearranges role n d d')
    (hd : P n d) : P n d' := by
  induction h with
  | permute hperm =>
      have hms := (hP.object hd).1 hd
      exact (hP.object hd).2 fun m hm => hms m (hperm.mem_iff.2 hm)
  | extend hkey hplain hopens =>
      have hms := (hP.object hd).1 hd
      exact (hP.object hd).2 (List.forall_mem_cons.2 ⟨⟨hP.name _, hP.value hplain hopens⟩, hms⟩)
  | item _ ih =>
      have hds := (hP.array hd).1 hd
      rw [List.forall_mem_append, List.forall_mem_cons] at hds
      refine (hP.array hd).2 ?_
      rw [List.forall_mem_append, List.forall_mem_cons]
      exact ⟨hds.1, ih hds.2.1, hds.2.2⟩
  | member _ ih =>
      have hms := (hP.object hd).1 hd
      rw [List.forall_mem_append, List.forall_mem_cons] at hms
      refine (hP.object hd).2 ?_
      rw [List.forall_mem_append, List.forall_mem_cons]
      exact ⟨hms.1, ⟨hms.2.1.1, ih hms.2.1.2⟩, hms.2.2⟩

theorem hereditary_isWhole : Hereditary (fun _ => True) fun _ d => d.isWhole = true where
  name _ := trivial
  array _ := Draft.areWhole_iff
  object _ := by
    simp only [true_and]
    exact Draft.areWholeMembers_iff
  value _ _ := Draft.isWhole_ofJson _

theorem hereditary_writable : Hereditary (fun _ => True) fun _ d => d.Writable where
  name _ := trivial
  array _ := Draft.writable_array_iff
  object _ := by
    simp only [true_and]
    exact Draft.writable_object_iff
  value hplain _ := Draft.writable_ofJson hplain

theorem hereditary_value? : Hereditary (fun key => key.isSome = true) fun n d =>
    (d.value? (File.textDepth - n)).isSome = true where
  name _ := rfl
  array {n ds ds'} h := by
    cases hk : File.textDepth - n with
    | zero =>
        rw [hk] at h
        cases h
    | succ k =>
        have hk' : File.textDepth - (n + 1) = k := by omega
        rw [hk', Draft.value?, Option.isSome_map, Draft.isSome_values?_iff]
  object {n ms ms'} h := by
    cases hk : File.textDepth - n with
    | zero =>
        rw [hk] at h
        cases h
    | succ k =>
        have hk' : File.textDepth - (n + 1) = k := by omega
        rw [hk', Draft.value?, Option.isSome_map, Draft.isSome_memberValues?_iff]
  value {n v} hplain hopens := by
    rw [Draft.value?_ofJson v _ hplain, if_pos (by omega)]
    rfl

section

variable {role : Role} {n : Nat} {d d' : Draft}

theorem Rearranges.isWhole (h : Rearranges role n d d') (hd : d.isWhole = true) :
    d'.isWhole = true := h.hereditary hereditary_isWhole hd

theorem Rearranges.writable (h : Rearranges role n d d') (hd : d.Writable) : d'.Writable :=
  h.hereditary hereditary_writable hd

theorem Rearranges.isSome_value? (h : Rearranges role n d d')
    (hd : (d.value? (File.textDepth - n)).isSome = true) :
    (d'.value? (File.textDepth - n)).isSome = true := h.hereditary hereditary_value? hd

/-- A text is no container. -/
theorem Rearranges.stringOf_ne_ok (h : Rearranges role n d d') (s : String) :
    stringOf d ≠ .ok s := by
  cases h <;> nofun

theorem Rearranges.compactOf_ne_ok (h : Rearranges role n d d') (b : Bool) :
    Expr.compactOf d ≠ .ok b := by
  cases h <;> nofun

theorem Rearranges.kind_ne_ok (h : Rearranges role n d d') (kind : Kind) :
    Kind.ofDraft d ≠ .ok kind := by
  cases h <;> nofun

end

/-! ## What readers see -/

/-- A reader that accepts a part in a role reads the same from another.  An expression that
is read straight from the text has the build file and its statements around it. -/
def Role.Keeps (n : Nat) (d d' : Draft) : Role → Prop
  | file => n = 0 → ∀ ms f, d = .object ms → File.ofDraft d = .ok f → File.ofDraft d' = .ok f
  | stmts => n = 1 → ∀ stmts, File.stmtsOf d = .ok stmts → File.stmtsOf d' = .ok stmts
  | expr => ∀ place e, (place = .text → n = 2) → Expr.ofDraft place d = .ok e →
      Expr.ofDraft place d' = .ok e
  | exprs => ∀ es, Expr.listOf d = .ok es → Expr.listOf d' = .ok es
  | comments => ∀ place c, Comments.ofDraft place d = .ok c → Comments.ofDraft place d' = .ok c
  | group => ∀ place group, Comments.groupOf place d = .ok group →
      Comments.groupOf place d' = .ok group
  | comment => ∀ place c, Comment.ofDraft place d = .ok c → Comment.ofDraft place d' = .ok c
  | other => True

namespace Role

variable {role : Role} {n : Nat} {key : Option String} {d d' : Draft} {ms ms' : List Member}

/-- An expression that stands where values stand has no condition on its depth. -/
theorem Keeps.value (h : expr.Keeps n d d') {e : Expr} (he : Expr.ofDraft .value d = .ok e) :
    Expr.ofDraft .value d' = .ok e := by
  refine h .value e (fun hplace => ?_) he
  cases hplace

theorem keeps_permute (hperm : ms.Perm ms') : role.Keeps n (.object ms) (.object ms') := by
  cases role with
  | file =>
      intro _ _ f _ h
      exact File.runs_among.perm (s := (none, none)) hperm h
  | expr =>
      intro place e _ h
      obtain ⟨c, kind, slots, hc, hkind, hslots, he⟩ := Expr.ofDraft_object_iff.1 h
      exact Expr.ofDraft_object_iff.2 ⟨c, kind, slots,
        (Expr.runs_commentsAmong place).perm hperm hc, Kind.runs_among.perm hperm hkind,
        (Expr.runs_slotsAmong kind).perm hperm hslots, he⟩
  | comments => exact fun place c h => (Comments.runs_among place).perm hperm h
  | comment => exact fun place c h => Comment.runs_among.perm hperm h
  | stmts => exact fun _ _ h => nomatch h
  | exprs => exact fun _ h => nomatch h
  | group => exact fun _ _ h => nomatch h
  | other => trivial

theorem keeps_extend {key : String} {v : Json} (hkey : role.Lacks ms key)
    (hplain : v.isPlain = true) (hopens : n + 1 + v.opens ≤ File.textDepth) :
    role.Keeps n (.object ms) (.object ((some key, ofJson v) :: ms)) := by
  have hwhole : ((some key).isSome && (ofJson v).isWhole) = true := Draft.isWhole_ofJson v
  cases role with
  | expr =>
      obtain ⟨htype, hcomments, hfields⟩ := hkey
      intro place e hplace h
      obtain ⟨c, kind, slots, hc, hkind, hslots, he⟩ := Expr.ofDraft_object_iff.1 h
      have hpass : (Expr.commentsReader place).passes (some key) (ofJson v) = true := by
        refine Expr.passes_commentsReader_iff.2 ⟨rfl, fun htext => ?_⟩
        have hdepth : v.opens ≤ Expr.memberDepth := by
          rw [hplace htext, File.textDepth] at hopens
          omega
        rw [Draft.value?_ofJson v _ hplain, if_pos hdepth]
        rfl
      have hnames : some key ≠ some "comments" ∧ some key ≠ some "type" :=
        ⟨fun h => hcomments (Option.some.inj h), fun h => htype (Option.some.inj h)⟩
      exact Expr.ofDraft_object_iff.2 ⟨c, kind, slots,
        (Expr.runs_commentsAmong place).extend (Reader.field?_single.2 hnames.1) hpass hc,
        Kind.runs_among.extend (Reader.field?_single.2 hnames.2) rfl hkind,
        (Expr.runs_slotsAmong kind).extend (hfields kind hkind) rfl hslots, he⟩
  | comments =>
      intro place c h
      have hnone : (Comments.reader place).field? (some key) = none := by
        simpa [Comments.reader] using show key ∉ Comments.groupNames from hkey
      exact (Comments.runs_among place).extend hnone hwhole h
  | comment =>
      intro place c h
      have hname : some key ≠ some "token" := fun h => hkey (Option.some.inj h)
      exact Comment.runs_among.extend (Reader.field?_single.2 hname) hwhole h
  | file => exact hkey.elim
  | stmts => exact hkey.elim
  | exprs => exact hkey.elim
  | group => exact hkey.elim
  | other => exact hkey.elim

theorem keeps_item {d d' : Draft} {pre post : List Draft}
    (hitem : Rearranges role.item (n + 1) d d') (hkeeps : role.item.Keeps (n + 1) d d') :
    role.Keeps n (.array (pre ++ d :: post)) (.array (pre ++ d' :: post)) := by
  cases role with
  | file => exact fun _ _ _ h => nomatch h
  | stmts =>
      intro hn stmts h
      exact mapM_replace (fun e => hkeeps .text e fun _ => congrArg (· + 1) hn) h
  | expr => exact fun _ _ _ h => nomatch h
  | exprs =>
      intro es h
      rw [Expr.listOf, Expr.itemsOf_eq_mapM] at h ⊢
      exact mapM_replace (fun _ he => Keeps.value hkeeps he) h
  | comments =>
      intro place c h
      obtain ⟨groups, hgroups, h⟩ := exists_of_bind_eq_ok h
      split at h
      next => cases h
      next hlength =>
        have hlength' : ¬3 < (pre ++ d' :: post).length := by
          rw [List.length_append] at hlength ⊢
          exact hlength
        rw [List.take_of_length_le (Nat.le_of_not_lt hlength)] at hgroups
        rw [Comments.ofDraft, List.take_of_length_le (Nat.le_of_not_lt hlength'),
          mapM_replace (fun group => hkeeps place group) hgroups]
        exact (if_neg hlength').trans h
  | group => exact fun place group h => mapM_replace (fun c => hkeeps place c) h
  | comment =>
      intro place c h
      obtain ⟨d₀, s, hds, hs⟩ := Comment.eq_singleton_of_ofDraft h
      have hmem : d ∈ pre ++ d :: post := by simp
      rw [hds, List.mem_singleton] at hmem
      exact absurd (hmem ▸ hs) (hitem.stringOf_ne_ok s)
  | other => trivial

/-- The value of a field of an expression is read the same from a rearranged part. -/
theorem keeps_heldBy {k : Slot} (hvalue : Rearranges (ofSlot k) (n + 1) d d')
    (hkeeps : (ofSlot k).Keeps (n + 1) d d') {v : k.Held} (h : Expr.heldBy k d = .ok v) :
    Expr.heldBy k d' = .ok v := by
  cases k with
  | text => exact absurd h (hvalue.stringOf_ne_ok v)
  | first => exact Keeps.value hkeeps h
  | second => exact Keeps.value hkeeps h
  | items => exact hkeeps v h
  | compact => exact absurd h (hvalue.compactOf_ne_ok v)

/-- The value of a field of an expression has the role of the field. -/
theorem member_expr {kind : Kind} {k : Slot} (hkind : Kind.among none ms = .ok kind)
    (hfield : (Expr.slotsReader kind).field? key = some k) :
    (expr.member ms key) = ofSlot k := by
  have hfield' : key.bind (kind.fields.lookup ·) = some k := hfield
  have hname : key ≠ some "comments" := by
    rintro rfl
    have hnone : kind.fields.lookup "comments" = none := by cases kind <;> rfl
    rw [Option.bind_some, hnone] at hfield'
    cases hfield'
  rw [member, if_neg hname, hkind]
  show ((key.bind (kind.fields.lookup ·)).map ofSlot).getD other = ofSlot k
  rw [hfield']
  rfl

theorem keeps_member {pre post : List Member}
    (hvalue : Rearranges (role.member (pre ++ (key, d) :: post) key) (n + 1) d d')
    (hkeeps : (role.member (pre ++ (key, d) :: post) key).Keeps (n + 1) d d') :
    role.Keeps n (.object (pre ++ (key, d) :: post)) (.object (pre ++ (key, d') :: post)) := by
  have hwhole (h : (key.isSome && d.isWhole) = true) : (key.isSome && d'.isWhole) = true := by
    rw [Bool.and_eq_true] at h ⊢
    exact ⟨h.1, hvalue.isWhole h.2⟩
  cases role with
  | file =>
      intro hn _ f _ h
      refine File.runs_among.replace (s := (none, none)) (fun k v hfield hread => ?_) nofun h
      cases k with
      | path => exact absurd hread (hvalue.stringOf_ne_ok v)
      | stmts =>
          have hname : key = some "stmts" := File.field?_eq_stmts hfield
          rw [member, if_pos hname] at hkeeps
          exact hkeeps (congrArg (· + 1) hn) v hread
  | expr =>
      intro place e hplace h
      obtain ⟨c, kind, slots, hc, hkind, hslots, he⟩ := Expr.ofDraft_object_iff.1 h
      have hc' : Expr.commentsAmong place none (pre ++ (key, d') :: post) = .ok c := by
        refine (Expr.runs_commentsAmong place).replace (fun k v hfield hread => ?_)
          (fun _ hpass => ?_) hc
        · rw [member, if_pos (Reader.eq_of_field?_single hfield)] at hkeeps
          exact hkeeps place v hread
        · rw [Expr.passes_commentsReader_iff] at hpass ⊢
          refine ⟨hpass.1, fun htext => ?_⟩
          have hdepth : File.textDepth - (n + 1) = Expr.memberDepth := by
            rw [hplace htext]
            rfl
          rw [← hdepth]
          exact hvalue.isSome_value? (hdepth ▸ hpass.2 htext)
      have hkind' : Kind.among none (pre ++ (key, d') :: post) = .ok kind :=
        Kind.runs_among.replace (fun _ v _ hread => absurd hread (hvalue.kind_ne_ok v))
          (fun _ _ => rfl) hkind
      have hslots' : Expr.slotsAmong kind {} (pre ++ (key, d') :: post) = .ok slots := by
        refine (Expr.runs_slotsAmong kind).replace (fun k v hfield hread => ?_)
          (fun _ _ => rfl) hslots
        rw [member_expr hkind hfield] at hvalue hkeeps
        exact keeps_heldBy hvalue hkeeps hread
      exact Expr.ofDraft_object_iff.2 ⟨c, kind, slots, hc', hkind', hslots', he⟩
  | comments =>
      intro place c h
      refine (Comments.runs_among place).replace (fun k v hfield hread => ?_)
        (fun _ hpass => hwhole hpass) h
      obtain ⟨hname, hk⟩ := Option.filter_eq_some_iff.1 hfield
      rw [member, hname, Option.any_some, if_pos hk] at hkeeps
      exact hkeeps place v hread
  | comment =>
      intro place c h
      exact Comment.runs_among.replace (fun _ v _ hread => absurd hread (hvalue.stringOf_ne_ok v))
        (fun _ hpass => hwhole hpass) h
  | stmts => exact fun _ _ h => nomatch h
  | exprs => exact fun _ h => nomatch h
  | group => exact fun _ _ h => nomatch h
  | other => trivial

end Role

/-- No step is seen by whoever reads the part. -/
theorem Rearranges.keeps {role : Role} {n : Nat} {d d' : Draft} (h : Rearranges role n d d') :
    role.Keeps n d d' := by
  induction h with
  | permute hperm => exact Role.keeps_permute hperm
  | extend hkey hplain hopens => exact Role.keeps_extend hkey hplain hopens
  | item hitem ih => exact Role.keeps_item hitem ih
  | member hvalue ih => exact Role.keeps_member hvalue ih

/-! ## Build files -/

namespace File

variable {ms ms' : List Member} {f : File} {d : Draft}

/-- A rearranged build file is an object, is read the same, and can be written. -/
theorem ofDraft_of_rearranged (h : Rearranged (.object ms) d)
    (hok : ofDraft (.object ms) = .ok f) (hwrite : (Draft.object ms).Writable) :
    (∃ ms', d = .object ms') ∧ ofDraft d = .ok f ∧ d.Writable := by
  induction h with
  | refl => exact ⟨⟨ms, rfl⟩, hok, hwrite⟩
  | tail _ hstep ih =>
      obtain ⟨⟨ms', rfl⟩, hok', hwrite'⟩ := ih
      refine ⟨?_, hstep.keeps rfl ms' f rfl hok', hstep.writable hwrite'⟩
      cases hstep with
      | permute => exact ⟨_, rfl⟩
      | extend => exact ⟨_, rfl⟩
      | member => exact ⟨_, rfl⟩

/-- A member that a build file does not know is refused, whatever its value is. -/
theorem among_unknown {key : String} (hpath : key ≠ "path") (hstmts : key ≠ "stmts")
    {pre post : List Member} {path : Option String} {stmts : Option (List Expr)}
    (hok : among path stmts (pre ++ post) = .ok f) :
    among path stmts (pre ++ (some key, d) :: post) = .error (.unknownField key) := by
  induction pre generalizing path stmts with
  | nil => rw [List.nil_append, among, if_neg hpath, if_neg hstmts]
  | cons m pre ih =>
      obtain ⟨key', d'⟩ := m
      cases hk : reader.field? key' with
      | none =>
          obtain ⟨hpass, -⟩ := (runs_among.pass (s := (path, stmts)) hk).1 hok
          cases hpass
      | some k =>
          obtain ⟨hnew, v, hread, hok⟩ := (runs_among.field (s := (path, stmts)) hk).1 hok
          cases k with
          | path =>
              have hnew' : path.isSome = false := hnew
              have hread' : stringOf d' = .ok v := hread
              rw [field?_eq_path hk, List.cons_append, among, if_pos rfl, hnew', hread']
              exact ih hok
          | stmts =>
              have hnew' : stmts.isSome = false := hnew
              have hread' : stmtsOf d' = .ok v := hread
              rw [field?_eq_stmts hk, List.cons_append, among, if_neg (by decide), if_pos rfl,
                hnew', hread']
              exact ih hok

/-- The root of a text that was accepted spells the text. -/
theorem spelledBy_of_parse {text : String} (hparse : parse text = .ok f)
    (hroot : (Draft.read text).root = .object ms) :
    ofDraft (.object ms) = .ok f ∧ (Draft.object ms).isWhole = true ∧
      (Draft.object ms).SpelledBy text := by
  obtain ⟨f', hok, hf'⟩ := exists_of_bind_eq_ok hparse
  rw [hroot] at hok
  have hwhole := isWhole_of_ofDraft hok
  split at hf'
  next halone =>
    cases hf'
    have hread : Draft.read text = ⟨.object ms, true⟩ := by
      rw [← hroot, ← halone]
    exact ⟨hok, hwhole, (Draft.read_eq_iff hwhole).1 hread⟩
  next => cases hf'

theorem parse_of_spelledBy {text : String} (hd : d.isWhole = true) (h : d.SpelledBy text) :
    parse text = ofDraft d := by
  rw [parse, (Draft.read_eq_iff hd).2 h]
  show (do let f ← ofDraft d; if true = true then .ok f else .error .malformed) = ofDraft d
  cases ofDraft d <;> rfl

/-- Take a text that is accepted as a build file in the form of an object.  Its tokens are
those of the draft that was read.  However the draft is rearranged, there is a text for it,
and every such text is accepted and spells the same build file.  A member that a build file
does not know is refused, wherever it stands among the other members, whatever its value is. -/
theorem parse_rearranged {text : String} (hparse : parse text = .ok f)
    (hroot : (Draft.read text).root = .object ms) :
    (Draft.object ms).SpelledBy text ∧
      (∀ d, Rearranged (.object ms) d →
        (∃ text', d.SpelledBy text') ∧ ∀ text', d.SpelledBy text' → parse text' = .ok f) ∧
      ∀ key d ms' text', key ≠ "path" → key ≠ "stmts" → d.isWhole = true →
        ms'.Perm ((some key, d) :: ms) → (Draft.object ms').SpelledBy text' →
        parse text' = .error (.unknownField key) := by
  obtain ⟨hok, hwhole, hspelled⟩ := spelledBy_of_parse hparse hroot
  refine ⟨hspelled, ?_, ?_⟩
  · intro d hd
    obtain ⟨⟨ms', rfl⟩, hok', hwrite⟩ := ofDraft_of_rearranged hd hok (hspelled.writable hwhole)
    refine ⟨hwrite.exists_text, ?_⟩
    intro text' htext'
    rw [parse_of_spelledBy (isWhole_of_ofDraft hok') htext', hok']
  · intro key d ms' text' hpath hstmts hd hperm htext'
    have hmem : (some key, d) ∈ ms' := hperm.mem_iff.2 List.mem_cons_self
    obtain ⟨pre, post, rfl⟩ := List.append_of_mem hmem
    have hrest : ms.Perm (pre ++ post) :=
      (List.perm_middle.symm.trans hperm).cons_inv.symm
    have hwhole' : (Draft.object (pre ++ (some key, d) :: post)).isWhole = true := by
      refine Draft.areWholeMembers_iff.2 fun m hm => ?_
      rcases List.mem_cons.1 (hperm.mem_iff.1 hm) with rfl | hm
      · exact hd
      · exact Draft.areWholeMembers_iff.1 hwhole m hm
    have hok' : among none none (pre ++ post) = .ok f :=
      runs_among.perm (s := (none, none)) hrest hok
    rw [parse_of_spelledBy hwhole' htext']
    exact among_unknown hpath hstmts hok'

/-- A build file with one literal. -/
def literalFile : File := ⟨"a", [.literal "x" {}]⟩

/-- The same build file with its members in another order and one more in the literal. -/
def notedJson : Json :=
  .object [("stmts", .array [.object [("note", .array [.null]), ("token", .string "x"),
    ("type", .string "literal")]]), ("path", .string "a")]

theorem rearranged_notedJson : Rearranged (ofJson literalFile.toJson) (ofJson notedJson) := by
  have hlacks : Role.expr.Lacks
      [(some "token", .string (some "x")), (some "type", .string (some "literal"))] "note" := by
    refine ⟨by decide, by decide, ?_⟩
    intro kind hkind
    cases hkind
    rfl
  have hstmt {e e' : Draft} (h : Rearranges .expr 2 e e') :
      Rearranges .file 0 (.object [(some "path", .string (some "a")), (some "stmts", .array [e])])
        (.object [(some "path", .string (some "a")), (some "stmts", .array [e'])]) := by
    have hvalue : Rearranges .stmts 1 (.array [e]) (.array [e']) :=
      @Rearranges.item .stmts 1 e e' [] [] h
    exact @Rearranges.member .file 0 _ _ _ [_] [] hvalue
  exact ((Relation.ReflTransGen.single (hstmt (.permute (.swap _ _ [])))).tail
    (hstmt (.extend hlacks rfl (by decide)))).tail (.permute (.swap _ _ []))

theorem literalFile_rearranged :
    parse literalFile.toJson.compact = .ok literalFile ∧
      parse notedJson.compact = .ok literalFile := by
  have hwhole := Draft.isWhole_ofJson literalFile.toJson
  have hspelled := Draft.spelledBy_compact literalFile.isPlain_toJson
  have hparse : parse literalFile.toJson.compact = .ok literalFile :=
    (parse_of_spelledBy hwhole hspelled).trans rfl
  have hread := (Draft.read_eq_iff hwhole).2 hspelled
  have h := parse_rearranged hparse (congrArg Draft.Document.root hread)
  exact ⟨hparse, (h.2.1 _ rearranged_notedJson).2 _ (Draft.spelledBy_compact rfl)⟩

end File

end BuildFix
