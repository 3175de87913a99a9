import BuildFix.Proofs.Attempts
import BuildFix.Proofs.Json.Spelling
import BuildFix.Tree.Decode

/-!
# The members of an object

All objects of a tree are read in one manner.  A member has a field by its name, or none.
A member with a field is read, unless the field was read before, and its value is put there.
A member without a field has to pass a test and leaves no trace.  `Reader` says what the
fields are, how they are read and what passes, and `Reader.Runs` says that a recursion over
the members goes on like that.

What such a recursion comes to does not depend on the order of the members
(`Reader.Runs.perm`), since a field is read once and fields that differ may be put in either
order.  It does not change either if a member passes that was not there
(`Reader.Runs.extend`), or if a value is exchanged for one that reads the same
(`Reader.Runs.replace`).
-/

namespace BuildFix

open Json (Draft)

/-- A member of an object, which has a name unless the name is no text. -/
abbrev Member := Option String × Draft

/-- How the members of an object are read.  `S` is what was read so far. -/
structure Reader (K : Type) (V : K → Type) (S : Type) where
  /-- The field that a name stands for. -/
  field? : Option String → Option K
  /-- Decide whether a field was read. -/
  has : S → K → Bool
  /-- Put the value of a field. -/
  put : S → (k : K) → V k → S
  /-- The value of a field that a draft spells. -/
  read : (k : K) → Draft → Except ReadError (V k)
  /-- Decide whether a member without a field passes. -/
  passes : Option String → Draft → Bool

/-- A field is read once, and then the reading goes on. -/
theorem readOnce_eq_ok_iff {α β : Type} {before : Bool} {e : ReadError}
    {read : Except ReadError α} {next : α → Except ReadError β} {x : β} :
    (if before = true then .error e else read >>= next) = .ok x ↔
      before = false ∧ ∃ v, read = .ok v ∧ next v = .ok x := by
  cases before <;> cases read <;> simp [bind, Except.bind]

namespace Reader

/-! ## Any object -/

section

variable {K S R : Type} {V : K → Type}

/-- A recursion over members reads them as a reader says. -/
structure Runs (r : Reader K V S) (run : S → List Member → Except ReadError R) : Prop where
  /-- A member with a field is read, unless the field was read before. -/
  field {s key d ms x k} (h : r.field? key = some k) : run s ((key, d) :: ms) = .ok x ↔
    r.has s k = false ∧ ∃ v, r.read k d = .ok v ∧ run (r.put s k v) ms = .ok x
  /-- A member without a field has to pass. -/
  pass {s key d ms x} (h : r.field? key = none) : run s ((key, d) :: ms) = .ok x ↔
    r.passes key d = true ∧ run s ms = .ok x
  /-- A field that was put was read. -/
  has_put_self (s k v) : r.has (r.put s k v) k = true
  /-- The other fields are as they were. -/
  has_put_of_ne {s k k' v} (h : k ≠ k') : r.has (r.put s k v) k' = r.has s k'
  /-- Fields that differ may be put in either order. -/
  put_comm {s k k' v v' ms} (h : k ≠ k') :
    run (r.put (r.put s k v) k' v') ms = run (r.put (r.put s k' v') k v) ms

variable {r : Reader K V S} {run : S → List Member → Except ReadError R} {s : S} {x : R}
  {m m' : Member} {key : Option String} {d d' : Draft} {ms ms' pre post : List Member}

/-- Two members may change places. -/
theorem Runs.swap (h : r.Runs run) (hok : run s (m :: m' :: ms) = .ok x) :
    run s (m' :: m :: ms) = .ok x := by
  obtain ⟨key, d⟩ := m
  obtain ⟨key', d'⟩ := m'
  cases hk : r.field? key with
  | none =>
      cases hk' : r.field? key' with
      | none =>
          rw [h.pass hk, h.pass hk'] at hok
          rw [h.pass hk', h.pass hk]
          exact ⟨hok.2.1, hok.1, hok.2.2⟩
      | some k' =>
          rw [h.pass hk, h.field hk'] at hok
          obtain ⟨hpass, hnew, v, hread, hok⟩ := hok
          rw [h.field hk']
          exact ⟨hnew, v, hread, (h.pass hk).2 ⟨hpass, hok⟩⟩
  | some k =>
      obtain ⟨hnew, v, hread, hok⟩ := (h.field hk).1 hok
      cases hk' : r.field? key' with
      | none =>
          obtain ⟨hpass, hok⟩ := (h.pass hk').1 hok
          rw [h.pass hk', h.field hk]
          exact ⟨hpass, hnew, v, hread, hok⟩
      | some k' =>
          obtain ⟨hnew', v', hread', hok⟩ := (h.field hk').1 hok
          have hne : k ≠ k' := by
            rintro rfl
            rw [h.has_put_self] at hnew'
            cases hnew'
          rw [h.has_put_of_ne hne] at hnew'
          rw [h.put_comm hne] at hok
          rw [← h.has_put_of_ne hne.symm (v := v')] at hnew
          rw [h.field hk']
          exact ⟨hnew', v', hread', (h.field hk).2 ⟨hnew, v, hread, hok⟩⟩

/-- A recursion goes on from a member in the same way, whatever follows. -/
theorem Runs.cons_congr (h : r.Runs run)
    (htail : ∀ s, run s ms = .ok x → run s ms' = .ok x) (hok : run s (m :: ms) = .ok x) :
    run s (m :: ms') = .ok x := by
  obtain ⟨key, d⟩ := m
  cases hk : r.field? key with
  | none =>
      obtain ⟨hpass, hok⟩ := (h.pass hk).1 hok
      exact (h.pass hk).2 ⟨hpass, htail s hok⟩
  | some k =>
      obtain ⟨hnew, v, hread, hok⟩ := (h.field hk).1 hok
      exact (h.field hk).2 ⟨hnew, v, hread, htail _ hok⟩

/-- The order of the members does not matter. -/
theorem Runs.perm (h : r.Runs run) (hperm : ms.Perm ms') (hok : run s ms = .ok x) :
    run s ms' = .ok x := by
  induction hperm generalizing s with
  | nil => exact hok
  | cons m _ ih => exact h.cons_congr (fun _ => ih) hok
  | swap m m' ms => exact h.swap hok
  | trans _ _ ih₁ ih₂ => exact ih₂ (ih₁ hok)

/-- A member without a field that passes may be added. -/
theorem Runs.extend (h : r.Runs run) (hkey : r.field? key = none)
    (hpass : r.passes key d = true) (hok : run s ms = .ok x) : run s ((key, d) :: ms) = .ok x :=
  (h.pass hkey).2 ⟨hpass, hok⟩

/-- A value may be exchanged for one that reads the same. -/
theorem Runs.replace (h : r.Runs run)
    (hread : ∀ k v, r.field? key = some k → r.read k d = .ok v → r.read k d' = .ok v)
    (hpass : r.field? key = none → r.passes key d = true → r.passes key d' = true)
    (hok : run s (pre ++ (key, d) :: post) = .ok x) :
    run s (pre ++ (key, d') :: post) = .ok x := by
  induction pre generalizing s with
  | nil =>
      cases hk : r.field? key with
      | none =>
          obtain ⟨hp, hok⟩ := (h.pass hk).1 hok
          exact (h.pass hk).2 ⟨hpass hk hp, hok⟩
      | some k =>
          obtain ⟨hnew, v, hv, hok⟩ := (h.field hk).1 hok
          exact (h.field hk).2 ⟨hnew, v, hread k v hk hv, hok⟩
  | cons m pre ih => exact h.cons_congr (fun _ => ih) hok

/-- Every member was read or has passed. -/
theorem Runs.of_mem (h : r.Runs run) (hok : run s ms = .ok x) (hmem : (key, d) ∈ ms) :
    (∃ k v, r.field? key = some k ∧ r.read k d = .ok v) ∨
      r.field? key = none ∧ r.passes key d = true := by
  induction ms generalizing s with
  | nil => cases hmem
  | cons m ms ih =>
      obtain ⟨key', d'⟩ := m
      cases hk : r.field? key' with
      | none =>
          obtain ⟨hpass, hok⟩ := (h.pass hk).1 hok
          rcases List.mem_cons.1 hmem with heq | hmem
          · cases heq
            exact .inr ⟨hk, hpass⟩
          · exact ih hok hmem
      | some k =>
          obtain ⟨-, v, hread, hok⟩ := (h.field hk).1 hok
          rcases List.mem_cons.1 hmem with heq | hmem
          · cases heq
            exact .inl ⟨k, v, hk, hread⟩
          · exact ih hok hmem

end

/-! ## Objects with one field -/

section

variable {α R : Type} {name : String} {read : Draft → Except ReadError α}
  {passes : Option String → Draft → Bool}

/-- The reader of a single field. -/
def single (name : String) (read : Draft → Except ReadError α)
    (passes : Option String → Draft → Bool) : Reader Unit (fun _ => α) (Option α) where
  field? key := if key = some name then some () else none
  has s _ := s.isSome
  put _ _ v := some v
  read _ := read
  passes := passes

theorem field?_single {key : Option String} :
    (single name read passes).field? key = none ↔ key ≠ some name := by
  simp [single]

theorem eq_of_field?_single {key : Option String} {k : Unit}
    (h : (single name read passes).field? key = some k) : key = some name := by
  by_cases hkey : key = some name
  · exact hkey
  · rw [field?_single.2 hkey] at h
    cases h

/-- With one field there is nothing to put in another order. -/
theorem runs_single {run : Option α → List Member → Except ReadError R}
    (hfield : ∀ {s d ms x}, run s ((some name, d) :: ms) = .ok x ↔
      s.isSome = false ∧ ∃ v, read d = .ok v ∧ run (some v) ms = .ok x)
    (hpass : ∀ {s key d ms x}, key ≠ some name → (run s ((key, d) :: ms) = .ok x ↔
      passes key d = true ∧ run s ms = .ok x)) :
    (single name read passes).Runs run where
  field {s key d ms x k} h := by
    rw [eq_of_field?_single h]
    exact hfield
  pass h := hpass (field?_single.1 h)
  has_put_self _ _ _ := rfl
  has_put_of_ne h := absurd rfl h
  put_comm h := absurd rfl h

end

end Reader

/-! ## The objects of a tree -/

/-- The members of a comment. -/
def Comment.reader : Reader Unit (fun _ => String) (Option String) :=
  .single "token" stringOf fun key d => key.isSome && d.isWhole

theorem Comment.runs_among : Comment.reader.Runs Comment.among :=
  Reader.runs_single
    (by
      intro s d ms x
      rw [among, if_pos rfl]
      exact readOnce_eq_ok_iff)
    (by
      intro s key d ms x hkey
      cases key with
      | none => simp [among]
      | some key =>
          rw [among, if_neg fun h => hkey (congrArg some h)]
          cases d.isWhole <;> simp)

namespace Comments

/-- The members of comments. -/
def reader (place : Place) :
    Reader String (fun _ => List Comment) (List (String × List Comment)) where
  field? key := key.filter (· ∈ groupNames)
  has s key := (s.lookup key).isSome
  put s key group := (key, group) :: s
  read _ := groupOf place
  passes key d := key.isSome && d.isWhole

/-- What was found is only looked up. -/
theorem among_congr {place : Place} {found found' : List (String × List Comment)}
    (h : ∀ key, found.lookup key = found'.lookup key) (ms : List Member) :
    among place found ms = among place found' ms := by
  induction ms generalizing found found' with
  | nil => simp only [among, h]
  | cons m ms ih =>
      obtain ⟨key, d⟩ := m
      cases key with
      | none => rfl
      | some key =>
          have hput (group : List Comment) :
              among place ((key, group) :: found) ms = among place ((key, group) :: found') ms :=
            ih fun key' => by simp only [List.lookup_cons, h]
          simp only [among, h, ih h, hput]

theorem runs_among (place : Place) : (reader place).Runs (among place) where
  field {s key d ms x k} h := by
    obtain ⟨hkey, hk⟩ := Option.filter_eq_some_iff.1 h
    rw [hkey, among, if_pos (of_decide_eq_true hk)]
    exact readOnce_eq_ok_iff
  pass {s key d ms x} h := by
    cases key with
    | none => simp [among, reader]
    | some key =>
        have hkey : key ∉ groupNames := by simpa [reader] using h
        rw [among, if_neg hkey]
        cases hd : d.isWhole <;> simp [reader, hd]
  has_put_self s k v := by simp [reader]
  has_put_of_ne {s k k' v} h := by
    have hother : (k' == k) = false := beq_false_of_ne (Ne.symm h)
    simp [reader, List.lookup_cons, hother]
  put_comm {s k k' v v' ms} h := by
    refine among_congr (fun key => ?_) ms
    simp only [reader, List.lookup_cons]
    by_cases hk : key = k
    · have hother : (key == k') = false := beq_false_of_ne (hk ▸ h)
      rw [hother]
    · have hother : (key == k) = false := beq_false_of_ne hk
      rw [hother]

end Comments

/-- The members of an expression, for its kind. -/
def Kind.reader : Reader Unit (fun _ => Kind) (Option Kind) :=
  .single "type" ofDraft fun _ _ => true

theorem Kind.runs_among : Kind.reader.Runs Kind.among :=
  Reader.runs_single
    (by
      intro s d ms x
      rw [among, if_pos rfl]
      exact readOnce_eq_ok_iff)
    (by
      intro s key d ms x hkey
      rw [among, if_neg hkey]
      simp)

namespace Expr

/-- The members of an expression, for its comments. -/
def commentsReader (place : Place) : Reader Unit (fun _ => Comments) (Option Comments) :=
  .single "comments" (Comments.ofDraft place) fun key d =>
    key.isSome && !(place = .text && (d.value? memberDepth).isNone)

/-- Straight from the text the members without a field have to be values. -/
theorem passes_commentsReader_iff {place : Place} {key : Option String} {d : Draft} :
    (commentsReader place).passes key d = true ↔
      key.isSome = true ∧ (place = .text → (d.value? memberDepth).isSome = true) := by
  cases place <;> cases h : d.value? memberDepth <;> simp [commentsReader, Reader.single, h]

theorem runs_commentsAmong (place : Place) :
    (commentsReader place).Runs (commentsAmong place) :=
  Reader.runs_single
    (by
      intro s d ms x
      rw [commentsAmong, if_pos rfl]
      exact readOnce_eq_ok_iff)
    (by
      intro s key d ms x hkey
      cases key with
      | none => simp [commentsAmong]
      | some key =>
          rw [commentsAmong, if_neg fun h => hkey (congrArg some h)]
          split
          next h => simp [h]
          next h => simp [h])

end Expr

/-- What a field of an expression holds. -/
abbrev Slot.Held : Slot → Type
  | text => String
  | first | second => Expr
  | items => List Expr
  | compact => Bool

/-- The fields with one more. -/
def Slots.put (s : Slots) : (k : Slot) → k.Held → Slots
  | .text, v => { s with text := some v }
  | .first, v => { s with first := some v }
  | .second, v => { s with second := some v }
  | .items, v => { s with items := some v }
  | .compact, v => { s with compact := some v }

namespace Expr

/-- The truth value of a draft. -/
def compactOf : Draft → Except ReadError Bool
  | .bool b => .ok b
  | d => .error (mismatchOf d)

/-- The value of a field that a draft spells. -/
def heldBy : (k : Slot) → Draft → Except ReadError k.Held
  | .text => stringOf
  | .first | .second => ofDraft .value
  | .items => listOf
  | .compact => compactOf

/-- The members of an expression, for the fields of its kind. -/
def slotsReader (kind : Kind) : Reader Slot Slot.Held Slots where
  field? key := key.bind (kind.fields.lookup ·)
  has := Slots.has
  put := Slots.put
  read := heldBy
  passes _ _ := true

theorem runs_slotsAmong (kind : Kind) : (slotsReader kind).Runs (slotsAmong kind) where
  field {s key d ms x k} h := by
    have hkey : key.bind (kind.fields.lookup ·) = some k := h
    cases k with
    | text | first | second | items =>
        simp only [slotsAmong, hkey]
        exact readOnce_eq_ok_iff
    | compact =>
        have hread : slotsAmong kind s ((key, d) :: ms) =
            if s.has .compact = true then .error (.duplicateField (key.getD ""))
            else compactOf d >>= fun b => slotsAmong kind { s with compact := some b } ms := by
          cases d <;> simp only [slotsAmong, hkey] <;> rfl
        rw [hread]
        exact readOnce_eq_ok_iff
  pass {s key d ms x} h := by
    have hkey : key.bind (kind.fields.lookup ·) = none := h
    simp only [slotsAmong, hkey]
    exact (and_iff_right rfl).symm
  has_put_self s k v := by cases k <;> rfl
  has_put_of_ne {s k k' v} h := by cases k <;> cases k' <;> first | rfl | exact absurd rfl h
  put_comm {s k k' v v' ms} h := by
    cases k <;> cases k' <;> first | rfl | exact absurd rfl h

end Expr

/-- The fields of a build file. -/
inductive FileField where
  /-- Where it came from. -/
  | path
  /-- Its statements. -/
  | stmts
deriving DecidableEq

/-- What a field of a build file holds. -/
abbrev FileField.Held : FileField → Type
  | path => String
  | stmts => List Expr

namespace File

/-- The members of a build file. -/
def reader : Reader FileField FileField.Held (Option String × Option (List Expr)) where
  field? key := if key = some "path" then some .path
    else if key = some "stmts" then some .stmts else none
  has
    | s, .path => s.1.isSome
    | s, .stmts => s.2.isSome
  put
    | s, .path, v => (some v, s.2)
    | s, .stmts, v => (s.1, some v)
  read
    | .path => stringOf
    | .stmts => stmtsOf
  passes _ _ := false

theorem field?_eq_path {key : Option String} (h : reader.field? key = some .path) :
    key = some "path" := by
  simp only [reader] at h
  split at h
  · assumption
  · split at h <;> cases h

theorem field?_eq_stmts {key : Option String} (h : reader.field? key = some .stmts) :
    key = some "stmts" := by
  simp only [reader] at h
  split at h
  · cases h
  · split at h
    · assumption
    · cases h

theorem runs_among : reader.Runs fun s => among s.1 s.2 where
  field {s key d ms x k} h := by
    cases k with
    | path =>
        rw [field?_eq_path h, among, if_pos rfl]
        exact readOnce_eq_ok_iff
    | stmts =>
        rw [field?_eq_stmts h, among, if_neg (by decide), if_pos rfl]
        exact readOnce_eq_ok_iff
  pass {s key d ms x} h := by
    cases key with
    | none => simp [among, reader]
    | some key =>
        have hkeys : key ≠ "path" ∧ key ≠ "stmts" := by
          constructor <;>
          · rintro rfl
            cases h
        rw [among, if_neg hkeys.1, if_neg hkeys.2]
        simp [reader]
  has_put_self s k v := by cases k <;> rfl
  has_put_of_ne {s k k' v} h := by cases k <;> cases k' <;> first | rfl | exact absurd rfl h
  put_comm {s k k' v v' ms} h := by
    cases k <;> cases k' <;> first | rfl | exact absurd rfl h

end File

/-! ## What was accepted has no cut -/

open Json.Draft (areWhole_iff areWholeMembers_iff)

theorem isWhole_of_stringOf {d : Draft} {s : String} (h : stringOf d = .ok s) :
    d.isWhole = true := by
  cases d with
  | string => rfl
  | _ => cases h

/-- All members are complete if those that are read are and no other passes. -/
theorem Reader.Runs.areWhole {K S R : Type} {V : K → Type} {r : Reader K V S}
    {run : S → List Member → Except ReadError R} {s : S} {ms : List Member} {x : R}
    (h : r.Runs run) (hread : ∀ k d v, r.read k d = .ok v → d.isWhole = true)
    (hpass : ∀ key d, r.field? key = none → r.passes key d = true → d.isWhole = true)
    (hok : run s ms = .ok x) : (Draft.object ms).isWhole = true := by
  refine areWholeMembers_iff.2 fun ⟨key, d⟩ hmem => ?_
  rcases h.of_mem hok hmem with ⟨k, v, -, hv⟩ | ⟨hkey, hp⟩
  · exact hread k d v hv
  · exact hpass key d hkey hp

/-- An array that is read as a comment holds its text. -/
theorem Comment.eq_singleton_of_ofDraft {place : Place} {ds : List Draft} {c : Comment}
    (h : ofDraft place (.array ds) = .ok c) : ∃ d s, ds = [d] ∧ stringOf d = .ok s := by
  match ds with
  | [] => cases h
  | [d] =>
      obtain ⟨s, hs, -⟩ := exists_of_bind_eq_ok h
      exact ⟨d, s, rfl, hs⟩
  | d :: _ :: _ =>
      obtain ⟨s, -, h⟩ := exists_of_bind_eq_ok h
      cases h

theorem Comment.isWhole_of_ofDraft {place : Place} {d : Draft} {c : Comment}
    (h : ofDraft place d = .ok c) : d.isWhole = true := by
  cases d with
  | object ms =>
      exact runs_among.areWhole (fun _ _ _ => isWhole_of_stringOf)
        (fun _ _ _ hp => (Bool.and_eq_true_iff.1 hp).2) h
  | array ds =>
      obtain ⟨d, s, rfl, hs⟩ := eq_singleton_of_ofDraft h
      exact areWhole_iff.2 (List.forall_mem_singleton.2 (isWhole_of_stringOf hs))
  | _ => cases h

namespace Comments

theorem isWhole_of_groupOf {place : Place} {d : Draft} {group : List Comment}
    (h : groupOf place d = .ok group) : d.isWhole = true := by
  cases d with
  | array ds =>
      refine areWhole_iff.2 fun d hd => ?_
      obtain ⟨c, hc⟩ := exists_of_mapM_eq_ok h d hd
      exact Comment.isWhole_of_ofDraft hc
  | _ => cases h

theorem isWhole_of_ofDraft {place : Place} {d : Draft} {c : Comments}
    (h : ofDraft place d = .ok c) : d.isWhole = true := by
  cases d with
  | object ms =>
      exact (runs_among place).areWhole (fun _ _ _ => isWhole_of_groupOf)
        (fun _ _ _ hp => (Bool.and_eq_true_iff.1 hp).2) h
  | array ds =>
      obtain ⟨groups, hgroups, h⟩ := exists_of_bind_eq_ok h
      split at h
      next => cases h
      next hlength =>
        rw [List.take_of_length_le (Nat.le_of_not_lt hlength)] at hgroups
        refine areWhole_iff.2 fun d hd => ?_
        obtain ⟨group, hgroup⟩ := exists_of_mapM_eq_ok hgroups d hd
        exact isWhole_of_groupOf hgroup
  | _ => cases h

end Comments

/-- The three passes over the members of an expression. -/
theorem Expr.ofDraft_object_iff {place : Place} {ms : List Member} {e : Expr} :
    ofDraft place (.object ms) = .ok e ↔
      ∃ c kind slots, commentsAmong place none ms = .ok c ∧ Kind.among none ms = .ok kind ∧
        slotsAmong kind {} ms = .ok slots ∧ slots.toExpr c kind = .ok e := by
  rw [ofDraft]
  constructor
  · intro h
    obtain ⟨c, hc, h⟩ := exists_of_bind_eq_ok h
    obtain ⟨kind, hkind, h⟩ := exists_of_bind_eq_ok h
    obtain ⟨slots, hslots, h⟩ := exists_of_bind_eq_ok h
    exact ⟨c, kind, slots, hc, hkind, hslots, h⟩
  · rintro ⟨c, kind, slots, hc, hkind, hslots, h⟩
    rw [hc, hkind]
    show (do let slots ← slotsAmong kind {} ms; slots.toExpr c kind) = _
    rw [hslots]
    exact h

/-- The expressions of a list are read one by one. -/
theorem Expr.itemsOf_eq_mapM (ds : List Draft) : itemsOf ds = ds.mapM (ofDraft .value) := by
  induction ds with
  | nil => rfl
  | cons d ds ih =>
      rw [itemsOf, ih, List.mapM_cons]

/-- Straight from the text an expression is complete. -/
theorem Expr.isWhole_of_ofDraft {d : Draft} {e : Expr} (h : ofDraft .text d = .ok e) :
    d.isWhole = true := by
  cases d with
  | object ms =>
      obtain ⟨c, kind, slots, hc, -⟩ := ofDraft_object_iff.1 h
      refine (runs_commentsAmong .text).areWhole (fun _ _ _ => Comments.isWhole_of_ofDraft) ?_ hc
      intro key d _ hp
      exact d.isWhole_of_value? memberDepth ((passes_commentsReader_iff.1 hp).2 rfl)
  | _ => cases h

namespace File

theorem isWhole_of_stmtsOf {d : Draft} {stmts : List Expr} (h : stmtsOf d = .ok stmts) :
    d.isWhole = true := by
  cases d with
  | array ds =>
      refine areWhole_iff.2 fun d hd => ?_
      obtain ⟨e, he⟩ := exists_of_mapM_eq_ok h d hd
      exact Expr.isWhole_of_ofDraft he
  | _ => cases h

/-- The object of a build file that was accepted is complete. -/
theorem isWhole_of_ofDraft {ms : List Member} {f : File} (h : ofDraft (.object ms) = .ok f) :
    (Draft.object ms).isWhole = true := by
  have hok :
      (fun s : Option String × Option (List Expr) => among s.1 s.2) (none, none) ms = .ok f := h
  refine runs_among.areWhole (fun k d v hv => ?_) (fun _ _ _ hp => nomatch hp) hok
  cases k with
  | path => exact isWhole_of_stringOf hv
  | stmts => exact isWhole_of_stmtsOf hv

end File

end BuildFix
