import BuildFix.Proofs.Attempts
import BuildFix.Proofs.Squash.Shapes
import BuildFix.Squash.Basic

/-!
# What squashing does to a shape

Squashing takes both values apart, joins the parts and puts the result together.
`ShapesJoined S` relates the three shapes, where `S` relates the values of the
cases with one key.  An entry of the second `select` either goes to the end or is
joined into the first case of its key (`EntryJoined`), and the entries go one
after the other (`EntriesJoined`).

`squash_induction` is the induction over a squash that succeeds: a relation
between values that follows from `ShapesJoined` of itself holds between `x`, `y`
and `squash x y`.  Later proofs cite it and open neither `squash` nor its parts.
-/

namespace BuildFix

/-- The keys of the cases among entries, in order. -/
def caseKeys (xs : List Expr) : List String := xs.filterMap caseKey?

theorem caseKeys_append (xs ys : List Expr) : caseKeys (xs ++ ys) = caseKeys xs ++ caseKeys ys :=
  List.filterMap_append

theorem caseKeys_cons_case {x : Expr} {key : String} (h : caseKey? x = some key)
    (xs : List Expr) : caseKeys (x :: xs) = key :: caseKeys xs := by
  simp [caseKeys, h]

/-! ## Steps -/

/-- An entry joined into the entries `xs`, where `S` relates the values of two
cases of one key and the joined value. -/
inductive EntryJoined (S : Expr → Expr → Expr → Prop) (xs : List Expr) :
    Expr → List Expr → Prop where
  /-- An entry without a key, or with a new one. -/
  | added {y : Expr} (hy : ∀ key, caseKey? y = some key → key ∉ caseKeys xs) :
      EntryJoined S xs y (xs ++ [y])
  /-- A case whose key is there. -/
  | shared {before after : List Expr} {key : String} {kc kc' c c' : Comments} {xv yv v : Expr}
      (hxs : xs = before ++ .keyValue (.string key kc) xv c :: after)
      (hkey : key ∉ caseKeys before) (hv : S xv yv v) :
      EntryJoined S xs (.keyValue (.string key kc') yv c')
        (before ++ .keyValue (.string key (kc ++ kc')) v (c ++ c') :: after)

/-- Entries joined into others, one after the other. -/
inductive EntriesJoined (S : Expr → Expr → Expr → Prop) :
    List Expr → List Expr → List Expr → Prop where
  | nil {xs : List Expr} : EntriesJoined S xs [] xs
  | cons {xs zs rs : List Expr} {y : Expr} {ys : List Expr} (head : EntryJoined S xs y zs)
      (tail : EntriesJoined S zs ys rs) : EntriesJoined S xs (y :: ys) rs

/-- A `select` joined into another, of which either may be absent. -/
inductive SelectsJoined (S : Expr → Expr → Expr → Prop) :
    Option SelectValue → Option SelectValue → Option SelectValue → Prop where
  | left {x : Option SelectValue} : SelectsJoined S x none x
  | right {y : Option SelectValue} : SelectsJoined S none y y
  | both {x y : SelectValue} {zs : List Expr} (h : EntriesJoined S x.entries y.entries zs) :
      SelectsJoined S (some x) (some y)
        (some ⟨zs, x.dictComments ++ y.dictComments, x.callComments ++ y.callComments,
          x.calleeComments ++ y.calleeComments⟩)

/-- A shape joined from two others. -/
structure ShapesJoined (S : Expr → Expr → Expr → Prop) (x y r : Shape) : Prop where
  /-- The lists, end to end. -/
  list : r.list? = joinLists x.list? y.list?
  /-- The calls of `select`, case by case. -/
  select : SelectsJoined S x.select? y.select? r.select?
  /-- The comments of the operators. -/
  op : r.opComments = x.opComments ++ y.opComments

section Validity

variable {S : Expr → Expr → Expr → Prop} {xs ys zs : List Expr} {y : Expr}

theorem EntryJoined.all_isCaseEntry (h : EntryJoined S xs y zs)
    (hxs : xs.all isCaseEntry = true) (hy : isCaseEntry y = true) :
    zs.all isCaseEntry = true := by
  cases h with
  | added =>
      rw [List.all_append, hxs, List.all_cons, hy]
      rfl
  | shared hx =>
      rw [hx, List.all_append, List.all_cons] at hxs
      rw [List.all_append, List.all_cons]
      exact hxs

theorem EntriesJoined.all_isCaseEntry (h : EntriesJoined S xs ys zs)
    (hxs : xs.all isCaseEntry = true) (hys : ys.all isCaseEntry = true) :
    zs.all isCaseEntry = true := by
  induction h with
  | nil => exact hxs
  | cons head _ ih =>
      rw [List.all_cons, Bool.and_eq_true] at hys
      exact ih (head.all_isCaseEntry hxs hys.1) hys.2

theorem SelectsJoined.valid {x y s : Option SelectValue} (h : SelectsJoined S x y s)
    (hx : ∀ sel, x = some sel → sel.Valid) (hy : ∀ sel, y = some sel → sel.Valid) :
    ∀ sel, s = some sel → sel.Valid := by
  cases h with
  | left => exact hx
  | right => exact hy
  | both he =>
      intro sel hsel
      cases hsel
      exact he.all_isCaseEntry (hx _ rfl) (hy _ rfl)

/-- No comments of an operator are left over. -/
theorem SelectsJoined.opComments {x y : Shape} {s : Option SelectValue}
    (h : SelectsJoined S x.select? y.select? s) :
    (Shape.ofParts (joinLists x.list? y.list?) s (x.opComments ++ y.opComments)).opComments =
      x.opComments ++ y.opComments := by
  cases x <;> cases y <;> simp only [Shape.select?] at h <;> cases h <;> rfl

end Validity

/-! ## The steps of the functions -/

theorem updateCase_cases {key : String} {new : Expr} {change : Expr → Except ShapeError Expr}
    {xs zs : List Expr} (h : updateCase key new change xs = .ok zs) :
    (key ∉ caseKeys xs ∧ zs = xs ++ [new]) ∨
      ∃ before after x x', xs = before ++ x :: after ∧ key ∉ caseKeys before ∧
        caseKey? x = some key ∧ change x = .ok x' ∧ zs = before ++ x' :: after := by
  induction xs generalizing zs with
  | nil =>
      cases h
      exact .inl ⟨List.not_mem_nil, rfl⟩
  | cons x xs ih =>
      rw [updateCase] at h
      split at h
      next hx =>
        obtain ⟨x', hx', hzs⟩ := exists_of_bind_eq_ok h
        cases hzs
        exact .inr ⟨[], xs, x, x', rfl, List.not_mem_nil, hx, hx', rfl⟩
      next hx =>
        obtain ⟨rest, hrest, hzs⟩ := exists_of_bind_eq_ok h
        cases hzs
        have notHere {ks : List Expr} (hks : key ∉ caseKeys ks) : key ∉ caseKeys (x :: ks) := by
          rw [← List.singleton_append, caseKeys_append, List.mem_append]
          rintro (hhead | htail)
          · obtain ⟨x₀, hmem, hkey⟩ := List.mem_filterMap.1 hhead
            rw [List.mem_singleton.1 hmem] at hkey
            exact hx hkey
          · exact hks htail
        rcases ih hrest with ⟨hnew, rfl⟩ | ⟨before, after, x₁, x₁', rfl, hnew, hkey, hch, rfl⟩
        · exact .inl ⟨notHere hnew, rfl⟩
        · exact .inr ⟨x :: before, after, x₁, x₁', rfl, notHere hnew, hkey, hch, rfl⟩

theorem squash_of_joinSelects {x y : Option Expr} {sx sy : Shape} {s : Option SelectValue}
    (hx : Shape.ofValue x = .ok sx) (hy : Shape.ofValue y = .ok sy)
    (hs : joinSelects sx.select? sy.select? = .ok s) :
    squash x y = .ok (Shape.ofParts (joinLists sx.list? sy.list?) s
      (sx.opComments ++ sy.opComments)).toExpr? := by
  simp only [squash, hx, bind, Except.bind]
  split
  next e hy' =>
    rw [hy] at hy'
    cases hy'
  next sy' hy' =>
    rw [hy] at hy'
    cases hy'
    rw [hs]
    rfl

theorem squash_eq_ok {x y r : Option Expr} (h : squash x y = .ok r) :
    ∃ sx sy s, Shape.ofValue x = .ok sx ∧ Shape.ofValue y = .ok sy ∧
      joinSelects sx.select? sy.select? = .ok s ∧
      r = (Shape.ofParts (joinLists sx.list? sy.list?) s
        (sx.opComments ++ sy.opComments)).toExpr? := by
  rw [squash] at h
  obtain ⟨sx, hsx, h⟩ := exists_of_bind_eq_ok h
  split at h
  next => cases h
  next sy hsy =>
    obtain ⟨s, hs, h⟩ := exists_of_bind_eq_ok h
    cases h
    exact ⟨sx, sy, s, hsx, hsy, hs, rfl⟩

theorem joinLists_eq_none {x y : Option ListValue} (h : joinLists x y = none) : x = none := by
  cases x with
  | none => rfl
  | some l => cases y <;> cases h

theorem joinSelects_eq_none {x y : Option SelectValue} (h : joinSelects x y = .ok none) :
    x = none := by
  cases x with
  | none => rfl
  | some sel =>
      cases y with
      | none =>
          rw [joinSelects] at h
          cases h
      | some sel' =>
          rw [joinSelects] at h
          obtain ⟨zs, -, h⟩ := exists_of_bind_eq_ok h
          cases h

theorem Shape.toExpr?_ofParts_eq_none {l : Option ListValue} {s : Option SelectValue}
    {op : Comments} (h : (ofParts l s op).toExpr? = none) : l = none ∧ s = none := by
  cases l <;> cases s <;> cases h
  exact ⟨rfl, rfl⟩

/-- Nothing comes of nothing only. -/
theorem eq_none_of_squash_eq_ok_none {x y : Option Expr} (h : squash x y = .ok none) :
    x = none ∧ y = none := by
  obtain ⟨sx, sy, s, hsx, hsy, hs, hr⟩ := squash_eq_ok h
  obtain ⟨hlist, rfl⟩ := Shape.toExpr?_ofParts_eq_none hr.symm
  have noList : sx.list? = none := joinLists_eq_none hlist
  have noSelect : sx.select? = none := joinSelects_eq_none hs
  rw [noList, joinLists] at hlist
  rw [noSelect, joinSelects, Except.ok.injEq] at hs
  exact ⟨Shape.eq_none_of_parts hsx noList noSelect, Shape.eq_none_of_parts hsy hlist hs⟩

/-- Two values squash into a value. -/
theorem squash_some_eq_ok {x y : Expr} {r : Option Expr} (h : squash (some x) (some y) = .ok r) :
    ∃ e, r = some e := by
  cases r with
  | some e => exact ⟨e, rfl⟩
  | none => cases (eq_none_of_squash_eq_ok_none h).1

/-- A new value for a case, squashed from the values of two cases of one key. -/
theorem joinEntry_eq_ok {key : String} {x yv x' : Expr} {kc' c' : Comments}
    (hx : caseKey? x = some key)
    (h : joinEntry (fun xv => do return (← squash (some xv) (some yv)).getD xv) kc' c' x =
      .ok x') :
    ∃ kc xv c v, x = .keyValue (.string key kc) xv c ∧ squash (some xv) (some yv) = .ok (some v) ∧
      x' = .keyValue (.string key (kc ++ kc')) v (c ++ c') := by
  obtain ⟨kc, xv, c, rfl⟩ := caseKey?_eq_some_iff.1 hx
  rw [joinEntry] at h
  obtain ⟨v, hv, h⟩ := exists_of_bind_eq_ok h
  obtain ⟨r, hr, hv⟩ := exists_of_bind_eq_ok hv
  obtain ⟨e, rfl⟩ := squash_some_eq_ok hr
  cases hv
  cases h
  exact ⟨kc, xv, c, e, rfl, hr, rfl⟩

/-! ## Induction -/

/-- The relation on the values of cases. -/
def onValues (P : Option Expr → Option Expr → Option Expr → Prop) (x y r : Expr) : Prop :=
  P (some x) (some y) (some r)

/-- The shape that two shapes squash into, once their calls of `select` are joined. -/
theorem shapesJoined_ofParts {S : Expr → Expr → Expr → Prop} {x y : Option Expr} {sx sy : Shape}
    {s : Option SelectValue} (hx : Shape.ofValue x = .ok sx) (hy : Shape.ofValue y = .ok sy)
    (hs : SelectsJoined S sx.select? sy.select? s) :
    ∃ sr, Shape.ofValue (Shape.ofParts (joinLists sx.list? sy.list?) s
        (sx.opComments ++ sy.opComments)).toExpr? = .ok sr ∧ ShapesJoined S sx sy sr := by
  refine ⟨_, Shape.ofValue_toExpr? ?_, ?_, ?_, hs.opComments⟩
  · intro sel hsel
    rw [Shape.select?_ofParts] at hsel
    exact hs.valid (Shape.valid_of_ofValue hx) (Shape.valid_of_ofValue hy) sel hsel
  · rw [Shape.list?_ofParts]
  · rw [Shape.select?_ofParts]
    exact hs

/-- A case of the second `select` is added or joined. -/
theorem entryJoined_of_updateCase {S : Expr → Expr → Expr → Prop} {key : String} {kc c : Comments}
    {v : Expr} {xs zs : List Expr}
    (ih : ∀ xv r, squash (some xv) (some v) = .ok (some r) → S xv v r)
    (h : updateCase key (.keyValue (.string key kc) v c)
      (joinEntry (fun xv => do return (← squash (some xv) (some v)).getD xv) kc c) xs = .ok zs) :
    EntryJoined S xs (.keyValue (.string key kc) v c) zs := by
  rcases updateCase_cases h with
    ⟨hnew, rfl⟩ | ⟨before, after, x, x', hxs, hnew, hkey, hx', rfl⟩
  · refine .added ?_
    intro key' hkey'
    cases hkey'
    exact hnew
  · obtain ⟨kc₁, xv, c₁, r, rfl, hr, rfl⟩ := joinEntry_eq_ok hkey hx'
    exact .shared hxs hnew (ih xv r hr)

/-- The induction over a squash that succeeds. -/
theorem squash_induction {P : Option Expr → Option Expr → Option Expr → Prop}
    (joined : ∀ x y r sx sy sr, Shape.ofValue x = .ok sx → Shape.ofValue y = .ok sy →
      Shape.ofValue r = .ok sr → ShapesJoined (onValues P) sx sy sr → P x y r)
    {x y r : Option Expr} (h : squash x y = .ok r) : P x y r := by
  have all := squash.mutual_induct
    (fun x y => ∀ r, squash x y = .ok r → P x y r)
    (fun x y => ∀ s, joinSelects x y = .ok s → SelectsJoined (onValues P) x y s)
    (fun xs ys => ∀ zs, joinEntries xs ys = .ok zs → EntriesJoined (onValues P) xs ys zs)
    ?values ?noFirst ?noSecond ?selects ?nil ?unkeyed ?keyed ?other
  case values =>
    intro x y ih r h
    obtain ⟨sx, sy, s, hx, hy, hs, rfl⟩ := squash_eq_ok h
    obtain ⟨sr, hr, hjoined⟩ := shapesJoined_ofParts hx hy (ih sx sy hy s hs)
    exact joined x y _ sx sy sr hx hy hr hjoined
  case noFirst =>
    intro y s h
    rw [joinSelects] at h
    cases h
    exact .right
  case noSecond =>
    intro x s h
    rw [joinSelects] at h
    cases h
    exact .left
  case selects =>
    intro x y ih s h
    rw [joinSelects] at h
    obtain ⟨zs, hzs, h⟩ := exists_of_bind_eq_ok h
    cases h
    exact .both (ih zs hzs)
  case nil =>
    intro xs zs h
    rw [joinEntries] at h
    cases h
    exact .nil
  case unkeyed =>
    intro xs k v c ys hk ih rs h
    rw [joinEntries, hk] at h
    refine .cons (.added ?_) (ih _ rs h)
    intro key hkey
    rw [caseKey?, hk] at hkey
    cases hkey
  case keyed =>
    intro xs k v c ys key hk ih ihv rs h
    obtain ⟨kc, v', c', hkv⟩ := caseKey?_eq_some_iff.1 (show caseKey? (.keyValue k v c) = _ from hk)
    cases hkv
    rw [joinEntries, hk] at h
    obtain ⟨zs, hzs, h⟩ := exists_of_bind_eq_ok h
    exact .cons (entryJoined_of_updateCase (fun xv r hr => ihv xv _ hr) hzs) (ih zs rs h)
  case other =>
    intro xs y ys hy ih rs h
    rw [joinEntries] at h
    · refine .cons (.added ?_) (ih rs h)
      intro key hkey
      obtain ⟨kc, v, c, rfl⟩ := caseKey?_eq_some_iff.1 hkey
      exact (hy _ _ _ rfl).elim
    · exact hy
  exact all.1 x y r h

end BuildFix
