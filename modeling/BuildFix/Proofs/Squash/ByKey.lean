import BuildFix.Proofs.Attempts
import BuildFix.Proofs.InPlace
import BuildFix.Proofs.Squash.Insertion
import Mathlib.Data.Nat.Find

/-!
# Calls of select, key by key

The entries of the second `select` are gone through one after the other
(`addEntry`).  What comes out can be said at once.  Every entry of the first
`select` has a place, and behind these places stand those of the entries of the
second without a key and of its cases with a new key.  In each place stands an entry
with cases of its key squashed into it, and only the first case of a key gets any
(`places`).

An entry that is added has the places it had before, now among those of the first
`select` (`places_added`).  A case that is squashed into another goes from the front
of the cases that are still to come into the entry (`places_shared`).  So joining
succeeds exactly when squashing the cases of every place does
(`joinEntries_eq_ok_iff`).

Joining fails at the first case, in the order of the second `select`, that cannot be
squashed into the cases of its key before it (`joinEntries_eq_error_iff`).
-/

namespace BuildFix

variable {xs ys zs before after : List Expr} {x x' y : Expr} {key : String} {e : ShapeError}

/-! ## One case -/

/-- The case `y` squashed into the case `x`.  Other entries stay as they are. -/
def squashCase : Expr → Expr → Except ShapeError Expr
  | .keyValue k v c, .keyValue k' v' c' => do
      let squashed ← squash (some v) (some v')
      return .keyValue (k.addComments k'.comments) (squashed.getD v) (c ++ c')
  | x, _ => .ok x

/-- The cases `ys` squashed into `x`, one after the other. -/
def squashCases (x : Expr) (ys : List Expr) : Except ShapeError Expr := ys.foldlM squashCase x

theorem squashCases_cons (h : squashCase x y = .ok x') (ys : List Expr) :
    squashCases x (y :: ys) = squashCases x' ys := by
  rw [squashCases, List.foldlM_cons, h]
  rfl

/-- A case keeps its key. -/
theorem caseKey?_squashCase (h : squashCase x y = .ok x') : caseKey? x' = caseKey? x := by
  unfold squashCase at h
  split at h
  next k v c k' v' c' =>
    obtain ⟨squashed, -, h⟩ := exists_of_bind_eq_ok h
    cases h
    exact Expr.string?_addComments k k'.comments
  next =>
    cases h
    rfl

theorem joinEntry_eq_squashCase (k v : Expr) (c : Comments) :
    joinEntry (fun xv => do return (← squash (some xv) (some v)).getD xv) k.comments c =
      fun x => squashCase x (.keyValue k v c) := by
  funext x
  cases x with
  | keyValue kx vx cx =>
      rw [joinEntry, squashCase]
      cases squash (some vx) (some v) <;> rfl
  | _ => rfl

/-! ## One entry -/

/-- The entries `xs` with the entry `y`, which is squashed into the first case of its
key or goes to the end. -/
def addEntry (xs : List Expr) (y : Expr) : Except ShapeError (List Expr) :=
  match caseKey? y with
  | none => .ok (xs ++ [y])
  | some key => updateCase key y (fun x => squashCase x y) xs

theorem joinEntries_nil (xs : List Expr) : joinEntries xs [] = .ok xs := by rw [joinEntries]

theorem joinEntries_cons (xs : List Expr) (y : Expr) (ys : List Expr) :
    joinEntries xs (y :: ys) = addEntry xs y >>= fun zs => joinEntries zs ys := by
  cases y with
  | keyValue k v c =>
      rw [joinEntries, addEntry, caseKey?, joinEntry_eq_squashCase]
      cases k.string? <;> rfl
  | _ =>
      rw [joinEntries]
      · rfl
      · rintro _ _ _ ⟨⟩

/-- Entries have a first case of a key or none. -/
theorem first_case_or_new (key : String) (xs : List Expr) :
    key ∉ caseKeys xs ∨
      ∃ before x after, xs = before ++ x :: after ∧ key ∉ caseKeys before ∧
        caseKey? x = some key := by
  induction xs with
  | nil => exact .inl List.not_mem_nil
  | cons x xs ih =>
      by_cases hx : caseKey? x = some key
      · exact .inr ⟨[], x, xs, rfl, List.not_mem_nil, hx⟩
      · rcases ih with hnew | ⟨before, x', after, rfl, hnew, hx'⟩
        · exact .inl (by simp [mem_caseKeys_cons, hx, hnew])
        · exact .inr ⟨x :: before, x', after, rfl, by simp [mem_caseKeys_cons, hx, hnew], hx'⟩

/-- An entry without a key, or with a new one, goes to the end. -/
theorem addEntry_new (h : ∀ key, caseKey? y = some key → key ∉ caseKeys xs) :
    addEntry xs y = .ok (xs ++ [y]) := by
  unfold addEntry
  split
  next => rfl
  next key hkey =>
    replace h := h key hkey
    induction xs with
    | nil => rfl
    | cons x xs ih =>
        obtain ⟨hx, hxs⟩ := not_or.1 (mt mem_caseKeys_cons.2 h)
        rw [updateCase, if_neg hx, ih hxs]
        rfl

/-- A case whose key is there is squashed into the first case of the key. -/
theorem addEntry_shared (hy : caseKey? y = some key) (hbefore : key ∉ caseKeys before)
    (hx : caseKey? x = some key) :
    addEntry (before ++ x :: after) y =
      (squashCase x y).map fun x' => before ++ x' :: after := by
  simp only [addEntry, hy]
  induction before with
  | nil =>
      rw [List.nil_append, updateCase, if_pos hx]
      cases squashCase x y <;> rfl
  | cons b before ih =>
      obtain ⟨hb, hbefore⟩ := not_or.1 (mt mem_caseKeys_cons.2 hbefore)
      rw [List.cons_append, updateCase, if_neg hb, ih hbefore]
      cases squashCase x y <;> rfl

/-- What adding an entry does: it goes to the end, or is squashed into the first case
of its key. -/
theorem addEntry_cases (xs : List Expr) (y : Expr) :
    ((∀ key, caseKey? y = some key → key ∉ caseKeys xs) ∧ addEntry xs y = .ok (xs ++ [y])) ∨
      ∃ key before x after, caseKey? y = some key ∧ xs = before ++ x :: after ∧
        key ∉ caseKeys before ∧ caseKey? x = some key ∧
        addEntry xs y = (squashCase x y).map fun x' => before ++ x' :: after := by
  cases hy : caseKey? y with
  | none =>
      have hnew : ∀ key, caseKey? y = some key → key ∉ caseKeys xs := by simp [hy]
      exact .inl ⟨by simp, addEntry_new hnew⟩
  | some key =>
      rcases first_case_or_new key xs with hnew | ⟨before, x, after, rfl, hbefore, hx⟩
      · have hnew' : ∀ key', caseKey? y = some key' → key' ∉ caseKeys xs := by simpa [hy] using hnew
        exact .inl ⟨by simpa [hy] using hnew', addEntry_new hnew'⟩
      · exact .inr ⟨key, before, x, after, rfl, rfl, hbefore, hx,
          addEntry_shared hy hbefore hx⟩

/-- Keys that are not repeated are not repeated afterwards. -/
theorem caseKeys_nodup_of_addEntry (h : addEntry xs y = .ok zs) (hxs : (caseKeys xs).Nodup) :
    (caseKeys zs).Nodup := by
  rcases addEntry_cases xs y with ⟨hnew, heq⟩ | ⟨key, before, x, after, -, rfl, -, hx, heq⟩
  · rw [heq] at h
    cases h
    rw [caseKeys_append]
    cases hy : caseKey? y with
    | none => simpa [caseKeys, hy] using hxs
    | some key =>
        rw [caseKeys_cons_case hy, List.nodup_append_comm]
        exact List.nodup_cons.2 ⟨hnew key hy, hxs⟩
  · rw [heq] at h
    obtain ⟨x', hx', rfl⟩ := exists_of_map_eq_ok h
    rw [caseKeys_append, caseKeys_cons_case hx] at hxs
    rw [caseKeys_append, caseKeys_cons_case ((caseKey?_squashCase hx').trans hx)]
    exact hxs

theorem caseKeys_nodup_of_joinEntries (h : joinEntries xs ys = .ok zs)
    (hxs : (caseKeys xs).Nodup) : (caseKeys zs).Nodup := by
  induction ys generalizing xs with
  | nil =>
      rw [joinEntries_nil] at h
      cases h
      exact hxs
  | cons y ys ih =>
      rw [joinEntries_cons] at h
      obtain ⟨xs', hxs', h⟩ := exists_of_bind_eq_ok h
      exact ih h (caseKeys_nodup_of_addEntry hxs' hxs)

/-! ## Places -/

/-- The cases of one key. -/
def casesOf (key : String) (ys : List Expr) : List Expr :=
  ys.filter fun y => caseKey? y == some key

/-- What stands in the place of an entry of the first `select`, behind the entries
`before`: the entry, and the cases of the second that are squashed into it. -/
def oldPlace (ys before : List Expr) (x : Expr) : Expr × List Expr :=
  match caseKey? x with
  | none => (x, [])
  | some key => (x, if key ∈ caseKeys before then [] else casesOf key ys)

/-- The place that an entry of the second `select` opens behind the entries `before`
of it, if it has no key or a new one. -/
def newPlace (xs before : List Expr) (y : Expr) (after : List Expr) : List (Expr × List Expr) :=
  match caseKey? y with
  | none => [(y, [])]
  | some key => if key ∈ caseKeys (xs ++ before) then [] else [(y, casesOf key after)]

/-- The places of two calls of `select`, each with an entry and the cases squashed
into it. -/
def places (xs ys : List Expr) : List (Expr × List Expr) :=
  mapInPlace (fun before x _ => oldPlace ys before x) xs ++
    (mapInPlace (newPlace xs) ys).flatten

/-- The entry in a place. -/
def placeValue (p : Expr × List Expr) : Except ShapeError Expr := squashCases p.1 p.2

theorem casesOf_cons_of_key (hy : caseKey? y = some key) (ys : List Expr) :
    casesOf key (y :: ys) = y :: casesOf key ys := List.filter_cons_of_pos (by simp [hy])

theorem casesOf_cons_of_ne (hy : caseKey? y ≠ some key) (ys : List Expr) :
    casesOf key (y :: ys) = casesOf key ys := List.filter_cons_of_neg (by simp [hy])

theorem places_nil (xs : List Expr) : places xs [] = xs.map fun x => (x, []) := by
  rw [places, mapInPlace_nil, List.flatten_nil, List.append_nil]
  refine mapInPlace_eq_map fun before x _ _ => ?_
  unfold oldPlace
  split
  · rfl
  · simp [casesOf]

/-- Without a second `select` every place has its entry. -/
theorem mapM_placeValue_nil (xs : List Expr) : (places xs []).mapM placeValue = .ok xs := by
  have hvalues : ∀ p ∈ xs.map fun x => (x, ([] : List Expr)), placeValue p = .ok p.1 := by
    intro p hp
    obtain ⟨x, -, rfl⟩ := List.mem_map.1 hp
    rfl
  rw [places_nil, mapM_eq_ok hvalues, List.map_map]
  exact congrArg Except.ok xs.map_id

/-- The cases to come of a place do not change where another key is added. -/
theorem oldPlace_cons (h : ∀ key, caseKey? y = some key → caseKey? x = some key →
    key ∈ caseKeys before) (ys : List Expr) :
    oldPlace (y :: ys) before x = oldPlace ys before x := by
  unfold oldPlace
  split
  next => rfl
  next key hx =>
    by_cases hy : caseKey? y = some key
    · rw [if_pos (h key hy hx), if_pos (h key hy hx)]
    · rw [casesOf_cons_of_ne hy]

/-- Whether an entry opens a place depends on the keys that are there. -/
theorem newPlace_congr {xs' before' : List Expr} (x : Expr) (after : List Expr)
    (h : ∀ key, key ∈ caseKeys (xs ++ before) ↔ key ∈ caseKeys (xs' ++ before')) :
    newPlace xs before x after = newPlace xs' before' x after := by
  unfold newPlace
  split
  next => rfl
  next key _ => simp only [h key]

/-- The cases to come do not change where no entry has the key that is added. -/
theorem oldPlaces_cons (h : ∀ key, caseKey? y = some key → key ∉ caseKeys xs) (ys : List Expr) :
    mapInPlace (fun before x _ => oldPlace (y :: ys) before x) xs =
      mapInPlace (fun before x _ => oldPlace ys before x) xs := by
  refine mapInPlace_congr fun before x after hxs => oldPlace_cons ?_ ys
  intro key hy hx
  refine absurd ?_ (h key hy)
  rw [hxs, caseKeys_append, caseKeys_cons_case hx]
  simp

/-- An entry that is added keeps its place. -/
theorem places_added (h : ∀ key, caseKey? y = some key → key ∉ caseKeys xs) (ys : List Expr) :
    places (xs ++ [y]) ys = places xs (y :: ys) := by
  have hplace : newPlace xs [] y ys = [oldPlace ys xs y] := by
    unfold newPlace oldPlace
    cases hy : caseKey? y with
    | none => rfl
    | some key => simp [h key hy]
  have hnew : newPlace (xs ++ [y]) = fun before => newPlace xs (y :: before) := by
    funext before a after
    simp only [newPlace, List.append_assoc, List.singleton_append]
  simp only [places, mapInPlace_append, mapInPlace_cons, mapInPlace_nil, List.append_nil,
    List.flatten_cons, oldPlaces_cons h, hplace, hnew, List.append_assoc]

/-! ## Behind the first case of a key -/

/-- The places behind the one of `x`. -/
def placesBehind (before : List Expr) (x : Expr) (after ys : List Expr) :
    List (Expr × List Expr) :=
  mapInPlace (fun front a _ => oldPlace ys (before ++ x :: front) a) after ++
    (mapInPlace (newPlace (before ++ x :: after)) ys).flatten

/-- In the place of the first case of a key, all cases of the key are to come. -/
theorem places_first_case (hbefore : key ∉ caseKeys before) (hx : caseKey? x = some key)
    (after ys : List Expr) :
    places (before ++ x :: after) ys =
      mapInPlace (fun front a _ => oldPlace ys front a) before ++
        (x, casesOf key ys) :: placesBehind before x after ys := by
  have hplace : oldPlace ys before x = (x, casesOf key ys) := by
    simp only [oldPlace, hx, if_neg hbefore]
  simp only [places, placesBehind, mapInPlace_append, mapInPlace_cons, List.append_nil, hplace,
    List.append_assoc, List.cons_append]

/-- The places behind depend on the key of the case. -/
theorem placesBehind_congr (h : caseKey? x' = caseKey? x) (before after ys : List Expr) :
    placesBehind before x' after ys = placesBehind before x after ys := by
  have hkeys : ∀ front, caseKeys (before ++ x' :: front) = caseKeys (before ++ x :: front) := by
    intro front
    simp only [caseKeys, List.filterMap_append, List.filterMap_cons, h]
  have hnew : newPlace (before ++ x' :: after) = newPlace (before ++ x :: after) := by
    funext front a l
    simp only [newPlace, List.append_assoc, List.cons_append, hkeys]
  simp only [placesBehind, oldPlace, hkeys, hnew]

/-- A case of the key of `x` changes nothing behind its place. -/
theorem placesBehind_cons (hx : caseKey? x = some key) (hy : caseKey? y = some key)
    (before after ys : List Expr) :
    placesBehind before x after (y :: ys) = placesBehind before x after ys := by
  have hmem : ∀ front, key ∈ caseKeys (before ++ x :: front) := by
    intro front
    rw [caseKeys_append, caseKeys_cons_case hx]
    simp
  have hold : mapInPlace (fun front a _ => oldPlace (y :: ys) (before ++ x :: front) a) after =
      mapInPlace (fun front a _ => oldPlace ys (before ++ x :: front) a) after := by
    refine mapInPlace_congr fun front a l _ => oldPlace_cons ?_ ys
    intro key' hy' _
    rw [hy] at hy'
    cases hy'
    exact hmem front
  have hopened : newPlace (before ++ x :: after) [] y ys = [] := by
    simp only [newPlace, hy, List.append_nil, if_pos (hmem after)]
  have hnew : mapInPlace (fun front => newPlace (before ++ x :: after) (y :: front)) ys =
      mapInPlace (newPlace (before ++ x :: after)) ys := by
    refine mapInPlace_congr fun front a l _ => newPlace_congr a l fun key' => ?_
    simp only [caseKeys_append, caseKeys_cons_case hy, caseKeys_cons_case hx, List.mem_append,
      List.mem_cons]
    grind
  simp only [placesBehind, mapInPlace_cons, List.flatten_cons, hold, hopened, hnew,
    List.nil_append]

/-- A case that is squashed into the first case of its key is the first of those to
come in its place. -/
theorem places_shared (hy : caseKey? y = some key) (hbefore : key ∉ caseKeys before)
    (hx : caseKey? x = some key) (after ys : List Expr) :
    places (before ++ x :: after) (y :: ys) =
      mapInPlace (fun front a _ => oldPlace ys front a) before ++
        (x, y :: casesOf key ys) :: placesBehind before x after ys := by
  have hnew : ∀ key', caseKey? y = some key' → key' ∉ caseKeys before := by
    simpa [hy] using hbefore
  rw [places_first_case hbefore hx, oldPlaces_cons hnew, casesOf_cons_of_key hy,
    placesBehind_cons hx hy]

/-! ## Joining entries -/

/-- Joining succeeds exactly when squashing the cases of every place does, and its
entries are those in the places. -/
theorem joinEntries_eq_ok_iff :
    joinEntries xs ys = .ok zs ↔ (places xs ys).mapM placeValue = .ok zs := by
  induction ys generalizing xs with
  | nil => rw [joinEntries_nil, mapM_placeValue_nil]
  | cons y ys ih =>
      rw [joinEntries_cons]
      rcases addEntry_cases xs y with
        ⟨hnew, hadd⟩ | ⟨key, before, x, after, hy, rfl, hbefore, hx, hadd⟩
      · rw [hadd, ← places_added hnew]
        exact ih
      · rw [hadd, places_shared hy hbefore hx]
        cases hxy : squashCase x y with
        | error e =>
            refine iff_of_false (by rintro ⟨⟩) fun h => ?_
            obtain ⟨z, hz⟩ := exists_of_mapM_eq_ok h (x, y :: casesOf key ys) (by simp)
            obtain ⟨x', hx', -⟩ := foldlM_cons_eq_ok_iff.1 hz
            rw [hxy] at hx'
            cases hx'
        | ok x' =>
            have hvalue : placeValue (x, y :: casesOf key ys) = placeValue (x', casesOf key ys) :=
              squashCases_cons hxy _
            have hkey : caseKey? x' = some key := (caseKey?_squashCase hxy).trans hx
            show joinEntries (before ++ x' :: after) ys = _ ↔ _
            rw [ih, places_first_case hbefore hkey, placesBehind_congr (hkey.trans hx.symm)]
            constructor
            · exact mapM_replace fun z hz => hvalue.trans hz
            · exact mapM_replace fun z hz => hvalue.symm.trans hz

example :
    let entry (key value : String) := Expr.keyValue (.string key {}) (.literal value {}) {}
    places [entry "a" "A", entry "a" "B"]
        [entry "a" "C", entry "b" "D", .literal "REST" {}, entry "b" "E", entry "a" "F"] =
      [(entry "a" "A", [entry "a" "C", entry "a" "F"]), (entry "a" "B", []),
        (entry "b" "D", [entry "b" "E"]), (.literal "REST" {}, [])] := by
  rfl

/-! ## The first failure -/

/-- The cases of a key squashed into one: the first of them among `xs`, if there is
one, and all of them among `ys`. -/
def joinedCase? (key : String) (xs ys : List Expr) : Option (Except ShapeError Expr) :=
  match (xs.find? fun x => caseKey? x == some key).toList ++ casesOf key ys with
  | [] => none
  | x :: later => some (squashCases x later)

/-- The case at position `i` of `ys` cannot be squashed into the cases of its key
before it, of which `xs` has the first or `ys` has them all. -/
def FailsAt (xs ys : List Expr) (i : Nat) (e : ShapeError) : Prop :=
  ∃ y key joined, ys[i]? = some y ∧ caseKey? y = some key ∧
    joinedCase? key xs (ys.take i) = some (.ok joined) ∧ squashCase joined y = .error e

theorem find?_caseKey_eq_none_iff :
    (xs.find? fun x => caseKey? x == some key) = none ↔ key ∉ caseKeys xs := by
  simp [List.find?_eq_none, caseKeys]

theorem find?_caseKey_first (hbefore : key ∉ caseKeys before) (hx : caseKey? x = some key) :
    (before ++ x :: after).find? (fun x => caseKey? x == some key) = some x := by
  rw [List.find?_append, find?_caseKey_eq_none_iff.2 hbefore,
    List.find?_cons_of_pos (by simp [hx])]
  rfl

theorem joinedCase?_nil (key : String) (xs : List Expr) :
    joinedCase? key xs [] = (xs.find? fun x => caseKey? x == some key).map .ok := by
  unfold joinedCase?
  cases xs.find? fun x => caseKey? x == some key <;> rfl

/-- An entry that was added may be counted among the first entries or the second. -/
theorem joinedCase?_of_addEntry (h : addEntry xs y = .ok zs) (key : String) (ys : List Expr) :
    joinedCase? key xs (y :: ys) = joinedCase? key zs ys := by
  rcases addEntry_cases xs y with
    ⟨hnew, hadd⟩ | ⟨key', before, x, after, hy, rfl, hbefore, hx, hadd⟩
  · rw [hadd] at h
    cases h
    by_cases hkey : caseKey? y = some key
    · have hfirst : (xs ++ [y]).find? (fun x => caseKey? x == some key) = some y :=
        find?_caseKey_first (hnew key hkey) hkey
      simp only [joinedCase?, hfirst, find?_caseKey_eq_none_iff.2 (hnew key hkey),
        casesOf_cons_of_key hkey]
      rfl
    · have hlast : (xs ++ [y]).find? (fun x => caseKey? x == some key) =
          xs.find? fun x => caseKey? x == some key := by
        rw [List.find?_append, List.find?_cons_of_neg (by simpa using hkey), List.find?_nil,
          Option.or_none]
      simp only [joinedCase?, hlast, casesOf_cons_of_ne hkey]
  · rw [hadd] at h
    obtain ⟨x', hx', rfl⟩ := exists_of_map_eq_ok h
    have hkey' : caseKey? x' = some key' := (caseKey?_squashCase hx').trans hx
    by_cases hkey : key' = key
    · subst hkey
      simp only [joinedCase?, find?_caseKey_first hbefore hx, find?_caseKey_first hbefore hkey',
        casesOf_cons_of_key hy]
      exact congrArg some (squashCases_cons hx' _)
    · have hother : (some key' == some key) = false := by simpa using hkey
      have hy' : caseKey? y ≠ some key := by simpa [hy] using hkey
      simp only [joinedCase?, List.find?_append, List.find?_cons, hx, hkey', hother,
        casesOf_cons_of_ne hy']

/-- The first case fails if it cannot be added. -/
theorem failsAt_zero_iff : FailsAt xs (y :: ys) 0 e ↔ addEntry xs y = .error e := by
  have hfails : FailsAt xs (y :: ys) 0 e ↔ ∃ key x, caseKey? y = some key ∧
      xs.find? (fun x => caseKey? x == some key) = some x ∧ squashCase x y = .error e := by
    simp [FailsAt, joinedCase?_nil]
  rw [hfails]
  rcases addEntry_cases xs y with
    ⟨hnew, hadd⟩ | ⟨key, before, x, after, hy, rfl, hbefore, hx, hadd⟩
  · rw [hadd]
    refine iff_of_false ?_ (by rintro ⟨⟩)
    rintro ⟨key, x, hy, hx, -⟩
    rw [find?_caseKey_eq_none_iff.2 (hnew key hy)] at hx
    cases hx
  · rw [hadd]
    constructor
    · rintro ⟨key', x', hy', hx', hfail⟩
      rw [hy] at hy'
      cases hy'
      rw [find?_caseKey_first hbefore hx] at hx'
      cases hx'
      rw [hfail]
      rfl
    · intro hfail
      refine ⟨key, x, hy, find?_caseKey_first hbefore hx, ?_⟩
      cases hxy : squashCase x y with
      | error e' =>
          rw [hxy] at hfail
          cases hfail
          rfl
      | ok x' =>
          rw [hxy] at hfail
          cases hfail

theorem failsAt_succ_iff {i : Nat} (h : addEntry xs y = .ok zs) :
    FailsAt xs (y :: ys) (i + 1) e ↔ FailsAt zs ys i e := by
  simp only [FailsAt, List.getElem?_cons_succ, List.take_succ_cons, joinedCase?_of_addEntry h]

/-- The case at position `i` of `ys` fails, and none before it does. -/
def FirstFailsAt (xs ys : List Expr) (i : Nat) (e : ShapeError) : Prop :=
  FailsAt xs ys i e ∧ ∀ j < i, ∀ e', ¬FailsAt xs ys j e'

theorem firstFailsAt_zero_iff : FirstFailsAt xs (y :: ys) 0 e ↔ addEntry xs y = .error e :=
  (and_iff_left fun _ hj => absurd hj (Nat.not_lt_zero _)).trans failsAt_zero_iff

theorem firstFailsAt_succ_iff {i : Nat} :
    FirstFailsAt xs (y :: ys) (i + 1) e ↔
      ∃ zs, addEntry xs y = .ok zs ∧ FirstFailsAt zs ys i e := by
  rw [FirstFailsAt, Nat.forall_lt_succ_left]
  cases hadd : addEntry xs y with
  | error e' =>
      refine iff_of_false (fun h => h.2.1 e' (failsAt_zero_iff.2 hadd)) ?_
      rintro ⟨zs, ⟨⟩, -⟩
  | ok zs =>
      have hzero : ∀ e', ¬FailsAt xs (y :: ys) 0 e' := by
        intro e'
        rw [failsAt_zero_iff, hadd]
        rintro ⟨⟩
      simp only [failsAt_succ_iff hadd, and_iff_right hzero, Except.ok.injEq, exists_eq_left']
      rfl

/-- Joining fails at the first case that cannot be squashed into those of its key
before it. -/
theorem joinEntries_eq_error_iff :
    joinEntries xs ys = .error e ↔ ∃ i, FirstFailsAt xs ys i e := by
  induction ys generalizing xs with
  | nil =>
      rw [joinEntries_nil]
      refine iff_of_false (by rintro ⟨⟩) ?_
      rintro ⟨i, ⟨y, _, _, hy, -⟩, -⟩
      cases hy
  | cons y ys ih =>
      rw [joinEntries_cons, ← Nat.or_exists_add_one, firstFailsAt_zero_iff]
      simp only [firstFailsAt_succ_iff]
      constructor
      · intro h
        rcases bind_eq_error h with h | ⟨zs, hzs, h⟩
        · exact .inl h
        · obtain ⟨i, hi⟩ := ih.1 h
          exact .inr ⟨i, zs, hzs, hi⟩
      · rintro (h | ⟨i, zs, hzs, hi⟩)
        · rw [h]
          rfl
        · rw [hzs]
          exact ih.2 ⟨i, hi⟩

/-- Joining fails exactly when some case cannot be squashed into those of its key
before it. -/
theorem exists_joinEntries_eq_error_iff :
    (∃ e, joinEntries xs ys = .error e) ↔ ∃ i e, FailsAt xs ys i e := by
  constructor
  · rintro ⟨e, he⟩
    obtain ⟨i, hi, -⟩ := joinEntries_eq_error_iff.1 he
    exact ⟨i, e, hi⟩
  · intro hfails
    classical
    obtain ⟨e, hfirst⟩ := Nat.find_spec hfails
    refine ⟨e, joinEntries_eq_error_iff.2 ⟨Nat.find hfails, hfirst, fun j hj e' he' => ?_⟩⟩
    exact Nat.find_min hfails hj ⟨e', he'⟩

/-! ## Joining calls -/

theorem joinSelects_eq_map (x y : SelectValue) :
    joinSelects (some x) (some y) = (joinEntries x.entries y.entries).map fun zs =>
      some ⟨zs, x.dictComments ++ y.dictComments, x.callComments ++ y.callComments,
        x.calleeComments ++ y.calleeComments⟩ := by
  rw [joinSelects]
  cases joinEntries x.entries y.entries <;> rfl

/-- What joining two calls of `select` gives, and when it fails.  The entries are those
in the places of the two calls, and the comments are added group by group.  It fails
when a case cannot be squashed into the cases of its key before it, with the error of
the first such case in the second call.  No key is repeated if the first call repeats
none. -/
theorem joinSelects_by_key (x y : SelectValue) :
    (∀ r, joinSelects (some x) (some y) = .ok r ↔
      ∃ zs, (places x.entries y.entries).mapM placeValue = .ok zs ∧
        r = some ⟨zs, x.dictComments ++ y.dictComments, x.callComments ++ y.callComments,
          x.calleeComments ++ y.calleeComments⟩) ∧
    ((∃ e, joinSelects (some x) (some y) = .error e) ↔
      ∃ i e, FailsAt x.entries y.entries i e) ∧
    (∀ e, joinSelects (some x) (some y) = .error e ↔
      ∃ i, FirstFailsAt x.entries y.entries i e) ∧
    ∀ r, joinSelects (some x) (some y) = .ok (some r) →
      (caseKeys x.entries).Nodup → (caseKeys r.entries).Nodup := by
  simp only [joinSelects_eq_map, map_eq_error_iff]
  refine ⟨fun r => ?_, exists_joinEntries_eq_error_iff, fun e => joinEntries_eq_error_iff,
    fun r h hkeys => ?_⟩
  · simp only [← joinEntries_eq_ok_iff]
    constructor
    · intro h
      obtain ⟨zs, hzs, rfl⟩ := exists_of_map_eq_ok h
      exact ⟨zs, hzs, rfl⟩
    · rintro ⟨zs, hzs, rfl⟩
      rw [hzs]
      rfl
  · obtain ⟨zs, hzs, hr⟩ := exists_of_map_eq_ok h
    cases hr
    exact caseKeys_nodup_of_joinEntries hzs hkeys

/-- A `select` with a list for one key. -/
def listCases : SelectValue where
  entries := [.keyValue (.string "linux" {}) (.list [] {}) {}]

/-- A `select` with two cases that cannot be squashed, for different reasons. -/
def brokenCases : SelectValue where
  entries := [
    .keyValue (.string "darwin" {}) (.string "//a" {}) {},
    .keyValue (.string "linux" {}) (.literal "LINUX" {}) {},
    .keyValue (.string "darwin" {}) (.list [] {}) {}]

theorem brokenCases_first_error :
    joinSelects (some listCases) (some brokenCases) = .error (.unsupported .literal) := by
  have hvalue : squash (some (.list [] {})) (some (.literal "LINUX" {})) =
      .error (.unsupported .literal) := by
    rw [squash]
    rfl
  obtain ⟨-, -, hfirst, -⟩ := joinSelects_by_key listCases brokenCases
  refine (hfirst _).2 ⟨1, ⟨_, "linux", _, rfl, rfl, rfl, ?_⟩, ?_⟩
  · rw [squashCase, hvalue]
    rfl
  · rintro j hj e' ⟨y, key, joined, hy, hkey, hjoined, -⟩
    obtain rfl : j = 0 := by omega
    cases hy
    cases hkey
    cases hjoined

end BuildFix
