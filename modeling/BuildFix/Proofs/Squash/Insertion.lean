import BuildFix.Proofs.Squash.Steps
import Mathlib.Data.List.Basic
import Mathlib.Data.List.Nodup

/-!
# Inserting entries

The entries of one dict go into those of another one after the other.  A case
whose key is there is joined into the first case of that key, and any other entry
goes to the end.  `insertEntry` and `insertEntries` do this for any way `join` to
join two cases of one key, which may fail.

Insertion is associative as far as `join` is.  If `ys` has no key twice, then
inserting `z` into `ys` and the result into `xs` is inserting `ys` into `xs` and
then `z` (`insertEntries_insertEntry`).  The induction is on `ys`.  Where the
head has the key of `z`, the two are joined before they go in on one side and
after it on the other (`insertEntry_insertEntry`), and `z` passes the entries
behind the head, which have other keys (`insertEntries_comm`).
-/

namespace BuildFix

/-- The entry has the key of the case `y`. -/
def SharesKey (y x : Expr) : Prop := ∃ key, caseKey? y = some key ∧ caseKey? x = some key

instance (y x : Expr) : Decidable (SharesKey y x) :=
  match hy : caseKey? y with
  | none => .isFalse fun ⟨key, h, _⟩ => by simp [hy] at h
  | some key =>
      decidable_of_iff (caseKey? x = some key) (by simp [SharesKey, hy])

section

variable (join : Expr → Expr → Option Expr)

/-- The entries with one more, which is joined into the first case of its key. -/
def insertEntry : List Expr → Expr → Option (List Expr)
  | [], y => some [y]
  | x :: xs, y =>
      if SharesKey y x then (join x y).map (· :: xs) else (insertEntry xs y).map (x :: ·)

/-- The entries `xs` with the entries `ys`, one after the other. -/
def insertEntries (xs : List Expr) : List Expr → Option (List Expr)
  | [] => some xs
  | y :: ys => (insertEntry join xs y).bind fun zs => insertEntries zs ys

/-- Joining two cases keeps the key of the first. -/
def KeepsKey : Prop := ∀ x y r, join x y = some r → caseKey? r = caseKey? x

/-- Joining three cases one after the other does not depend on where one
starts. -/
def JoinsAssoc (x y z : Expr) : Prop :=
  ((join x y).bind fun xy => join xy z) = (join y z).bind fun yz => join x yz

end

variable {join : Expr → Expr → Option Expr} {xs ys zs : List Expr} {x y z r : Expr} {key : String}

theorem sharesKey_iff (hy : caseKey? y = some key) : SharesKey y x ↔ caseKey? x = some key := by
  simp [SharesKey, hy]

theorem mem_caseKeys_cons :
    key ∈ caseKeys (x :: xs) ↔ caseKey? x = some key ∨ key ∈ caseKeys xs := by
  simp only [caseKeys, List.mem_filterMap, List.exists_mem_cons_iff]

/-! ## One entry -/

theorem insertEntry_of_shares (h : SharesKey y x) :
    insertEntry join (x :: xs) y = (join x y).map (· :: xs) := if_pos h

theorem insertEntry_of_not_shares (h : ¬SharesKey y x) :
    insertEntry join (x :: xs) y = (insertEntry join xs y).map (x :: ·) := if_neg h

/-- An entry whose key is not there goes to the end. -/
theorem insertEntry_new (h : ∀ x ∈ xs, ¬SharesKey y x) :
    insertEntry join xs y = some (xs ++ [y]) := by
  induction xs with
  | nil => rfl
  | cons x xs ih =>
      obtain ⟨hx, hxs⟩ := List.forall_mem_cons.1 h
      rw [insertEntry_of_not_shares hx, ih hxs]
      rfl

/-- An entry without a key goes to the end. -/
theorem insertEntry_unkeyed (hy : caseKey? y = none) (xs : List Expr) :
    insertEntry join xs y = some (xs ++ [y]) := by
  refine insertEntry_new fun x _ hshares => ?_
  obtain ⟨key, hkey, -⟩ := hshares
  rw [hy] at hkey
  cases hkey

section

variable (hkeep : KeepsKey join)

include hkeep

/-- Keys that are there stay there. -/
theorem mem_caseKeys_insertEntry (h : insertEntry join xs y = some zs) (hkey : key ∈ caseKeys xs) :
    key ∈ caseKeys zs := by
  induction xs generalizing zs with
  | nil => cases hkey
  | cons x xs ih =>
      rw [mem_caseKeys_cons] at hkey
      by_cases hs : SharesKey y x
      · rw [insertEntry_of_shares hs] at h
        obtain ⟨r, hr, rfl⟩ := Option.map_eq_some_iff.1 h
        rw [mem_caseKeys_cons, hkeep x y r hr]
        exact hkey
      · rw [insertEntry_of_not_shares hs] at h
        obtain ⟨rest, hrest, rfl⟩ := Option.map_eq_some_iff.1 h
        rw [mem_caseKeys_cons]
        exact hkey.imp_right (ih hrest)

/-- The key of a case is there once the case is inserted. -/
theorem mem_caseKeys_of_insertEntry (h : insertEntry join xs y = some zs)
    (hkey : caseKey? y = some key) : key ∈ caseKeys zs := by
  induction xs generalizing zs with
  | nil =>
      cases h
      exact mem_caseKeys_cons.2 (.inl hkey)
  | cons x xs ih =>
      by_cases hs : SharesKey y x
      · have hx : caseKey? x = some key := (sharesKey_iff hkey).1 hs
        exact mem_caseKeys_insertEntry hkeep h (mem_caseKeys_cons.2 (.inl hx))
      · rw [insertEntry_of_not_shares hs] at h
        obtain ⟨rest, hrest, rfl⟩ := Option.map_eq_some_iff.1 h
        exact mem_caseKeys_cons.2 (.inr (ih hrest))

/-- Two cases of one key may be joined before they are inserted. -/
theorem insertEntry_insertEntry (hy : caseKey? y = some key) (hz : caseKey? z = some key)
    (hassoc : ∀ x, caseKey? x = some key → JoinsAssoc join x y z) :
    ((insertEntry join xs y).bind fun xs => insertEntry join xs z) =
      (join y z).bind fun yz => insertEntry join xs yz := by
  have joined : ∀ yz, join y z = some yz → caseKey? yz = some key := by
    intro yz h
    rw [hkeep y z yz h, hy]
  induction xs with
  | nil =>
      show insertEntry join [y] z = (join y z).bind fun yz => some [yz]
      rw [insertEntry_of_shares ((sharesKey_iff hz).2 hy)]
      cases join y z <;> rfl
  | cons x xs ih =>
      by_cases hx : caseKey? x = some key
      · rw [insertEntry_of_shares ((sharesKey_iff hy).2 hx), Option.bind_map]
        have left : ∀ xy, join x y = some xy →
            insertEntry join (xy :: xs) z = (join xy z).map (· :: xs) := by
          intro xy hxy
          refine insertEntry_of_shares ((sharesKey_iff hz).2 ?_)
          rw [hkeep x y xy hxy, hx]
        have right : ∀ yz, join y z = some yz →
            insertEntry join (x :: xs) yz = (join x yz).map (· :: xs) := by
          intro yz hyz
          exact insertEntry_of_shares ((sharesKey_iff (joined yz hyz)).2 hx)
        calc ((join x y).bind fun xy => insertEntry join (xy :: xs) z)
            = ((join x y).bind fun xy => join xy z).map (· :: xs) := by
              rw [Option.map_bind]
              exact Option.bind_congr left
          _ = ((join y z).bind fun yz => join x yz).map (· :: xs) := by rw [hassoc x hx]
          _ = (join y z).bind fun yz => insertEntry join (x :: xs) yz := by
              rw [Option.map_bind]
              exact Option.bind_congr fun yz hyz => (right yz hyz).symm
      · have hxy : ¬SharesKey y x := mt (sharesKey_iff hy).1 hx
        have hxz : ¬SharesKey z x := mt (sharesKey_iff hz).1 hx
        have right : ∀ yz, join y z = some yz →
            insertEntry join (x :: xs) yz = (insertEntry join xs yz).map (x :: ·) := by
          intro yz hyz
          exact insertEntry_of_not_shares (mt (sharesKey_iff (joined yz hyz)).1 hx)
        rw [insertEntry_of_not_shares hxy, Option.bind_map]
        calc ((insertEntry join xs y).bind fun ys => insertEntry join (x :: ys) z)
            = ((insertEntry join xs y).bind fun ys => insertEntry join ys z).map (x :: ·) := by
              rw [Option.map_bind]
              exact Option.bind_congr fun ys _ => insertEntry_of_not_shares hxz
          _ = ((join y z).bind fun yz => insertEntry join xs yz).map (x :: ·) := by rw [ih]
          _ = (join y z).bind fun yz => insertEntry join (x :: xs) yz := by
              cases hyz : join y z with
              | none => rfl
              | some yz => exact (right yz hyz).symm

/-- A case whose key is there passes an entry with another key or none. -/
theorem insertEntry_comm (hkey : key ∈ caseKeys xs) (hz : caseKey? z = some key)
    (hy : caseKey? y ≠ some key) :
    ((insertEntry join xs y).bind fun xs => insertEntry join xs z) =
      (insertEntry join xs z).bind fun xs => insertEntry join xs y := by
  induction xs with
  | nil => cases hkey
  | cons x xs ih =>
      by_cases hxz : SharesKey z x
      · have hx : caseKey? x = some key := (sharesKey_iff hz).1 hxz
        have hxy : ∀ x', caseKey? x' = some key → ¬SharesKey y x' := by
          rintro x' hx' ⟨key', hy', hk⟩
          rw [hx'] at hk
          cases hk
          exact hy hy'
        rw [insertEntry_of_not_shares (hxy x hx), insertEntry_of_shares hxz]
        have left : ∀ ys, insertEntry join (x :: ys) z = (join x z).map (· :: ys) :=
          fun ys => insertEntry_of_shares hxz
        have right : ∀ xz, join x z = some xz →
            insertEntry join (xz :: xs) y = (insertEntry join xs y).map (xz :: ·) := by
          intro xz h
          refine insertEntry_of_not_shares (hxy xz ?_)
          rw [hkeep x z xz h, hx]
        cases h₁ : insertEntry join xs y <;> cases h₂ : join x z <;> simp_all
      · have hxs : key ∈ caseKeys xs :=
          (mem_caseKeys_cons.1 hkey).resolve_left (mt (sharesKey_iff hz).2 hxz)
        by_cases hxy : SharesKey y x
        · rw [insertEntry_of_shares hxy, insertEntry_of_not_shares hxz]
          have left : ∀ xy, join x y = some xy →
              insertEntry join (xy :: xs) z = (insertEntry join xs z).map (xy :: ·) := by
            intro xy h
            refine insertEntry_of_not_shares fun hshares => hxz ?_
            rw [sharesKey_iff hz, hkeep x y xy h] at hshares
            exact (sharesKey_iff hz).2 hshares
          have right : ∀ zs, insertEntry join (x :: zs) y = (join x y).map (· :: zs) :=
            fun zs => insertEntry_of_shares hxy
          cases h₁ : join x y <;> cases h₂ : insertEntry join xs z <;> simp_all
        · rw [insertEntry_of_not_shares hxy, insertEntry_of_not_shares hxz]
          have h := congrArg (Option.map (x :: ·)) (ih hxs)
          simp only [Option.map_bind, Option.bind_map, Function.comp_def] at h ⊢
          simpa only [insertEntry_of_not_shares hxy, insertEntry_of_not_shares hxz] using h

/-! ## Many entries -/

/-- A case whose key is there passes entries with other keys. -/
theorem insertEntries_comm (hkey : key ∈ caseKeys xs) (hz : caseKey? z = some key)
    (hys : key ∉ caseKeys ys) :
    ((insertEntries join xs ys).bind fun xs => insertEntry join xs z) =
      (insertEntry join xs z).bind fun xs => insertEntries join xs ys := by
  induction ys generalizing xs with
  | nil => cases h : insertEntry join xs z <;> simp [insertEntries, h]
  | cons y ys ih =>
      obtain ⟨hy, hys⟩ := not_or.1 (mt mem_caseKeys_cons.2 hys)
      calc ((insertEntries join xs (y :: ys)).bind fun xs => insertEntry join xs z)
          = (insertEntry join xs y).bind fun xs =>
              (insertEntries join xs ys).bind fun xs => insertEntry join xs z :=
            Option.bind_assoc ..
        _ = (insertEntry join xs y).bind fun xs =>
              (insertEntry join xs z).bind fun xs => insertEntries join xs ys :=
            Option.bind_congr fun _ h => ih (mem_caseKeys_insertEntry hkeep h hkey) hys
        _ = ((insertEntry join xs y).bind fun xs => insertEntry join xs z).bind fun xs =>
              insertEntries join xs ys := (Option.bind_assoc ..).symm
        _ = ((insertEntry join xs z).bind fun xs => insertEntry join xs y).bind fun xs =>
              insertEntries join xs ys := by rw [insertEntry_comm hkeep hkey hz hy]
        _ = (insertEntry join xs z).bind fun xs => insertEntries join xs (y :: ys) :=
            Option.bind_assoc ..

/-- An entry may be inserted into the second entries before these are inserted
into the first. -/
theorem insertEntries_insertEntry (hkeys : (caseKeys ys).Nodup)
    (hassoc : ∀ y ∈ ys, SharesKey z y → ∀ x, SharesKey z x → JoinsAssoc join x y z) :
    ((insertEntry join ys z).bind fun ys => insertEntries join xs ys) =
      (insertEntries join xs ys).bind fun xs => insertEntry join xs z := by
  induction ys generalizing xs with
  | nil => cases h : insertEntry join xs z <;> simp [insertEntry, insertEntries, h]
  | cons y ys ih =>
      obtain ⟨hassocy, hassocys⟩ := List.forall_mem_cons.1 hassoc
      by_cases hyz : SharesKey z y
      · obtain ⟨key, hz, hy⟩ := id hyz
        have hfirst : ((insertEntry join xs y).bind fun xs => insertEntry join xs z) =
            (join y z).bind fun yz => insertEntry join xs yz :=
          insertEntry_insertEntry hkeep hy hz fun x hx =>
            hassocy hyz x ((sharesKey_iff hz).2 hx)
        have hnew : key ∉ caseKeys ys := by
          rw [caseKeys_cons_case hy, List.nodup_cons] at hkeys
          exact hkeys.1
        rw [insertEntry_of_shares hyz, Option.bind_map]
        calc ((join y z).bind fun yz => insertEntries join xs (yz :: ys))
            = ((join y z).bind fun yz => insertEntry join xs yz).bind fun xs =>
                insertEntries join xs ys := (Option.bind_assoc ..).symm
          _ = ((insertEntry join xs y).bind fun xs => insertEntry join xs z).bind fun xs =>
                insertEntries join xs ys := by rw [hfirst]
          _ = (insertEntry join xs y).bind fun xs =>
                (insertEntry join xs z).bind fun xs => insertEntries join xs ys :=
              Option.bind_assoc ..
          _ = (insertEntry join xs y).bind fun xs =>
                (insertEntries join xs ys).bind fun xs => insertEntry join xs z :=
              Option.bind_congr fun _ h =>
                (insertEntries_comm hkeep (mem_caseKeys_of_insertEntry hkeep h hy) hz hnew).symm
          _ = (insertEntries join xs (y :: ys)).bind fun xs => insertEntry join xs z :=
              (Option.bind_assoc ..).symm
      · have hkeys' : (caseKeys ys).Nodup := by
          rw [← List.singleton_append, caseKeys_append] at hkeys
          exact hkeys.of_append_right
        rw [insertEntry_of_not_shares hyz, Option.bind_map]
        calc ((insertEntry join ys z).bind fun ys => insertEntries join xs (y :: ys))
            = (insertEntry join xs y).bind fun xs =>
                (insertEntry join ys z).bind fun ys => insertEntries join xs ys :=
              Option.bind_comm ..
          _ = (insertEntry join xs y).bind fun xs =>
                (insertEntries join xs ys).bind fun xs => insertEntry join xs z :=
              Option.bind_congr fun _ _ => ih hkeys' hassocys
          _ = (insertEntries join xs (y :: ys)).bind fun xs => insertEntry join xs z :=
              (Option.bind_assoc ..).symm

end

end BuildFix
