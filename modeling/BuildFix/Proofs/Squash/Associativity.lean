import BuildFix.Proofs.Squash.Conservation
import BuildFix.Proofs.Squash.Outcomes

/-!
# Squashing is associative

Which error a squash fails with depends on where one starts, so errors are
forgotten.

Lists and comments are joined end to end, so they associate at once.  Entries do
by `insertEntries_insertEntry`, which asks for two things.  The entries that others
are inserted into repeat no key, and inserting keeps it so
(`DistinctEntries.insertEntry`).  The cases of one key associate, which is the same
statement for their values (`SquashAssocAt`).  The values of the cases of the last
`select` are smaller than it, and the induction is on the size of the last value,
for all values before it.

The keys of the first value may repeat.  Those of the second may not.  Where the
first value has a key that the second repeats, squashing these two first puts a case
of the last value behind both cases, and squashing the last two first puts it between
them.
-/

namespace BuildFix

/-! ## Distinct keys -/

theorem distinctKeys_value {k v : Expr} {c : Comments}
    (h : DistinctKeys (some (.keyValue k v c))) : DistinctKeys (some v) :=
  fun n hn => h n (List.mem_cons_of_mem _ (List.mem_append_right _ hn))

theorem follows_squash {x y r : Option Expr} (h : squash x y = .ok r) : Follows x y r :=
  squash_induction (P := Follows) (fun _ _ _ _ _ _ => follows_shapesJoined) h

/-- Distinct keys stay distinct. -/
theorem DistinctEntries.insertEntry {xs zs : List Expr} {y : Expr} (hxs : DistinctEntries xs)
    (hy : DistinctKeys (some y)) (h : BuildFix.insertEntry joinCase? xs y = some zs) :
    DistinctEntries zs :=
  (follows_entryJoined (entryJoined_of_insertEntry (fun _ _ _ => follows_squash) h) hxs hy).1

/-! ## Entries -/

/-- Squashing associates where `z` comes last and the keys of the value before it are
distinct. -/
def SquashAssocAt (z : Option Expr) : Prop :=
  ∀ x y, DistinctKeys y →
    ((squash x y).toOption.bind fun xy => (squash xy z).toOption) =
      (squash y z).toOption.bind fun yz => (squash x yz).toOption

theorem joinValues?_assoc {x y z : Expr} (hz : SquashAssocAt (some z))
    (hy : DistinctKeys (some y)) :
    ((joinValues? x y).bind fun xy => joinValues? xy z) =
      (joinValues? y z).bind fun yz => joinValues? x yz := by
  have h := hz (some x) (some y) hy
  rw [toOption_squash_some, toOption_squash_some, Option.bind_map, Option.bind_map] at h
  simp only [Function.comp_def, toOption_squash_some] at h
  refine (Option.map_inj_right fun _ _ => Option.some.inj).1 ?_
  rw [Option.map_bind, Option.map_bind]
  exact h

theorem joinsAssoc_joinCase? {x y z : Expr} {key : String} (hx : caseKey? x = some key)
    (hy : caseKey? y = some key) (hz : caseKey? z = some key) (dy : DistinctKeys (some y))
    (hvalue : ∀ k v c, z = .keyValue k v c → SquashAssocAt (some v)) :
    JoinsAssoc joinCase? x y z := by
  obtain ⟨kcx, xv, cx, rfl⟩ := caseKey?_eq_some_iff.1 hx
  obtain ⟨kcy, yv, cy, rfl⟩ := caseKey?_eq_some_iff.1 hy
  obtain ⟨kcz, zv, cz, rfl⟩ := caseKey?_eq_some_iff.1 hz
  have h := joinValues?_assoc (x := xv) (hvalue _ zv cz rfl) (distinctKeys_case.1 dy)
  have hmap := congrArg (Option.map fun w =>
    Expr.keyValue (.string key (kcx ++ kcy ++ kcz)) w (cx ++ cy ++ cz)) h
  simp only [JoinsAssoc, joinCase?, Option.bind_map, Option.map_bind, Function.comp_def,
    Expr.addComments, Expr.setComments, Expr.comments, Comments.append_assoc] at hmap ⊢
  exact hmap

theorem insertEntries_assoc {xs ys zs : List Expr} (hys : DistinctEntries ys)
    (hzs : ∀ z ∈ zs, DistinctKeys (some z))
    (hvalues : ∀ k v c, Expr.keyValue k v c ∈ zs → SquashAssocAt (some v)) :
    ((insertEntries joinCase? xs ys).bind fun xs => insertEntries joinCase? xs zs) =
      (insertEntries joinCase? ys zs).bind fun ys => insertEntries joinCase? xs ys := by
  induction zs generalizing ys with
  | nil => cases h : insertEntries joinCase? xs ys <;> simp [insertEntries, h]
  | cons z zs ih =>
      obtain ⟨hz, hzs⟩ := List.forall_mem_cons.1 hzs
      have hfirst : ((insertEntry joinCase? ys z).bind fun ys => insertEntries joinCase? xs ys) =
          (insertEntries joinCase? xs ys).bind fun xs => insertEntry joinCase? xs z := by
        refine insertEntries_insertEntry keepsKey_joinCase? hys.keys ?_
        rintro y hy ⟨key, hzk, hyk⟩ x hx
        refine joinsAssoc_joinCase? ((sharesKey_iff hzk).1 hx) hyk hzk (hys.entries y hy) ?_
        rintro k v c rfl
        exact hvalues k v c List.mem_cons_self
      calc ((insertEntries joinCase? xs ys).bind fun xs => insertEntries joinCase? xs (z :: zs))
          = ((insertEntries joinCase? xs ys).bind fun xs => insertEntry joinCase? xs z).bind
              fun xs => insertEntries joinCase? xs zs := (Option.bind_assoc ..).symm
        _ = ((insertEntry joinCase? ys z).bind fun ys => insertEntries joinCase? xs ys).bind
              fun xs => insertEntries joinCase? xs zs := by rw [hfirst]
        _ = (insertEntry joinCase? ys z).bind fun ys =>
              (insertEntries joinCase? xs ys).bind fun xs => insertEntries joinCase? xs zs :=
            Option.bind_assoc ..
        _ = (insertEntry joinCase? ys z).bind fun ys =>
              (insertEntries joinCase? ys zs).bind fun ys => insertEntries joinCase? xs ys :=
            Option.bind_congr fun ys' h => ih (hys.insertEntry hz h) hzs fun k v c hmem =>
              hvalues k v c (List.mem_cons_of_mem z hmem)
        _ = (insertEntries joinCase? ys (z :: zs)).bind fun ys => insertEntries joinCase? xs ys :=
            (Option.bind_assoc ..).symm

/-! ## Parts -/

theorem joinLists_assoc (x y z : Option ListValue) :
    joinLists (joinLists x y) z = joinLists x (joinLists y z) := by
  cases x <;> cases y <;> cases z <;>
    simp [joinLists, List.append_assoc, Comments.append_assoc]

theorem joinSelects_assoc {x y z : Option SelectValue} (hy : DistinctEntries (selectEntries y))
    (hz : DistinctEntries (selectEntries z))
    (hvalues : ∀ k v c, Expr.keyValue k v c ∈ selectEntries z → SquashAssocAt (some v)) :
    ((joinSelects x y).toOption.bind fun s => (joinSelects s z).toOption) =
      (joinSelects y z).toOption.bind fun s => (joinSelects x s).toOption := by
  cases x with
  | none => simp
  | some x =>
      cases y with
      | none => simp
      | some y =>
          cases z with
          | none => simp
          | some z =>
              have h : ((insertEntries joinCase? x.entries y.entries).bind fun es =>
                  insertEntries joinCase? es z.entries) =
                    (insertEntries joinCase? y.entries z.entries).bind fun es =>
                      insertEntries joinCase? x.entries es :=
                insertEntries_assoc hy hz.entries hvalues
              have hmap := congrArg (Option.map fun entries => some (SelectValue.mk entries
                (x.dictComments ++ y.dictComments ++ z.dictComments)
                (x.callComments ++ y.callComments ++ z.callComments)
                (x.calleeComments ++ y.calleeComments ++ z.calleeComments))) h
              simp only [toOption_joinSelects_some, Option.bind_map, Option.map_bind,
                Function.comp_def, Comments.append_assoc] at hmap ⊢
              exact hmap

/-- The shape of three joined ones, whose calls of `select` join to `s`. -/
def joinThree (x y z : Shape) (s : Option SelectValue) : Shape :=
  Shape.ofParts (joinLists (joinLists x.list? y.list?) z.list?) s
    (x.opComments ++ y.opComments ++ z.opComments)

theorem joinShapes?_assoc {x y z : Shape} (hy : DistinctEntries y.entries)
    (hz : DistinctEntries z.entries)
    (hvalues : ∀ k v c, Expr.keyValue k v c ∈ z.entries → SquashAssocAt (some v)) :
    ((joinShapes? x y).bind fun xy => joinShapes? xy z) =
      (joinShapes? y z).bind fun yz => joinShapes? x yz := by
  have left : ∀ xy, joinShapes? x y = some xy →
      joinShapes? xy z = (joinSelects xy.select? z.select?).toOption.map (joinThree x y z) := by
    intro xy h
    have hxy := shapesJoined_of_joinShapes? h
    rw [joinShapes?, hxy.list, hxy.op]
    rfl
  have right : ∀ yz, joinShapes? y z = some yz →
      joinShapes? x yz = (joinSelects x.select? yz.select?).toOption.map (joinThree x y z) := by
    intro yz h
    have hyz := shapesJoined_of_joinShapes? h
    rw [joinShapes?, hyz.list, hyz.op, ← joinLists_assoc, ← Comments.append_assoc]
    rfl
  calc ((joinShapes? x y).bind fun xy => joinShapes? xy z)
      = (joinSelects x.select? y.select?).toOption.bind fun s =>
          (joinSelects s z.select?).toOption.map (joinThree x y z) := by
        rw [Option.bind_congr left,
          bind_joinShapes? x y fun s => (joinSelects s z.select?).toOption.map (joinThree x y z)]
    _ = ((joinSelects x.select? y.select?).toOption.bind fun s =>
          (joinSelects s z.select?).toOption).map (joinThree x y z) := (Option.map_bind ..).symm
    _ = ((joinSelects y.select? z.select?).toOption.bind fun s =>
          (joinSelects x.select? s).toOption).map (joinThree x y z) := by
        rw [joinSelects_assoc hy hz hvalues]
    _ = (joinSelects y.select? z.select?).toOption.bind fun s =>
          (joinSelects x.select? s).toOption.map (joinThree x y z) := Option.map_bind ..
    _ = (joinShapes? y z).bind fun yz => joinShapes? x yz := by
        rw [Option.bind_congr right,
          bind_joinShapes? y z fun s => (joinSelects x.select? s).toOption.map (joinThree x y z)]

/-! ## Values -/

theorem sizeOf_caseValue_lt {s : Option SelectValue} {k v : Expr} {c : Comments}
    (h : Expr.keyValue k v c ∈ selectEntries s) : sizeOf (some v) < sizeOf s := by
  cases s with
  | none => cases h
  | some s =>
      obtain ⟨entries, dc, cc, fc⟩ := s
      have := List.sizeOf_lt_of_mem h
      simp [selectEntries] at this ⊢
      omega

/-- Squashing associates at a value of a shape, if it does at the values of its cases. -/
theorem squashAssocAt_of_shape {z : Option Expr} {sz : Shape} (hsz : Shape.ofValue z = .ok sz)
    (hz : DistinctKeys z)
    (hvalues : ∀ k v c, Expr.keyValue k v c ∈ sz.entries → SquashAssocAt (some v)) :
    SquashAssocAt z := by
  intro x y hy
  -- Both sides fail unless all three values have a shape.
  cases hsx : Shape.ofValue x with
  | error e => simp [toOption_squash_left_error hsx]
  | ok sx =>
    cases hsy : Shape.ofValue y with
    | error e => simp [toOption_squash_left_error hsy, toOption_squash_right_error hsy]
    | ok sy =>
      have left : ∀ s, joinShapes? sx sy = some s →
          (squash s.toExpr? z).toOption = (joinShapes? s sz).map Shape.toExpr? :=
        fun s h => toOption_squash_of_shape (ofValue_joinShapes? hsx hsy h) hsz
      have right : ∀ s, joinShapes? sy sz = some s →
          (squash x s.toExpr?).toOption = (joinShapes? sx s).map Shape.toExpr? :=
        fun s h => toOption_squash_of_shape hsx (ofValue_joinShapes? hsy hsz h)
      have hassoc : ((joinShapes? sx sy).bind fun s => joinShapes? s sz) =
          (joinShapes? sy sz).bind fun s => joinShapes? sx s :=
        joinShapes?_assoc ((distinctKeys_iff hsy).1 hy).2 ((distinctKeys_iff hsz).1 hz).2 hvalues
      calc ((squash x y).toOption.bind fun xy => (squash xy z).toOption)
          = (joinShapes? sx sy).bind fun s => (joinShapes? s sz).map Shape.toExpr? := by
            rw [toOption_squash_of_shape hsx hsy, Option.bind_map]
            exact Option.bind_congr left
        _ = ((joinShapes? sx sy).bind fun s => joinShapes? s sz).map Shape.toExpr? :=
            (Option.map_bind ..).symm
        _ = ((joinShapes? sy sz).bind fun s => joinShapes? sx s).map Shape.toExpr? := by
            rw [hassoc]
        _ = (joinShapes? sy sz).bind fun s => (joinShapes? sx s).map Shape.toExpr? :=
            Option.map_bind ..
        _ = (squash y z).toOption.bind fun yz => (squash x yz).toOption := by
            rw [toOption_squash_of_shape hsy hsz, Option.bind_map]
            exact (Option.bind_congr right).symm

/-- Squashing associates at every value with distinct keys. -/
theorem squashAssocAt_of_distinctKeys {z : Option Expr} (hz : DistinctKeys z) :
    SquashAssocAt z := by
  induction hn : sizeOf z using Nat.strongRecOn generalizing z with
  | ind n ih =>
      cases hsz : Shape.ofValue z with
      | error e =>
          intro x y _
          simp [toOption_squash_right_error hsz]
      | ok sz =>
          refine squashAssocAt_of_shape hsz hz fun k v c hmem => ?_
          have hlt : sizeOf (some v) < n := by
            have hcase := sizeOf_caseValue_lt hmem
            have hselect := Shape.sizeOf_select?_le hsz
            omega
          have hentry := ((distinctKeys_iff hsz).1 hz).2.entries _ hmem
          exact ih _ hlt (distinctKeys_value hentry) rfl

/-! ## The theorem -/

/-- If the keys of the last two values are distinct, three values squash into the same
value from both sides, or into none from either. -/
theorem squash_assoc {x y z : Option Expr} (hy : DistinctKeys y) (hz : DistinctKeys z) :
    (∃ e e', (squash x y >>= fun xy => squash xy z) = .error e ∧
        (squash y z >>= fun yz => squash x yz) = .error e') ∨
      ∃ r, (squash x y >>= fun xy => squash xy z) = .ok r ∧
        (squash y z >>= fun yz => squash x yz) = .ok r := by
  apply error_or_ok_of_toOption_eq
  rw [toOption_bind, toOption_bind]
  exact squashAssocAt_of_distinctKeys hz x y hy

/-- A `select` with one more case of the key, and one of a new key. -/
def windowsCases : SelectValue where
  entries := [
    .keyValue (.string "linux" {}) (.list [.string "//d" {}] {}) {},
    .keyValue (.string "windows" {}) (.list [] {}) {}]

/-- All three joined. -/
def allCases : SelectValue where
  entries := [
    .keyValue (.string "linux" { suffix := [⟨"# 64 bit"⟩] })
      (.list [.string "//b" {}, .string "//c" {}, .string "//d" {}] {}) {},
    .literal "REST" {}, .keyValue (.string "darwin" {}) (.literal "DARWIN" {}) {},
    .keyValue (.string "windows" {}) (.list [] {}) {}]

theorem joinSelects_joinedCases :
    joinSelects (some joinedCases) (some windowsCases) = .ok (some allCases) := by
  have hbc : Shape.ofValue (some (.list [.string "//b" {}, .string "//c" {}] {})) =
    .ok (.list ⟨[.string "//b" {}, .string "//c" {}], {}⟩) := rfl
  have hd : Shape.ofValue (some (.list [.string "//d" {}] {})) =
    .ok (.list ⟨[.string "//d" {}], {}⟩) := rfl
  have hnone : joinSelects none none = .ok none := by rw [joinSelects]
  have hlists : squash (some (.list [.string "//b" {}, .string "//c" {}] {}))
      (some (.list [.string "//d" {}] {})) =
        .ok (some (.list [.string "//b" {}, .string "//c" {}, .string "//d" {}] {})) :=
    squash_of_joinSelects hbc hd hnone
  simp [joinedCases, windowsCases, allCases, joinSelects, joinEntries, updateCase, joinEntry,
    hlists, caseKey?, Expr.string?, Expr.addComments, Expr.setComments, Expr.comments, bind,
    Except.bind, pure, Except.pure]

theorem allCases_from_both_sides :
    DistinctKeys (some darwinCases.toExpr) ∧ DistinctKeys (some windowsCases.toExpr) ∧
      (squash (some (listPlus linuxCases)) (some darwinCases.toExpr) >>= fun xy =>
        squash xy (some windowsCases.toExpr)) = .ok (some (listPlus allCases)) ∧
      (squash (some darwinCases.toExpr) (some windowsCases.toExpr) >>= fun yz =>
        squash (some (listPlus linuxCases)) yz) = .ok (some (listPlus allCases)) := by
  have hx : Shape.ofValue (some (listPlus linuxCases)) =
    .ok (.listPlusSelect ⟨[.string "//a" {}], {}⟩ linuxCases { before := [⟨"# deps"⟩] }) := rfl
  have hy : Shape.ofValue (some darwinCases.toExpr) = .ok (.select darwinCases) := rfl
  have hz : Shape.ofValue (some windowsCases.toExpr) = .ok (.select windowsCases) := rfl
  have hxy : Shape.ofValue (some (listPlus joinedCases)) =
    .ok (.listPlusSelect ⟨[.string "//a" {}], {}⟩ joinedCases { before := [⟨"# deps"⟩] }) := rfl
  have hfirst : squash (some (listPlus linuxCases)) (some darwinCases.toExpr) =
      .ok (some (listPlus joinedCases)) := squash_of_joinSelects hx hy joinSelects_linuxCases
  have hleft : (squash (some (listPlus linuxCases)) (some darwinCases.toExpr) >>= fun xy =>
      squash xy (some windowsCases.toExpr)) = .ok (some (listPlus allCases)) := by
    rw [hfirst]
    exact squash_of_joinSelects hxy hz joinSelects_joinedCases
  have dy : DistinctKeys (some darwinCases.toExpr) := by decide +kernel
  have dz : DistinctKeys (some windowsCases.toExpr) := by decide +kernel
  rcases squash_assoc (x := some (listPlus linuxCases)) dy dz with ⟨e, -, h, -⟩ | ⟨r, h, hright⟩
  · rw [hleft] at h
    cases h
  · rw [hleft] at h
    cases h
    exact ⟨dy, dz, hleft, hright⟩

end BuildFix
