import BuildFix.Proofs.Squash.Measure

/-!
# Squashing loses and invents nothing

The comments of each group and the items at each path of case keys are additive
measures, so a squash has the comments and the items of both values, counted with
their multiplicity.

Where no dict repeats a key, the order of the items is kept as well: at every path
those of the first value come first (`Follows`).  With a repeated key it may not be,
since a case joins the first case of its key and the items of the second case of
that key stand behind it.
-/

namespace BuildFix

/-! ## Comments -/

theorem nodesAll_append (xs ys : List Expr) : nodesAll (xs ++ ys) = nodesAll xs ++ nodesAll ys := by
  simp only [nodesAll_eq_flatMap, List.flatMap_append]

section Comments

variable (g : CommentGroup)

theorem commentsIn_list (l : ListValue) :
    commentsIn g (some l.toExpr) = g.of l.comments ++ commentsOver g (nodesAll l.elements) := rfl

theorem commentsIn_select (s : SelectValue) (b : Bool) :
    commentsIn g (some (s.toCall b)) = g.of s.callComments ++ (g.of s.calleeComments ++
      (g.of s.dictComments ++ commentsOver g (nodesAll s.entries))) := by
  simp [commentsIn, nodesIn, SelectValue.toCall, Expr.nodes, nodesAll, Expr.comments]

theorem commentsIn_binary (l r : Expr) (op : String) (c : Comments) :
    commentsIn g (some (.binary l op r c)) =
      g.of c ++ (commentsIn g (some l) ++ commentsIn g (some r)) := by
  simp [commentsIn, nodesIn, Expr.nodes, Expr.comments]

theorem commentsOver_case (key : String) (kc c : Comments) (v : Expr) :
    commentsOver g (nodesAll [.keyValue (.string key kc) v c]) =
      g.of c ++ (g.of kc ++ commentsIn g (some v)) := by
  simp [commentsIn, nodesIn, Expr.nodes, nodesAll, Expr.comments]

/-- The weights of the parts are the comments in them. -/
def commentsWeights : Weights (Multiset Comment) where
  elements es := commentsOver g (nodesAll es)
  entries es := commentsOver g (nodesAll es)
  comments c := g.of c

theorem commentsIn_eq_shape {x : Option Expr} {s : Shape} (h : Shape.ofValue x = .ok s) :
    (commentsIn g x : Multiset Comment) = (commentsWeights g).shape s := by
  cases x with
  | none =>
      cases h
      cases g <;> rfl
  | some e =>
      rcases Shape.ofExpr_cases h with
        ⟨l, rfl, rfl⟩ | ⟨sel, b, rfl, -, rfl⟩ | ⟨l, sel, b, op, rfl, -, rfl⟩
      · simp only [commentsIn_list, ← Multiset.coe_add, Weights.shape, Weights.list,
          Weights.select, commentsWeights, Shape.list?, Shape.select?, Shape.opComments,
          CommentGroup.of_empty, Multiset.coe_nil]
        abel
      · simp only [commentsIn_select, ← Multiset.coe_add, Weights.shape, Weights.list,
          Weights.select, commentsWeights, Shape.list?, Shape.select?, Shape.opComments,
          CommentGroup.of_empty, Multiset.coe_nil]
        abel
      · simp only [commentsIn_binary, commentsIn_list, commentsIn_select, ← Multiset.coe_add,
          Weights.shape, Weights.list, Weights.select, commentsWeights, Shape.list?,
          Shape.select?, Shape.opComments]
        abel

/-- The comments of a group, as a measure. -/
def commentsMeasure : Measure (Multiset Comment) where
  toWeights := commentsWeights g
  value x := commentsIn g x
  elements_append xs ys := by
    show (commentsOver g (nodesAll (xs ++ ys)) : Multiset Comment) = _
    rw [nodesAll_append, commentsOver_append, ← Multiset.coe_add]
    rfl
  entries_append xs ys := by
    show (commentsOver g (nodesAll (xs ++ ys)) : Multiset Comment) = _
    rw [nodesAll_append, commentsOver_append, ← Multiset.coe_add]
    rfl
  entries_nil := rfl
  comments_append c d := by
    show (g.of (c ++ d) : Multiset Comment) = _
    rw [CommentGroup.of_append, ← Multiset.coe_add]
    rfl
  value_eq_shape := commentsIn_eq_shape g
  entries_case := by
    intro x y v key kc kc' c c' hv
    show (commentsOver g (nodesAll [_]) : Multiset Comment) =
      commentsOver g (nodesAll [_]) + commentsOver g (nodesAll [_])
    simp only [commentsOver_case, CommentGroup.of_append, ← Multiset.coe_add, hv]
    abel

end Comments

/-! ## Items -/

section Items

variable (kind : ItemKind)

/-- The weights of the parts are the items in them, path by path. -/
def itemsWeights : Weights (List String → Multiset Expr) where
  elements es path := elementItems kind es path
  entries es path := entryItems kind es path
  comments _ := 0

theorem list_itemsWeights (s : Shape) (path : List String) :
    (itemsWeights kind).list s.list? path = elementItems kind s.elements path := by
  rw [Shape.elements]
  cases s.list? with
  | none => cases path <;> cases kind <;> rfl
  | some l => exact add_zero (elementItems kind l.elements path : Multiset Expr)

theorem select_itemsWeights (s : Shape) (path : List String) :
    (itemsWeights kind).select s.select? path = entryItems kind s.entries path := by
  rw [Shape.entries]
  cases s.select? with
  | none => exact congrArg _ (entryItems_nil kind path).symm
  | some sel =>
      show (entryItems kind sel.entries path : Multiset Expr) + 0 + 0 + 0 = _
      simp only [add_zero]
      rfl

theorem itemsAt_eq_shape {x : Option Expr} {s : Shape} (h : Shape.ofValue x = .ok s)
    (path : List String) :
    (itemsAt kind path x : Multiset Expr) = (itemsWeights kind).shape s path := by
  calc (itemsAt kind path x : Multiset Expr)
      = elementItems kind s.elements path + entryItems kind s.entries path := by
        rw [itemsAt_of_shape h, ← Multiset.coe_add]
    _ = (itemsWeights kind).list s.list? path + (itemsWeights kind).select s.select? path := by
        rw [list_itemsWeights, select_itemsWeights]
    _ = (itemsWeights kind).shape s path := (add_zero _).symm

/-- The items of a kind, as a measure. -/
def itemsMeasure : Measure (List String → Multiset Expr) where
  toWeights := itemsWeights kind
  value x path := itemsAt kind path x
  elements_append xs ys := by
    funext path
    exact congrArg _ (elementItems_append kind xs ys path)
  entries_append xs ys := by
    funext path
    exact congrArg _ (entryItems_append kind xs ys path)
  entries_nil := by
    funext path
    exact congrArg _ (entryItems_nil kind path)
  comments_append _ _ := (add_zero 0).symm
  value_eq_shape h := by
    funext path
    exact itemsAt_eq_shape kind h path
  entries_case := by
    intro x y v key kc kc' c c' hv
    funext path
    show (entryItems kind [_] path : Multiset Expr) =
      entryItems kind [_] path + entryItems kind [_] path
    simp only [entryItems_case]
    cases path with
    | nil => rfl
    | cons key' path =>
        by_cases hkey : key = key'
        · simp only [if_pos hkey]
          exact congrFun hv path
        · simp only [if_neg hkey]
          rfl

end Items

/-! ## Order -/

/-- At every path the items of `r` are those of `x` followed by those of `y`, and the
keys stay distinct, if those of `x` and `y` are. -/
def Follows (x y r : Option Expr) : Prop :=
  DistinctKeys x → DistinctKeys y → DistinctKeys r ∧
    ∀ kind path, itemsAt kind path r = itemsAt kind path x ++ itemsAt kind path y

theorem caseKeys_slot (before after : List Expr) (key : String) (kc c : Comments) (v : Expr) :
    caseKeys (before ++ .keyValue (.string key kc) v c :: after) =
      caseKeys before ++ key :: caseKeys after := by
  rw [caseKeys_append, caseKeys_cons_case rfl]

theorem entryItems_slot (kind : ItemKind) (before after : List Expr) (x : Expr)
    (path : List String) :
    entryItems kind (before ++ x :: after) path =
      entryItems kind before path ++ (entryItems kind [x] path ++ entryItems kind after path) := by
  rw [entryItems_append, ← List.singleton_append, entryItems_append kind [x]]

theorem distinctEntries_added {xs : List Expr} {y : Expr}
    (hnew : ∀ key, caseKey? y = some key → key ∉ caseKeys xs) (hxs : DistinctEntries xs)
    (hy : DistinctKeys (some y)) : DistinctEntries (xs ++ [y]) := by
  refine ⟨?_, ?_⟩
  · rw [caseKeys_append]
    cases hkey : caseKey? y with
    | none =>
        have nokey : caseKeys [y] = [] := by simp [caseKeys, hkey]
        rw [nokey, List.append_nil]
        exact hxs.keys
    | some key =>
        rw [caseKeys_cons_case hkey]
        refine List.nodup_append'.2 ⟨hxs.keys, List.nodup_singleton key, ?_⟩
        exact List.disjoint_singleton.2 (hnew key hkey)
  · intro e he
    rcases List.mem_append.1 he with hmem | hlast
    · exact hxs.entries e hmem
    · rw [List.mem_singleton.1 hlast]
      exact hy

theorem distinctEntries_shared {before after : List Expr} {key : String} {kc kc' c c' : Comments}
    {xv v : Expr}
    (hxs : DistinctEntries (before ++ .keyValue (.string key kc) xv c :: after))
    (hv : DistinctKeys (some v)) :
    DistinctEntries (before ++ .keyValue (.string key kc') v c' :: after) := by
  refine ⟨?_, ?_⟩
  · have hkeys := hxs.keys
    rw [caseKeys_slot] at hkeys ⊢
    exact hkeys
  · intro e he
    rcases List.mem_append.1 he with hbefore | hrest
    · exact hxs.entries e (List.mem_append_left _ hbefore)
    · rcases List.mem_cons.1 hrest with rfl | hafter
      · exact distinctKeys_case.2 hv
      · exact hxs.entries e (List.mem_append_right _ (List.mem_cons_of_mem _ hafter))

/-- The items of a case that takes another in.  It is the only one of its key, so the
items of the other come last under the key. -/
theorem entryItems_shared {before after : List Expr} {key : String}
    {kc kc' kc'' c c' c'' : Comments} {xv yv v : Expr} (hbefore : key ∉ caseKeys before)
    (hafter : key ∉ caseKeys after) {kind : ItemKind}
    (hv : ∀ path, itemsAt kind path (some v) =
      itemsAt kind path (some xv) ++ itemsAt kind path (some yv)) (path : List String) :
    entryItems kind (before ++ .keyValue (.string key kc'') v c'' :: after) path =
      entryItems kind (before ++ .keyValue (.string key kc) xv c :: after) path ++
        entryItems kind [.keyValue (.string key kc') yv c'] path := by
  rw [entryItems_slot, entryItems_slot, entryItems_case, entryItems_case, entryItems_case]
  cases path with
  | nil => simp
  | cons key' path =>
      by_cases hkey : key = key'
      · subst hkey
        simp [entryItems_eq_nil hbefore, entryItems_eq_nil hafter, hv]
      · simp [hkey]

theorem follows_entryJoined {xs zs : List Expr} {y : Expr}
    (h : EntryJoined (onValues Follows) xs y zs) (hxs : DistinctEntries xs)
    (hy : DistinctKeys (some y)) :
    DistinctEntries zs ∧ ∀ kind path,
      entryItems kind zs path = entryItems kind xs path ++ entryItems kind [y] path := by
  cases h with
  | added hnew =>
      exact ⟨distinctEntries_added hnew hxs hy, fun kind path => entryItems_append kind xs [y] path⟩
  | @shared before after key kc kc' c c' xv yv v hx hbefore hv =>
      subst hx
      have hxv := distinctKeys_case.1 (hxs.entries _ (List.mem_append_right _ List.mem_cons_self))
      obtain ⟨hdistinct, hitems⟩ := hv hxv (distinctKeys_case.1 hy)
      have hafter : key ∉ caseKeys after := by
        have hkeys := hxs.keys
        rw [caseKeys_slot] at hkeys
        exact (List.nodup_cons.1 hkeys.of_append_right).1
      exact ⟨distinctEntries_shared hxs hdistinct,
        fun kind path => entryItems_shared hbefore hafter (hitems kind) path⟩

/-- What one entry preserves, the entries one after the other preserve. -/
theorem follows_entriesJoined {xs ys zs : List Expr}
    (h : EntriesJoined (onValues Follows) xs ys zs) (hxs : DistinctEntries xs)
    (hys : ∀ y ∈ ys, DistinctKeys (some y)) :
    DistinctEntries zs ∧ ∀ kind path,
      entryItems kind zs path = entryItems kind xs path ++ entryItems kind ys path := by
  induction h with
  | nil =>
      refine ⟨hxs, fun kind path => ?_⟩
      rw [entryItems_nil, List.append_nil]
  | @cons xs zs rs y ys head _ ih =>
      obtain ⟨hy, hrest⟩ := List.forall_mem_cons.1 hys
      obtain ⟨hzs, hhead⟩ := follows_entryJoined head hxs hy
      obtain ⟨hrs, htail⟩ := ih hzs hrest
      refine ⟨hrs, fun kind path => ?_⟩
      rw [htail, hhead, List.append_assoc, ← entryItems_append, List.singleton_append]

theorem follows_selectsJoined {x y s : Option SelectValue}
    (h : SelectsJoined (onValues Follows) x y s) (hx : DistinctEntries (selectEntries x))
    (hy : DistinctEntries (selectEntries y)) :
    DistinctEntries (selectEntries s) ∧ ∀ kind path,
      entryItems kind (selectEntries s) path =
        entryItems kind (selectEntries x) path ++ entryItems kind (selectEntries y) path := by
  cases h with
  | left =>
      refine ⟨hx, fun kind path => ?_⟩
      rw [selectEntries, entryItems_nil, List.append_nil]
  | right =>
      refine ⟨hy, fun kind path => ?_⟩
      rw [selectEntries, entryItems_nil, List.nil_append]
  | both he => exact follows_entriesJoined he hx hy.entries

theorem listElements_joinLists (x y : Option ListValue) :
    listElements (joinLists x y) = listElements x ++ listElements y := by
  cases x with
  | none => rfl
  | some x =>
      cases y with
      | none => exact (List.append_nil _).symm
      | some y => rfl

theorem follows_shapesJoined {x y r : Option Expr} {sx sy sr : Shape}
    (hx : Shape.ofValue x = .ok sx) (hy : Shape.ofValue y = .ok sy) (hr : Shape.ofValue r = .ok sr)
    (h : ShapesJoined (onValues Follows) sx sy sr) : Follows x y r := by
  intro dx dy
  rw [distinctKeys_iff hx] at dx
  rw [distinctKeys_iff hy] at dy
  have helements : sr.elements = sx.elements ++ sy.elements := by
    rw [Shape.elements, h.list, listElements_joinLists]
    rfl
  obtain ⟨hentries, hitems⟩ := follows_selectsJoined h.select dx.2 dy.2
  refine ⟨(distinctKeys_iff hr).2 ⟨?_, hentries⟩, fun kind path => ?_⟩
  · rw [helements]
    exact List.forall_mem_append.2 ⟨dx.1, dy.1⟩
  · have hi : entryItems kind sr.entries path =
        entryItems kind sx.entries path ++ entryItems kind sy.entries path := hitems kind path
    rw [itemsAt_of_shape hx, itemsAt_of_shape hy, itemsAt_of_shape hr, helements,
      elementItems_append, hi]
    -- Only one of the two in the middle is there, so they can change places.
    rcases elementItems_eq_nil_or kind sy.elements sx.entries path with hnil | hnil
    · simp [hnil]
    · simp [hnil]

/-! ## The theorem -/

/-- A squash has the comments and the items of both values, each as often as they
have it.  If the keys of both are distinct, the items at a path keep their order. -/
theorem squash_conserves {x y : Option Expr} {r : Expr} (h : squash x y = .ok (some r)) :
    (∀ g, (commentsIn g (some r) : Multiset Comment) = commentsIn g x + commentsIn g y) ∧
      (∀ kind path, (itemsAt kind path (some r) : Multiset Expr) =
        itemsAt kind path x + itemsAt kind path y) ∧
      (DistinctKeys x → DistinctKeys y → ∀ kind path,
        itemsAt kind path (some r) = itemsAt kind path x ++ itemsAt kind path y) := by
  refine ⟨fun g => ?_, fun kind path => ?_, fun dx dy => ?_⟩
  · exact (commentsMeasure g).value_squash h
  · exact congrFun ((itemsMeasure kind).value_squash h) path
  · have follows : Follows x y (some r) :=
      squash_induction (P := Follows) (fun _ _ _ _ _ _ => follows_shapesJoined) h
    exact (follows dx dy).2

/-- A `select` with an entry without a key. -/
def linuxCases : SelectValue where
  entries := [.keyValue (.string "linux" {}) (.list [.string "//b" {}] {}) {}, .literal "REST" {}]

/-- A `select` with a case of the same key and a case without a shape. -/
def darwinCases : SelectValue where
  entries := [
    .keyValue (.string "darwin" {}) (.literal "DARWIN" {}) {},
    .keyValue (.string "linux" { suffix := [⟨"# 64 bit"⟩] }) (.list [.string "//c" {}] {}) {}]

/-- The two joined. -/
def joinedCases : SelectValue where
  entries := [
    .keyValue (.string "linux" { suffix := [⟨"# 64 bit"⟩] })
      (.list [.string "//b" {}, .string "//c" {}] {}) {},
    .literal "REST" {}, .keyValue (.string "darwin" {}) (.literal "DARWIN" {}) {}]

/-- A list with a comment, `+` a `select`. -/
def listPlus (s : SelectValue) : Expr :=
  .binary (.list [.string "//a" {}] {}) "+" s.toExpr { before := [⟨"# deps"⟩] }

theorem joinSelects_linuxCases :
    joinSelects (some linuxCases) (some darwinCases) = .ok (some joinedCases) := by
  have hb : Shape.ofValue (some (.list [.string "//b" {}] {})) =
    .ok (.list ⟨[.string "//b" {}], {}⟩) := rfl
  have hc : Shape.ofValue (some (.list [.string "//c" {}] {})) =
    .ok (.list ⟨[.string "//c" {}], {}⟩) := rfl
  have hnone : joinSelects none none = .ok none := by rw [joinSelects]
  have hlists : squash (some (.list [.string "//b" {}] {})) (some (.list [.string "//c" {}] {})) =
      .ok (some (.list [.string "//b" {}, .string "//c" {}] {})) :=
    squash_of_joinSelects hb hc hnone
  simp [linuxCases, darwinCases, joinedCases, joinSelects, joinEntries, updateCase, joinEntry,
    hlists, caseKey?, Expr.string?, Expr.addComments, Expr.setComments, Expr.comments, bind,
    Except.bind, pure, Except.pure]

theorem linuxCases_conserved :
    squash (some (listPlus linuxCases)) (some darwinCases.toExpr) =
        .ok (some (listPlus joinedCases)) ∧
      (commentsIn .suffix (some (listPlus joinedCases)) : Multiset Comment) =
        commentsIn .suffix (some (listPlus linuxCases)) +
          commentsIn .suffix (some darwinCases.toExpr) ∧
      (itemsAt .unrecognised ["darwin"] (some (listPlus joinedCases)) : Multiset Expr) =
        itemsAt .unrecognised ["darwin"] (some (listPlus linuxCases)) +
          itemsAt .unrecognised ["darwin"] (some darwinCases.toExpr) ∧
      itemsAt .element ["linux"] (some (listPlus joinedCases)) =
        [.string "//b" {}, .string "//c" {}] := by
  have hx : Shape.ofValue (some (listPlus linuxCases)) =
    .ok (.listPlusSelect ⟨[.string "//a" {}], {}⟩ linuxCases { before := [⟨"# deps"⟩] }) := rfl
  have hy : Shape.ofValue (some darwinCases.toExpr) = .ok (.select darwinCases) := rfl
  have h : squash (some (listPlus linuxCases)) (some darwinCases.toExpr) =
      .ok (some (listPlus joinedCases)) := squash_of_joinSelects hx hy joinSelects_linuxCases
  obtain ⟨hcomments, hitems, horder⟩ := squash_conserves h
  refine ⟨h, hcomments .suffix, hitems .unrecognised ["darwin"], ?_⟩
  rw [horder (by decide +kernel) (by decide +kernel)]
  rfl

end BuildFix
