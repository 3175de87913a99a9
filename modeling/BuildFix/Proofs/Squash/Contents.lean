import BuildFix.Proofs.Squash.Steps

/-!
# What a value holds

`Expr.nodes` lists a node and everything under it.  The comments of a value are
those of all its nodes, and its keys are distinct if no dict among them repeats a
string key.

A value is read along a path of case keys.  `itemsAt` gives what stands at the end
of the path: the elements of the list, the entries without a key, or the value
itself where it has no shape.  A path goes through every case of a key, so it sees
the values of repeated keys one after the other.
-/

namespace BuildFix

/-! ## Nodes -/

mutual

/-- The node and all nodes under it. -/
def Expr.nodes : Expr → List Expr
  | .literal t c => [.literal t c]
  | .string v c => [.string v c]
  | .list es c => .list es c :: nodesAll es
  | .dict es c => .dict es c :: nodesAll es
  | .keyValue k v c => .keyValue k v c :: (k.nodes ++ v.nodes)
  | .binary l op r c => .binary l op r c :: (l.nodes ++ r.nodes)
  | .call f args compact c => .call f args compact c :: (f.nodes ++ nodesAll args)

/-- The nodes of expressions, one after the other. -/
def nodesAll : List Expr → List Expr
  | [] => []
  | e :: es => e.nodes ++ nodesAll es

end

theorem nodesAll_eq_flatMap (es : List Expr) : nodesAll es = es.flatMap Expr.nodes := by
  induction es with
  | nil => rfl
  | cons e es ih => rw [nodesAll, ih, List.flatMap_cons]

/-- The nodes of a value that may be absent. -/
def nodesIn : Option Expr → List Expr
  | none => []
  | some e => e.nodes

/-! ## Comments -/

/-- The groups of comments of a node. -/
inductive CommentGroup where
  | before
  | suffix
  | after
deriving DecidableEq, Repr

/-- The comments of the group. -/
def CommentGroup.of (c : Comments) : CommentGroup → List Comment
  | before => c.before
  | suffix => c.suffix
  | after => c.after

@[simp] theorem CommentGroup.of_empty (g : CommentGroup) : g.of {} = [] := by
  cases g <;> rfl

@[simp] theorem CommentGroup.of_append (g : CommentGroup) (c d : Comments) :
    g.of (c ++ d) = g.of c ++ g.of d := by
  cases g <;> rfl

/-- The comments of a group over nodes. -/
def commentsOver (g : CommentGroup) (ns : List Expr) : List Comment :=
  ns.flatMap fun n => g.of n.comments

/-- The comments of a group over all nodes of a value. -/
def commentsIn (g : CommentGroup) (x : Option Expr) : List Comment := commentsOver g (nodesIn x)

@[simp] theorem commentsOver_nil (g : CommentGroup) : commentsOver g [] = [] := rfl

@[simp] theorem commentsOver_cons (g : CommentGroup) (n : Expr) (ns : List Expr) :
    commentsOver g (n :: ns) = g.of n.comments ++ commentsOver g ns := rfl

@[simp] theorem commentsOver_append (g : CommentGroup) (ns ms : List Expr) :
    commentsOver g (ns ++ ms) = commentsOver g ns ++ commentsOver g ms :=
  List.flatMap_append

/-! ## Items -/

/-- The elements of a list that may be absent. -/
def listElements : Option ListValue → List Expr
  | none => []
  | some l => l.elements

/-- The entries of a `select` that may be absent. -/
def selectEntries : Option SelectValue → List Expr
  | none => []
  | some s => s.entries

/-- The elements of the list of the shape. -/
def Shape.elements (s : Shape) : List Expr := listElements s.list?

/-- The entries of the `select` of the shape. -/
def Shape.entries (s : Shape) : List Expr := selectEntries s.select?

/-- The kinds of what stands at a path of case keys. -/
inductive ItemKind where
  /-- An element of the list. -/
  | element
  /-- An entry of the dict without a key. -/
  | splat
  /-- A value without a shape. -/
  | unrecognised
deriving DecidableEq, Repr

/-- The items of a kind among elements. -/
def ItemKind.amongElements (elements : List Expr) : ItemKind → List Expr
  | element => elements
  | splat | unrecognised => []

/-- The items of a kind among entries, without the values of the cases. -/
def ItemKind.amongEntries (entries : List Expr) : ItemKind → List Expr
  | splat => entries.filter fun e => (caseKey? e).isNone
  | element | unrecognised => []

/-- The value of a case of the key. -/
def caseValue? (key : String) : Expr → Option Expr
  | .keyValue k v _ => if k.string? = some key then some v else none
  | _ => none

/-- The values of the cases of a key, in order. -/
def valuesAt (key : String) (entries : List Expr) : List Expr := entries.filterMap (caseValue? key)

/-- The items of a kind at a path of case keys. -/
def itemsAt (kind : ItemKind) : List String → Option Expr → List Expr
  | [], x =>
      match Shape.ofValue x with
      | .ok s => kind.amongElements s.elements ++ kind.amongEntries s.entries
      | .error _ => if kind = .unrecognised then x.toList else []
  | key :: path, x =>
      match Shape.ofValue x with
      | .ok s => (valuesAt key s.entries).flatMap fun v => itemsAt kind path (some v)
      | .error _ => []

/-- The items at a path among the elements of the list, all of them at its start. -/
def elementItems (kind : ItemKind) (elements : List Expr) : List String → List Expr
  | [] => kind.amongElements elements
  | _ :: _ => []

/-- The items at a path among the entries of the dict. -/
def entryItems (kind : ItemKind) (entries : List Expr) : List String → List Expr
  | [] => kind.amongEntries entries
  | key :: path => (valuesAt key entries).flatMap fun v => itemsAt kind path (some v)

/-- The items of a value of a shape are those of its parts. -/
theorem itemsAt_of_shape {x : Option Expr} {s : Shape} (h : Shape.ofValue x = .ok s)
    (kind : ItemKind) (path : List String) :
    itemsAt kind path x = elementItems kind s.elements path ++ entryItems kind s.entries path := by
  cases path with
  | nil =>
      rw [itemsAt, h]
      rfl
  | cons key path =>
      rw [itemsAt, h]
      rfl

theorem elementItems_append (kind : ItemKind) (xs ys : List Expr) (path : List String) :
    elementItems kind (xs ++ ys) path =
      elementItems kind xs path ++ elementItems kind ys path := by
  cases path <;> cases kind <;> rfl

theorem entryItems_append (kind : ItemKind) (xs ys : List Expr) (path : List String) :
    entryItems kind (xs ++ ys) path = entryItems kind xs path ++ entryItems kind ys path := by
  cases path with
  | nil => cases kind <;> simp [entryItems, ItemKind.amongEntries]
  | cons key path => simp [entryItems, valuesAt]

theorem entryItems_nil (kind : ItemKind) (path : List String) : entryItems kind [] path = [] := by
  cases path <;> cases kind <;> rfl

/-- A case holds its value, under its key. -/
theorem entryItems_case (kind : ItemKind) (key : String) (kc c : Comments) (v : Expr)
    (path : List String) :
    entryItems kind [.keyValue (.string key kc) v c] path =
      match path with
      | [] => []
      | key' :: path => if key = key' then itemsAt kind path (some v) else [] := by
  cases path with
  | nil => cases kind <;> rfl
  | cons key' path =>
      by_cases h : key = key' <;> simp [entryItems, valuesAt, caseValue?, Expr.string?, h]

/-- No two parts of a shape hold items of one kind at one path. -/
theorem elementItems_eq_nil_or (kind : ItemKind) (xs ys : List Expr) (path : List String) :
    elementItems kind xs path = [] ∨ entryItems kind ys path = [] := by
  cases path with
  | nil => cases kind <;> simp [elementItems, entryItems, ItemKind.amongElements,
      ItemKind.amongEntries]
  | cons key path => exact .inl rfl

/-- Nothing stands under a key without a case. -/
theorem entryItems_eq_nil {key : String} {xs : List Expr} (h : key ∉ caseKeys xs)
    (kind : ItemKind) (path : List String) : entryItems kind xs (key :: path) = [] := by
  have novalues : valuesAt key xs = [] := by
    rw [valuesAt, List.filterMap_eq_nil_iff]
    intro x hx
    cases x with
    | keyValue k v c => exact if_neg fun hk => h (List.mem_filterMap.2 ⟨_, hx, hk⟩)
    | _ => rfl
  rw [entryItems, novalues]
  rfl

/-! ## Distinct keys -/

/-- The string keys of the dict that a node is. -/
def Expr.dictKeys : Expr → List String
  | .dict es _ => caseKeys es
  | _ => []

/-- No dict under the value repeats a string key. -/
def DistinctKeys (x : Option Expr) : Prop := ∀ n ∈ nodesIn x, n.dictKeys.Nodup

instance (x : Option Expr) : Decidable (DistinctKeys x) :=
  inferInstanceAs (Decidable (∀ n ∈ nodesIn x, n.dictKeys.Nodup))

/-- Entries of distinct keys, each with distinct keys under it. -/
structure DistinctEntries (xs : List Expr) : Prop where
  keys : (caseKeys xs).Nodup
  entries : ∀ e ∈ xs, DistinctKeys (some e)

theorem distinct_nodesAll_iff {es : List Expr} :
    (∀ n ∈ nodesAll es, n.dictKeys.Nodup) ↔ ∀ e ∈ es, DistinctKeys (some e) := by
  simp only [nodesAll_eq_flatMap, List.mem_flatMap]
  constructor
  · intro h e he n hn
    exact h n ⟨e, he, hn⟩
  · rintro h n ⟨e, he, hn⟩
    exact h e he n hn

theorem distinctKeys_list {l : ListValue} :
    DistinctKeys (some l.toExpr) ↔ ∀ e ∈ l.elements, DistinctKeys (some e) := by
  rw [← distinct_nodesAll_iff]
  simp [DistinctKeys, ListValue.toExpr, nodesIn, Expr.nodes, Expr.dictKeys]

theorem distinctKeys_case {key : String} {kc c : Comments} {v : Expr} :
    DistinctKeys (some (.keyValue (.string key kc) v c)) ↔ DistinctKeys (some v) := by
  simp [DistinctKeys, nodesIn, Expr.nodes, Expr.dictKeys]

theorem distinctKeys_select {s : SelectValue} {b : Bool} :
    DistinctKeys (some (s.toCall b)) ↔ DistinctEntries s.entries := by
  have split : DistinctKeys (some (s.toCall b)) ↔
      (caseKeys s.entries).Nodup ∧ ∀ n ∈ nodesAll s.entries, n.dictKeys.Nodup := by
    simp [DistinctKeys, SelectValue.toCall, nodesIn, Expr.nodes, nodesAll, Expr.dictKeys]
  rw [split, distinct_nodesAll_iff]
  exact ⟨fun h => ⟨h.1, h.2⟩, fun h => ⟨h.keys, h.entries⟩⟩

theorem distinctKeys_binary {l r : Expr} {op : String} {c : Comments} :
    DistinctKeys (some (.binary l op r c)) ↔ DistinctKeys (some l) ∧ DistinctKeys (some r) := by
  simp only [DistinctKeys, nodesIn, Expr.nodes, List.forall_mem_cons, List.forall_mem_append,
    Expr.dictKeys, List.nodup_nil, true_and]

/-- Whether the keys are distinct is told by the parts of the shape. -/
theorem distinctKeys_iff {x : Option Expr} {s : Shape} (h : Shape.ofValue x = .ok s) :
    DistinctKeys x ↔ (∀ e ∈ s.elements, DistinctKeys (some e)) ∧ DistinctEntries s.entries := by
  have noElements : ∀ e ∈ ([] : List Expr), DistinctKeys (some e) := by
    intro e he
    cases he
  have noEntries : DistinctEntries [] := ⟨List.nodup_nil, noElements⟩
  cases x with
  | none =>
      cases h
      exact iff_of_true (fun n hn => nomatch hn) ⟨noElements, noEntries⟩
  | some e =>
      rcases Shape.ofExpr_cases h with
        ⟨l, rfl, rfl⟩ | ⟨sel, b, rfl, -, rfl⟩ | ⟨l, sel, b, op, rfl, -, rfl⟩
      · rw [distinctKeys_list]
        exact (and_iff_left noEntries).symm
      · rw [distinctKeys_select]
        exact (and_iff_right noElements).symm
      · rw [distinctKeys_binary, distinctKeys_list, distinctKeys_select]
        rfl

end BuildFix
