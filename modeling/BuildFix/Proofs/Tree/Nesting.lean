import BuildFix.Proofs.Json.Reading
import BuildFix.Tree.Encode

/-!
# How deep a tree nests

The JSON form of a tree opens an object for every node and an array for every
list of nodes, and `Expr.opens` counts those that are open at once at the deepest
place.  It is computed along the tree, with one lemma for each form of node.

Comments add three at most, and joining comments adds nothing
(`Comments.opens_append`).
-/

namespace BuildFix

open Json (opensMembers opensItems)

/-! ## Comments -/

namespace Comments

/-- The arrays and objects open at once in the JSON form of comments. -/
def opens (c : Comments) : Nat := opensMembers c.member

theorem opensItems_map_toJson {group : List Comment} (h : group ≠ []) :
    opensItems (group.map Comment.toJson) = 1 := by
  induction group with
  | nil => exact absurd rfl h
  | cons c group ih =>
      rw [List.map_cons, opensItems]
      by_cases hg : group = []
      · rw [hg]
        rfl
      · rw [ih hg]
        rfl

theorem opensMembers_groupMember (key : String) (group : List Comment) :
    opensMembers (groupMember key group) = if group.isEmpty then 0 else 2 := by
  unfold groupMember
  cases group with
  | nil => rfl
  | cons c group =>
      simp only [List.isEmpty_cons, Bool.false_eq_true, if_false, opensMembers, Json.opens,
        opensItems_map_toJson (List.cons_ne_nil c group)]
      decide

/-- The comments of a node are an object of arrays of objects. -/
theorem opens_eq (c : Comments) : c.opens = if c.isEmpty then 0 else 3 := by
  unfold opens member
  cases h : c.isEmpty with
  | true => rfl
  | false =>
      simp only [Bool.false_eq_true, if_false, opensMembers, toJson, Json.opens,
        Json.opensMembers_append, opensMembers_groupMember]
      rw [isEmpty] at h
      revert h
      cases c.before.isEmpty <;> cases c.suffix.isEmpty <;> cases c.after.isEmpty <;> simp

theorem opens_le (c : Comments) : c.opens ≤ 3 := by
  rw [opens_eq]
  split <;> decide

@[simp] theorem opens_empty : ({} : Comments).opens = 0 := rfl

theorem isEmpty_append (c d : Comments) : (c ++ d).isEmpty = (c.isEmpty && d.isEmpty) := by
  have hgroup (xs ys : List Comment) : (xs ++ ys).isEmpty = (xs.isEmpty && ys.isEmpty) := by
    cases xs <;> rfl
  simp only [isEmpty, before_append, suffix_append, after_append, hgroup]
  ac_rfl

/-- Joined comments are as deep as the deeper of the two. -/
theorem opens_append (c d : Comments) : (c ++ d).opens = max c.opens d.opens := by
  rw [opens_eq, opens_eq, opens_eq, isEmpty_append]
  cases c.isEmpty <;> cases d.isEmpty <;> rfl

end Comments

/-! ## Expressions -/

namespace Expr

/-- The arrays and objects open at once in the JSON form of an expression. -/
def opens (e : Expr) : Nat := e.toJson.opens

/-- The arrays and objects open at once in the JSON forms of expressions. -/
def opensAll (es : List Expr) : Nat := opensItems (toJsons es)

theorem opens_literal (t : String) (c : Comments) : (literal t c).opens = c.opens + 1 := by
  simp [opens, toJson, Json.opens, opensMembers, Comments.opens]

theorem opens_string (v : String) (c : Comments) : (string v c).opens = c.opens + 1 := by
  simp [opens, toJson, Json.opens, opensMembers, Comments.opens]

theorem opens_list (es : List Expr) (c : Comments) :
    (list es c).opens = max (opensAll es + 1) c.opens + 1 := by
  simp [opens, opensAll, toJson, Json.opens, opensMembers, Comments.opens]

theorem opens_dict (es : List Expr) (c : Comments) :
    (dict es c).opens = max (opensAll es + 1) c.opens + 1 := by
  simp [opens, opensAll, toJson, Json.opens, opensMembers, Comments.opens]

theorem opens_keyValue (k v : Expr) (c : Comments) :
    (keyValue k v c).opens = max (max k.opens v.opens) c.opens + 1 := by
  simp [opens, toJson, Json.opens, opensMembers, Comments.opens, Nat.max_assoc]

theorem opens_binary (l : Expr) (op : String) (r : Expr) (c : Comments) :
    (binary l op r c).opens = max (max l.opens r.opens) c.opens + 1 := by
  simp [opens, toJson, Json.opens, opensMembers, Comments.opens, Nat.max_assoc]

theorem opens_call (f : Expr) (args : List Expr) (compact : Bool) (c : Comments) :
    (call f args compact c).opens = max (max f.opens (opensAll args + 1)) c.opens + 1 := by
  cases compact <;>
    simp [opens, opensAll, toJson, Json.opens, opensMembers, Comments.opens, Nat.max_assoc]

theorem opens_pos (e : Expr) : 0 < e.opens := by
  cases e <;> exact Nat.succ_pos _

@[simp] theorem opensAll_nil : opensAll [] = 0 := rfl

@[simp] theorem opensAll_cons (e : Expr) (es : List Expr) :
    opensAll (e :: es) = max e.opens (opensAll es) := rfl

theorem opensAll_append (es es' : List Expr) :
    opensAll (es ++ es') = max (opensAll es) (opensAll es') := by
  induction es with
  | nil => rw [List.nil_append, opensAll_nil, Nat.zero_max]
  | cons e es ih => rw [List.cons_append, opensAll_cons, ih, opensAll_cons, Nat.max_assoc]

theorem opensAll_le_iff {es : List Expr} {n : Nat} :
    opensAll es ≤ n ↔ ∀ e ∈ es, e.opens ≤ n := by
  rw [opensAll, toJsons_eq_map, Json.opensItems_le_iff, List.forall_mem_map]
  rfl

theorem opens_le_opensAll {e : Expr} {es : List Expr} (h : e ∈ es) : e.opens ≤ opensAll es :=
  opensAll_le_iff.1 (Nat.le_refl _) e h

end Expr

theorem File.opens_toJson (f : File) : f.toJson.opens = Expr.opensAll f.stmts + 2 := by
  simp [toJson, Json.opens, opensMembers, Expr.opensAll]

end BuildFix
