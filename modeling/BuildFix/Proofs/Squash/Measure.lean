import BuildFix.Proofs.Squash.Contents
import Mathlib.Algebra.Group.Pi.Basic
import Mathlib.Algebra.Order.Group.Multiset
import Mathlib.Tactic.Abel

/-!
# Additive measures of values

A measure weighs the parts of a shape in a commutative monoid: elements and entries
by the list, and comments.  It is additive if joining comments and lists adds their
weights, if the weight of a value is that of its shape, and if the weight of two
cases of one key is that of the case they are joined to, provided their values add
up.

Then squashing adds weights (`Measure.value_squash`).  The comments of a group and
the items at each path are two such measures.
-/

namespace BuildFix

variable {M : Type} [AddCommMonoid M]

/-! ## Weights of parts -/

/-- The weights of the parts of a shape. -/
structure Weights (M : Type) where
  /-- The weight of the elements of a list. -/
  elements : List Expr → M
  /-- The weight of the entries of a dict. -/
  entries : List Expr → M
  /-- The weight of comments. -/
  comments : Comments → M

namespace Weights

variable (w : Weights M)

/-- The weight of a list, without one of nothing. -/
def list : Option ListValue → M
  | none => 0
  | some l => w.elements l.elements + w.comments l.comments

/-- The weight of a `select`, without one of nothing. -/
def select : Option SelectValue → M
  | none => 0
  | some s =>
      w.entries s.entries + w.comments s.dictComments + w.comments s.callComments +
        w.comments s.calleeComments

/-- The weight of a shape. -/
def shape (s : Shape) : M := w.list s.list? + w.select s.select? + w.comments s.opComments

end Weights

/-- An additive measure of values. -/
structure Measure (M : Type) [AddCommMonoid M] extends Weights M where
  /-- The weight of a value. -/
  value : Option Expr → M
  elements_append : ∀ xs ys, elements (xs ++ ys) = elements xs + elements ys
  entries_append : ∀ xs ys, entries (xs ++ ys) = entries xs + entries ys
  entries_nil : entries [] = 0
  comments_append : ∀ c d, comments (c ++ d) = comments c + comments d
  /-- A value weighs what its shape weighs. -/
  value_eq_shape : ∀ {x s}, Shape.ofValue x = .ok s → value x = toWeights.shape s
  /-- A case weighs what the two cases it is joined from weigh. -/
  entries_case : ∀ {x y v : Expr} (key : String) (kc kc' c c' : Comments),
    value (some v) = value (some x) + value (some y) →
      entries [.keyValue (.string key (kc ++ kc')) v (c ++ c')] =
        entries [.keyValue (.string key kc) x c] + entries [.keyValue (.string key kc') y c']

namespace Measure

variable (w : Measure M)

/-- The relation that holds if the weights of the first two add up to the third. -/
def Adds (x y r : Option Expr) : Prop := w.value r = w.value x + w.value y

theorem list_joinLists (x y : Option ListValue) :
    w.list (joinLists x y) = w.list x + w.list y := by
  cases x with
  | none => exact (zero_add _).symm
  | some x =>
      cases y with
      | none => exact (add_zero _).symm
      | some y =>
          simp only [joinLists, Weights.list, w.elements_append, w.comments_append]
          abel

theorem entries_cons (y : Expr) (ys : List Expr) :
    w.entries (y :: ys) = w.entries [y] + w.entries ys := w.entries_append [y] ys

variable {w}

theorem entries_of_entryJoined {xs zs : List Expr} {y : Expr}
    (h : EntryJoined (onValues w.Adds) xs y zs) :
    w.entries zs = w.entries xs + w.entries [y] := by
  cases h with
  | added => exact w.entries_append xs [y]
  | @shared before after key kc kc' c c' xv yv v hxs hkey hv =>
      have hcase := w.entries_case key kc kc' c c' hv
      rw [hxs, w.entries_append, w.entries_append, w.entries_cons _ after,
        w.entries_cons (.keyValue (.string key kc) xv c) after, hcase]
      abel

theorem entries_of_entriesJoined {xs ys zs : List Expr}
    (h : EntriesJoined (onValues w.Adds) xs ys zs) :
    w.entries zs = w.entries xs + w.entries ys := by
  induction h with
  | nil => rw [w.entries_nil, add_zero]
  | @cons xs zs rs y ys head _ ih =>
      rw [ih, entries_of_entryJoined head, add_assoc, ← w.entries_cons]

theorem select_of_selectsJoined {x y s : Option SelectValue}
    (h : SelectsJoined (onValues w.Adds) x y s) : w.select s = w.select x + w.select y := by
  cases h with
  | left => exact (add_zero _).symm
  | right => exact (zero_add _).symm
  | both he =>
      simp only [Weights.select, entries_of_entriesJoined he, w.comments_append]
      abel

theorem shape_of_shapesJoined {x y r : Shape} (h : ShapesJoined (onValues w.Adds) x y r) :
    w.shape r = w.shape x + w.shape y := by
  rw [Weights.shape, h.list, h.op, w.list_joinLists, select_of_selectsJoined h.select,
    w.comments_append, Weights.shape, Weights.shape]
  abel

/-- Squashing adds weights. -/
theorem value_squash {x y r : Option Expr} (h : squash x y = .ok r) :
    w.value r = w.value x + w.value y := by
  refine squash_induction (P := w.Adds) ?_ h
  intro x y r sx sy sr hx hy hr hjoined
  show w.value r = w.value x + w.value y
  rw [w.value_eq_shape hx, w.value_eq_shape hy, w.value_eq_shape hr]
  exact shape_of_shapesJoined hjoined

end Measure

end BuildFix
