import Mathlib.Data.List.Basic

/-!
# Lists changed in place

`mapInPlace g` gives every element of a list another value in its place.  The
function `g` is also given the elements in front of the place and those behind
it, so it can tell the first of several elements from the others.
-/

namespace BuildFix

variable {α β : Type}

/-- Every element with another value in its place, where `g` is given the
elements in front of the place, the element, and the elements behind the
place. -/
def mapInPlace (g : List α → α → List α → β) (xs : List α) : List β :=
  xs.mapIdx fun i x => g (xs.take i) x (xs.drop (i + 1))

@[simp] theorem mapInPlace_nil (g : List α → α → List α → β) : mapInPlace g [] = [] := rfl

@[simp] theorem mapInPlace_cons (g : List α → α → List α → β) (x : α) (xs : List α) :
    mapInPlace g (x :: xs) = g [] x xs :: mapInPlace (fun before => g (x :: before)) xs :=
  List.mapIdx_cons

theorem mapInPlace_append (g : List α → α → List α → β) (xs ys : List α) :
    mapInPlace g (xs ++ ys) = mapInPlace (fun before x after => g before x (after ++ ys)) xs ++
      mapInPlace (fun before => g (xs ++ before)) ys := by
  induction xs generalizing g with
  | nil => rfl
  | cons x xs ih => simp [ih]

/-- Functions that agree at every place change the list in the same way. -/
theorem mapInPlace_congr {g h : List α → α → List α → β} {xs : List α}
    (hgh : ∀ before x after, xs = before ++ x :: after → g before x after = h before x after) :
    mapInPlace g xs = mapInPlace h xs := by
  induction xs generalizing g h with
  | nil => rfl
  | cons x xs ih =>
      rw [mapInPlace_cons, mapInPlace_cons, hgh [] x xs rfl]
      congr 1
      refine ih fun before y after hxs => hgh (x :: before) y after ?_
      rw [hxs, List.cons_append]

/-- A function that looks at the element alone changes each element. -/
theorem mapInPlace_eq_map {g : List α → α → List α → β} {h : α → β} {xs : List α}
    (hgh : ∀ before x after, xs = before ++ x :: after → g before x after = h x) :
    mapInPlace g xs = xs.map h := by
  induction xs generalizing g with
  | nil => rfl
  | cons x xs ih =>
      rw [mapInPlace_cons, List.map_cons, hgh [] x xs rfl]
      congr 1
      refine ih fun before y after hxs => hgh (x :: before) y after ?_
      rw [hxs, List.cons_append]

end BuildFix
