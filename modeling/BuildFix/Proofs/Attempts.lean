/-!
# Computations that may fail

A sequence of steps succeeds when every step does, and fails when one of them fails.
`Except.toOption` forgets why.
-/

namespace BuildFix

variable {ε α β : Type}

/-- The first part of a computation that succeeds succeeds. -/
theorem exists_of_bind_eq_ok {x : Except ε α} {f : α → Except ε β} {b : β}
    (h : x >>= f = .ok b) : ∃ a, x = .ok a ∧ f a = .ok b := by
  cases x with
  | error e => cases h
  | ok a => exact ⟨a, rfl, h⟩

theorem exists_of_map_eq_ok {x : Except ε α} {f : α → β} {b : β} (h : x.map f = .ok b) :
    ∃ a, x = .ok a ∧ f a = b := by
  cases x with
  | error e => cases h
  | ok a =>
      cases h
      exact ⟨a, rfl, rfl⟩

theorem map_eq_error_iff {x : Except ε α} {f : α → β} {e : ε} :
    x.map f = .error e ↔ x = .error e := by
  cases x <;> simp [Except.map]

theorem eq_ok_of_mapError_eq_ok {δ : Type} {x : Except ε α} {f : ε → δ} {a : α}
    (h : x.mapError f = .ok a) : x = .ok a := by
  cases x with
  | error e => cases h
  | ok a' =>
      cases h
      rfl

/-- A computation fails in its first part or afterwards. -/
theorem bind_eq_error {x : Except ε α} {f : α → Except ε β} {e : ε} (h : x >>= f = .error e) :
    x = .error e ∨ ∃ a, x = .ok a ∧ f a = .error e := by
  cases x with
  | error e' =>
      cases h
      exact .inl rfl
  | ok a => exact .inr ⟨a, rfl, h⟩

/-- A computation that succeeds on every item succeeds on the list. -/
theorem mapM_eq_ok {f : α → Except ε β} {g : α → β} {xs : List α}
    (h : ∀ x ∈ xs, f x = .ok (g x)) : xs.mapM f = .ok (xs.map g) := by
  induction xs with
  | nil => rfl
  | cons x xs ih =>
      rw [List.mapM_cons, h x List.mem_cons_self, ih fun y hy => h y (List.mem_cons_of_mem _ hy)]
      rfl

/-- A computation that succeeds on a list succeeds on every item. -/
theorem exists_of_mapM_eq_ok {f : α → Except ε β} {xs : List α} {ys : List β}
    (h : xs.mapM f = .ok ys) : ∀ x ∈ xs, ∃ y, f x = .ok y := by
  induction xs generalizing ys with
  | nil => exact List.forall_mem_nil _
  | cons x xs ih =>
      rw [List.mapM_cons] at h
      obtain ⟨y, hy, h⟩ := exists_of_bind_eq_ok h
      obtain ⟨ys, hys, -⟩ := exists_of_bind_eq_ok h
      exact List.forall_mem_cons.2 ⟨⟨y, hy⟩, ih hys⟩

/-- An item may be exchanged for one on which the computation comes to the same. -/
theorem mapM_replace {f : α → Except ε β} {x x' : α} {pre post : List α} {ys : List β}
    (hx : ∀ y, f x = .ok y → f x' = .ok y) (h : (pre ++ x :: post).mapM f = .ok ys) :
    (pre ++ x' :: post).mapM f = .ok ys := by
  induction pre generalizing ys with
  | nil =>
      rw [List.nil_append, List.mapM_cons] at h ⊢
      obtain ⟨y, hy, h⟩ := exists_of_bind_eq_ok h
      rw [hx y hy]
      exact h
  | cons z pre ih =>
      rw [List.cons_append, List.mapM_cons] at h ⊢
      obtain ⟨y, hy, h⟩ := exists_of_bind_eq_ok h
      obtain ⟨zs, hzs, h⟩ := exists_of_bind_eq_ok h
      rw [hy]
      show (do let ys ← (pre ++ x' :: post).mapM f; pure (y :: ys)) = _
      rw [ih hzs]
      exact h

theorem foldlM_cons_eq_ok_iff {f : β → α → Except ε β} {x : α} {xs : List α} {b b' : β} :
    (x :: xs).foldlM f b = .ok b' ↔ ∃ m, f b x = .ok m ∧ xs.foldlM f m = .ok b' := by
  rw [List.foldlM_cons]
  refine ⟨exists_of_bind_eq_ok, ?_⟩
  rintro ⟨m, hm, h⟩
  rwa [hm]

theorem foldlM_append_eq_ok {f : β → α → Except ε β} {xs ys : List α} {b b' : β}
    (h : (xs ++ ys).foldlM f b = .ok b') :
    ∃ m, xs.foldlM f b = .ok m ∧ ys.foldlM f m = .ok b' := by
  rw [List.foldlM_append] at h
  exact exists_of_bind_eq_ok h

/-- A sequence of steps that fails fails in one of them. -/
theorem foldlM_eq_error {f : β → α → Except ε β} {xs : List α} {b : β} {e : ε}
    (h : xs.foldlM f b = .error e) : ∃ x ∈ xs, ∃ b, f b x = .error e := by
  induction xs generalizing b with
  | nil => cases h
  | cons x xs ih =>
      rw [List.foldlM_cons] at h
      rcases bind_eq_error h with hx | ⟨b', -, h⟩
      · exact ⟨x, List.mem_cons_self, b, hx⟩
      · obtain ⟨y, hy, hf⟩ := ih h
        exact ⟨y, List.mem_cons_of_mem x hy, hf⟩

/-- A check of all items that fails fails for one of them. -/
theorem forM_eq_error {f : α → Except ε Unit} {xs : List α} {e : ε}
    (h : xs.forM f = .error e) : ∃ x ∈ xs, f x = .error e := by
  induction xs with
  | nil => cases h
  | cons x xs ih =>
      rcases bind_eq_error (show (do f x; xs.forM f) = _ from h) with hx | ⟨_, -, h⟩
      · exact ⟨x, List.mem_cons_self, hx⟩
      · obtain ⟨y, hy, hf⟩ := ih h
        exact ⟨y, List.mem_cons_of_mem x hy, hf⟩

/-! ## Forgetting errors -/

theorem toOption_bind (x : Except ε α) (f : α → Except ε β) :
    (x >>= f).toOption = x.toOption.bind fun a => (f a).toOption := by
  cases x <;> rfl

theorem toOption_eq_some_iff {x : Except ε α} {a : α} : x.toOption = some a ↔ x = .ok a := by
  cases x <;> simp [Except.toOption]

/-- Computations that agree without their errors both fail, or succeed with the same
value. -/
theorem error_or_ok_of_toOption_eq {x y : Except ε α} (h : x.toOption = y.toOption) :
    (∃ e e', x = .error e ∧ y = .error e') ∨ ∃ a, x = .ok a ∧ y = .ok a := by
  cases x with
  | error e =>
      cases y with
      | error e' => exact .inl ⟨e, e', rfl, rfl⟩
      | ok b => cases h
  | ok a => exact .inr ⟨a, rfl, toOption_eq_some_iff.1 h.symm⟩

end BuildFix
