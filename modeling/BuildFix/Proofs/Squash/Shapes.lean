import BuildFix.Squash.Shape

/-!
# Values of a shape

Three forms of expression have a shape, and `ofExpr_cases` gives each with its
shape: a list, a call of `select` over one dict with string keys, and a list `+`
such a call.  A call may be compact, which its shape does not say.

In the other direction a shape gives a value of that shape back
(`ofValue_toExpr?`), provided the entries of its `select` may stand in a dict of
one.  This is so of every shape a value has (`valid_of_ofValue`).
-/

namespace BuildFix

/-- The `select` as a call, compact or not. -/
def SelectValue.toCall (compact : Bool) (s : SelectValue) : Expr :=
  .call (.literal "select" s.calleeComments) [.dict s.entries s.dictComments] compact s.callComments

/-- The entries may stand in the dict of a `select`. -/
def SelectValue.Valid (s : SelectValue) : Prop := s.entries.all isCaseEntry = true

theorem SelectValue.ofCall_toCall {s : SelectValue} (h : s.Valid) :
    SelectValue.ofCall (.literal "select" s.calleeComments) [.dict s.entries s.dictComments]
      s.callComments = .ok s := by
  have hf : (Expr.literal "select" s.calleeComments).literal? = some "select" := rfl
  simp only [SelectValue.ofCall, hf, if_true]
  exact if_pos h

theorem SelectValue.ofCall_eq_ok {f : Expr} {args : List Expr} {c : Comments} {s : SelectValue}
    (h : SelectValue.ofCall f args c = .ok s) (compact : Bool) :
    s.Valid ∧ Expr.call f args compact c = s.toCall compact := by
  unfold SelectValue.ofCall at h
  split at h
  next hf =>
    split at h
    next entries dc =>
      split at h
      next hall =>
        cases h
        cases f with
        | literal token fc =>
            cases hf
            exact ⟨hall, rfl⟩
        | _ => cases hf
      next => cases h
    next => cases h
  next => cases h

theorem SelectValue.map_ofCall_eq_ok {f : Expr} {args : List Expr} {c : Comments}
    {g : SelectValue → Shape} {s : Shape} (h : (SelectValue.ofCall f args c).map g = .ok s)
    (compact : Bool) :
    ∃ sel, s = g sel ∧ sel.Valid ∧ Expr.call f args compact c = sel.toCall compact := by
  cases hsel : SelectValue.ofCall f args c with
  | error err =>
      rw [hsel] at h
      cases h
  | ok sel =>
      rw [hsel] at h
      cases h
      exact ⟨sel, rfl, ofCall_eq_ok hsel compact⟩

theorem caseKey?_eq_some_iff {e : Expr} {key : String} :
    caseKey? e = some key ↔ ∃ kc v c, e = .keyValue (.string key kc) v c := by
  constructor
  · intro h
    cases e with
    | keyValue k v c =>
        cases k with
        | string s kc =>
            cases h
            exact ⟨kc, v, c, rfl⟩
        | _ => cases h
    | _ => cases h
  · rintro ⟨kc, v, c, rfl⟩
    rfl

namespace Shape

/-- The `select` of the shape may stand in a value. -/
def Valid (s : Shape) : Prop := ∀ sel, s.select? = some sel → sel.Valid

/-- The forms of expression that have a shape. -/
theorem ofExpr_cases {e : Expr} {s : Shape} (h : ofExpr e = .ok s) :
    (∃ l, s = .list l ∧ e = l.toExpr) ∨
      (∃ sel b, s = .select sel ∧ sel.Valid ∧ e = sel.toCall b) ∨
      ∃ l sel b op, s = .listPlusSelect l sel op ∧ sel.Valid ∧
        e = .binary l.toExpr "+" (sel.toCall b) op := by
  cases e with
  | list es c =>
      cases h
      exact .inl ⟨⟨es, c⟩, rfl, rfl⟩
  | call f args b c =>
      rw [ofExpr] at h
      obtain ⟨sel, rfl, hv, he⟩ := SelectValue.map_ofCall_eq_ok h b
      exact .inr (.inl ⟨sel, b, rfl, hv, he⟩)
  | binary l op r c =>
      simp only [ofExpr] at h
      split at h
      next hop =>
        subst hop
        split at h
        next es lc f args b rc =>
          obtain ⟨sel, rfl, hv, he⟩ := SelectValue.map_ofCall_eq_ok h b
          rw [he]
          exact .inr (.inr ⟨⟨es, lc⟩, sel, b, c, rfl, hv, rfl⟩)
        next => cases h
        next => cases h
      next => cases h
  | literal t c => cases h
  | string v c => cases h
  | dict es c => cases h
  | keyValue k v c => cases h

theorem valid_of_ofExpr {e : Expr} {s : Shape} (h : ofExpr e = .ok s) : s.Valid := by
  intro sel hsel
  rcases ofExpr_cases h with ⟨l, rfl, -⟩ | ⟨sel', b, rfl, hv, -⟩ | ⟨l, sel', b, op, rfl, hv, -⟩
  · cases hsel
  · cases hsel
    exact hv
  · cases hsel
    exact hv

/-- The shape of a value may stand in a value. -/
theorem valid_of_ofValue {x : Option Expr} {s : Shape} (h : ofValue x = .ok s) : s.Valid := by
  cases x with
  | none =>
      cases h
      intro sel hsel
      cases hsel
  | some e => exact valid_of_ofExpr h

/-- Only the absent value has neither a list nor a `select`. -/
theorem eq_none_of_parts {x : Option Expr} {s : Shape} (h : ofValue x = .ok s)
    (hlist : s.list? = none) (hselect : s.select? = none) : x = none := by
  cases x with
  | none => rfl
  | some e =>
      rcases ofExpr_cases h with ⟨l, rfl, -⟩ | ⟨sel, b, rfl, -, -⟩ | ⟨l, sel, b, op, rfl, -, -⟩
      · cases hlist
      · cases hselect
      · cases hlist

/-- The value of a shape has that shape. -/
theorem ofValue_toExpr? {s : Shape} (h : s.Valid) : ofValue s.toExpr? = .ok s := by
  cases s with
  | absent => rfl
  | list l => rfl
  | select sel =>
      simp only [toExpr?, ofValue, SelectValue.toExpr, ofExpr,
        SelectValue.ofCall_toCall (h sel rfl)]
      rfl
  | listPlusSelect l sel op =>
      simp only [toExpr?, ofValue, ListValue.toExpr, SelectValue.toExpr, ofExpr, if_pos,
        SelectValue.ofCall_toCall (h sel rfl)]
      rfl

end Shape

end BuildFix
