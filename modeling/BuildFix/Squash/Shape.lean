import BuildFix.Tree.Expr

/-!
# The shapes that can be squashed

An attribute value is *squashable* when it is absent, a list, a `select` over
one dict whose keys are strings, or a list `+` such a `select`.  `Shape.ofValue`
takes a value apart and says what is wrong with a value of any other shape.
`Shape.toExpr?` puts the parts together from fresh nodes.

A dict of a `select` may have entries that are no key-value pairs, such as
splats.  They have no key to check.
-/

namespace BuildFix

/-! ## Errors -/

/-- The forms of a value that are never squashable. -/
inductive OpaqueForm where
  /-- An identifier or a number. -/
  | literal
  /-- A string. -/
  | string
  /-- A dict outside a `select`. -/
  | dict
  /-- A key-value pair. -/
  | keyValue
deriving DecidableEq, Repr

/-- A form in words. -/
def OpaqueForm.words : OpaqueForm → String
  | literal => "literal"
  | string => "string"
  | dict => "bare dict"
  | keyValue => "key-value"

/-- Why a value is not squashable. -/
inductive ShapeError where
  /-- A call of something else.  The callee has a name if it is an identifier. -/
  | notSelect (callee : Option String)
  /-- A `select` whose argument is not one dict. -/
  | selectArgument
  /-- A `select` with a key that is not a string. -/
  | nonStringKey
  /-- An operator other than `+`. -/
  | operator (op : String)
  /-- A sum whose left operand is not a list. -/
  | leftNotList
  /-- A sum whose right operand is not a call. -/
  | rightNotSelect
  /-- A value of another form. -/
  | unsupported (form : OpaqueForm)
deriving DecidableEq, Repr

/-- What an error says. -/
def ShapeError.message : ShapeError → String
  | notSelect (some name) => s!"unrecognized shape: call to `{name}` is not select"
  | notSelect none => "unrecognized shape: call to `<expression>` is not select"
  | selectArgument => "unrecognized shape: select must take exactly one dict argument"
  | nonStringKey => "unrecognized shape: select dict has a non-string key"
  | operator op => s!"unrecognized shape: operator `{op}` is not `+`"
  | leftNotList => "unrecognized shape: left operand of `+` is not a list"
  | rightNotSelect => "unrecognized shape: right operand of `+` is not a select"
  | unsupported form => s!"unrecognized shape: {form.words} expression"

/-! ## Parts -/

/-- A list. -/
structure ListValue where
  /-- The elements, in order. -/
  elements : List Expr := []
  /-- The comments of the list. -/
  comments : Comments := {}
deriving DecidableEq, Repr, Inhabited

/-- A `select` over one dict. -/
structure SelectValue where
  /-- The entries of the dict, in order. -/
  entries : List Expr := []
  /-- The comments of the dict. -/
  dictComments : Comments := {}
  /-- The comments of the call. -/
  callComments : Comments := {}
  /-- The comments of the callee. -/
  calleeComments : Comments := {}
deriving DecidableEq, Repr, Inhabited

/-- The list as an expression. -/
def ListValue.toExpr (l : ListValue) : Expr := .list l.elements l.comments

/-- The `select` as an expression. -/
def SelectValue.toExpr (s : SelectValue) : Expr :=
  .call (.literal "select" s.calleeComments) [.dict s.entries s.dictComments] false s.callComments

/-- The key of a case, if the entry is a key-value pair with a string as key. -/
def caseKey? : Expr → Option String
  | .keyValue key _ _ => key.string?
  | _ => none

/-- Decide whether an entry may stand in the dict of a `select`. -/
def isCaseEntry : Expr → Bool
  | .keyValue key _ _ => key.string?.isSome
  | _ => true

/-- The `select` that a call is. -/
def SelectValue.ofCall (callee : Expr) (args : List Expr) (c : Comments) :
    Except ShapeError SelectValue :=
  if callee.literal? = some "select" then
    match args with
    | [.dict entries dc] =>
        if entries.all isCaseEntry then .ok ⟨entries, dc, c, callee.comments⟩
        else .error .nonStringKey
    | _ => .error .selectArgument
  else .error (.notSelect callee.literal?)

/-! ## Shapes -/

/-- A value that can be squashed. -/
inductive Shape where
  /-- No value. -/
  | absent
  /-- A list. -/
  | list (l : ListValue)
  /-- A `select`. -/
  | select (s : SelectValue)
  /-- A list `+` a `select`, with the comments of the operator. -/
  | listPlusSelect (l : ListValue) (s : SelectValue) (op : Comments)
deriving DecidableEq, Repr, Inhabited

namespace Shape

/-- The shape of an expression. -/
def ofExpr : Expr → Except ShapeError Shape
  | .list es c => .ok (list ⟨es, c⟩)
  | .call f args _ c => (SelectValue.ofCall f args c).map select
  | .binary l op r c =>
      if op = "+" then
        match l, r with
        | .list es lc, .call f args _ rc =>
            (SelectValue.ofCall f args rc).map fun s => listPlusSelect ⟨es, lc⟩ s c
        | .list _ _, _ => .error .rightNotSelect
        | _, _ => .error .leftNotList
      else .error (.operator op)
  | .literal _ _ => .error (.unsupported .literal)
  | .string _ _ => .error (.unsupported .string)
  | .dict _ _ => .error (.unsupported .dict)
  | .keyValue _ _ _ => .error (.unsupported .keyValue)

/-- The shape of a value that may be absent. -/
def ofValue : Option Expr → Except ShapeError Shape
  | none => .ok absent
  | some e => ofExpr e

/-- The list of a shape. -/
def list? : Shape → Option ListValue
  | list l | listPlusSelect l _ _ => some l
  | absent | select _ => none

/-- The `select` of a shape. -/
def select? : Shape → Option SelectValue
  | select s | listPlusSelect _ s _ => some s
  | absent | list _ => none

/-- The comments of the operator, of which only a sum has one. -/
def opComments : Shape → Comments
  | listPlusSelect _ _ op => op
  | absent | list _ | select _ => {}

/-- The shape with these parts.  Without both operands there is no operator to
carry the comments. -/
def ofParts (l : Option ListValue) (s : Option SelectValue) (op : Comments) : Shape :=
  match l, s with
  | none, none => absent
  | some l, none => list l
  | none, some s => select s
  | some l, some s => listPlusSelect l s op

/-- The value of a shape, built from fresh nodes. -/
def toExpr? : Shape → Option Expr
  | absent => none
  | list l => some l.toExpr
  | select s => some s.toExpr
  | listPlusSelect l s op => some (.binary l.toExpr "+" s.toExpr op)

/-! ## Parts of a shape -/

@[simp] theorem list?_ofParts (l : Option ListValue) (s : Option SelectValue) (op : Comments) :
    (ofParts l s op).list? = l := by
  cases l <;> cases s <;> rfl

@[simp] theorem select?_ofParts (l : Option ListValue) (s : Option SelectValue) (op : Comments) :
    (ofParts l s op).select? = s := by
  cases l <;> cases s <;> rfl

@[simp] theorem ofParts_parts (s : Shape) : ofParts s.list? s.select? s.opComments = s := by
  cases s <;> rfl

/-! ## The size of a shape -/

theorem sizeOf_ofCall {f : Expr} {args : List Expr} {c : Comments} {s : SelectValue}
    (h : SelectValue.ofCall f args c = .ok s) : sizeOf s < sizeOf (Expr.call f args false c) := by
  unfold SelectValue.ofCall at h
  split at h
  · split at h
    · split at h
      · cases h
        cases f <;> simp [Expr.comments] <;> omega
      · cases h
    · cases h
  · cases h

/-- The `select` of a shape is no larger than the value. -/
theorem sizeOf_select?_le {e : Option Expr} {s : Shape} (h : ofValue e = .ok s) :
    sizeOf s.select? ≤ sizeOf e := by
  cases e with
  | none =>
      cases h
      simp [select?]
  | some e =>
      simp only [ofValue] at h
      unfold ofExpr at h
      split at h
      · cases h
        simp [select?]
      · rename_i f args b c
        cases hc : SelectValue.ofCall f args c with
        | error => rw [hc] at h; cases h
        | ok p =>
            rw [hc] at h
            cases h
            have := sizeOf_ofCall hc
            simp [select?] at this ⊢
            omega
      · split at h
        · split at h
          · rename_i f args b rc
            cases hc : SelectValue.ofCall f args rc with
            | error => rw [hc] at h; cases h
            | ok p =>
                rw [hc] at h
                cases h
                have := sizeOf_ofCall hc
                simp [select?] at this ⊢
                omega
          · cases h
          · cases h
        · cases h
      all_goals cases h

end Shape

end BuildFix
