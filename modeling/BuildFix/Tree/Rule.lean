import BuildFix.Tree.Expr

/-!
# Rules

A rule is a call whose callee is a bare identifier, the *kind* of the rule.
`Rule.ofExpr?` takes such a call apart and `Rule.toExpr` puts it together
again, and nothing is lost on the way (`Rule.ofExpr?_eq_some_iff`).

The keyword arguments of a rule are its attributes.  If a name is repeated, the
first argument of that name is the attribute.  Other arguments are passed over
and stay where they are.
-/

namespace BuildFix

/-- A call of a bare identifier. -/
structure Rule where
  /-- The identifier called. -/
  kind : String
  /-- The comments of the identifier. -/
  kindComments : Comments := {}
  /-- All arguments, in order. -/
  args : List Expr := []
  /-- A compact call is printed on one line. -/
  forceCompact : Bool := false
  /-- The comments of the call. -/
  comments : Comments := {}
deriving DecidableEq, Repr, Inhabited

namespace Rule

/-! ## Rules as expressions -/

/-- The rule an expression is. -/
def ofExpr? : Expr → Option Rule
  | .call (.literal kind kc) args compact c => some ⟨kind, kc, args, compact, c⟩
  | _ => none

/-- The call a rule stands for. -/
def toExpr (r : Rule) : Expr :=
  .call (.literal r.kind r.kindComments) r.args r.forceCompact r.comments

@[simp] theorem ofExpr?_toExpr (r : Rule) : ofExpr? r.toExpr = some r := rfl

theorem ofExpr?_eq_some_iff {e : Expr} {r : Rule} : ofExpr? e = some r ↔ e = r.toExpr := by
  constructor
  · intro h
    unfold ofExpr? at h
    split at h
    · cases h
      rfl
    · cases h
  · rintro rfl
    rfl

theorem callName?_toExpr (r : Rule) : r.toExpr.callName? = some r.kind := rfl

theorem ofExpr?_map_kind (e : Expr) : (ofExpr? e).map kind = e.callName? := by
  cases e with
  | call f args b c => cases f <;> rfl
  | _ => rfl

/-! ## Attributes -/

/-- The attributes, in the order of the arguments. -/
def attrs (r : Rule) : List (String × Expr) := r.args.filterMap Expr.keyword?

/-- The value of the attribute `key`. -/
def attr? (r : Rule) (key : String) : Option Expr := r.attrs.lookup key

/-- The value of the attribute `name`, if it is a string. -/
def name? (r : Rule) : Option String := (r.attr? "name").bind Expr.string?

/-- Decide whether the call itself carries the directive `word`. -/
def hasDirective (r : Rule) (word : String) : Bool := r.comments.hasDirective word

/-- Decide whether an argument gives the attribute `key`. -/
def isArgOf (key : String) (arg : Expr) : Bool := arg.keyword?.any (·.1 == key)

/-- A keyword argument with another value. -/
def setValue (value : Expr) : Expr → Expr
  | .keyValue k _ c => .keyValue k value c
  | e => e

/-- Give the first argument of the attribute `key` another value, or add such an
argument at the end. -/
def setArg (key : String) (value : Expr) : List Expr → List Expr
  | [] => [.keyword key value]
  | arg :: args =>
      if isArgOf key arg then setValue value arg :: args else arg :: setArg key value args

/-- The rule with the attribute `key` set to `value`. -/
def setAttr (r : Rule) (key : String) (value : Expr) : Rule :=
  { r with args := setArg key value r.args }

/-- The rule without the argument that gives the attribute `key`. -/
def eraseAttr (r : Rule) (key : String) : Rule :=
  { r with args := r.args.eraseP (isArgOf key) }

/-- The value of an argument that has a key. -/
def argValue? : Expr → Option Expr
  | .keyValue _ value _ => some value
  | _ => none

/-- The value of the attribute `key`, and the rule without the argument that gives
it. -/
def takeAttr (r : Rule) (key : String) : Option Expr × Rule :=
  match r.args.findIdx? (isArgOf key) with
  | none => (none, r)
  | some i => (r.args[i]?.bind argValue?, { r with args := r.args.eraseIdx i })

/-! ## Lemmas on attributes -/

theorem keyword?_setValue {key : String} {arg value : Expr} (h : isArgOf key arg = true) :
    (setValue value arg).keyword? = some (key, value) := by
  cases arg with
  | keyValue k v c => cases k <;> simp_all [isArgOf, setValue, Expr.keyword?, Expr.literal?]
  | _ => simp [isArgOf, Expr.keyword?] at h

/-- An attribute that was set is read back. -/
theorem attr?_setAttr_self (r : Rule) (key : String) (value : Expr) :
    (r.setAttr key value).attr? key = some value := by
  simp only [attr?, attrs, setAttr]
  induction r.args with
  | nil => simp [setArg]
  | cons arg args ih =>
      by_cases h : isArgOf key arg = true
      · simp [setArg, h, keyword?_setValue h]
      · rw [setArg, if_neg h]
        cases hk : arg.keyword? with
        | none => simpa [List.filterMap_cons, hk] using ih
        | some kv =>
            obtain ⟨k, v⟩ := kv
            have hne : (key == k) = false := by
              simp only [isArgOf, hk, Option.any_some, beq_iff_eq] at h
              simpa using fun e => h e.symm
            simpa [List.filterMap_cons, hk, List.lookup_cons, hne] using ih

example : ((Rule.mk "go_library" {} [] false {}).setAttr "name" (.string "lib" {})).name? =
    some "lib" := by decide

end Rule

end BuildFix
