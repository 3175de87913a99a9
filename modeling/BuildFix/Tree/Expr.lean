import BuildFix.Tree.Comment

/-!
# Expressions

The syntax tree of a build file.  Every node owns its comments, which stand
last in each constructor.  `Expr.comments` reads them whatever the node is, and
`Expr.setComments` replaces them.

A keyword argument `name = value` is a `keyValue` whose key is a `literal`, and
an entry `"key": value` of a dict is a `keyValue` whose key is any other
expression, most often a `string`.

Expressions nest through lists, so equality is decided by a Boolean test and
`Expr.same_iff`.
-/

namespace BuildFix

/-- A node of a build file. -/
inductive Expr where
  /-- An identifier, a number, `True` or `False`. -/
  | literal (token : String) (comments : Comments)
  /-- A string. -/
  | string (value : String) (comments : Comments)
  /-- A list `[a, b]`. -/
  | list (elements : List Expr) (comments : Comments)
  /-- A dict. -/
  | dict (entries : List Expr) (comments : Comments)
  /-- A keyword argument or an entry of a dict. -/
  | keyValue (key value : Expr) (comments : Comments)
  /-- Two operands joined by an operator. -/
  | binary (left : Expr) (op : String) (right : Expr) (comments : Comments)
  /-- A call.  A compact call is printed on one line. -/
  | call (callee : Expr) (args : List Expr) (forceCompact : Bool) (comments : Comments)
deriving Repr, Inhabited

namespace Expr

/-! ## Comments of a node -/

/-- The comments a node owns. -/
def comments : Expr → Comments
  | literal _ c | string _ c | list _ c | dict _ c | keyValue _ _ c | binary _ _ _ c
  | call _ _ _ c => c

/-- The node with other comments. -/
def setComments (c : Comments) : Expr → Expr
  | literal t _ => literal t c
  | string v _ => string v c
  | list es _ => list es c
  | dict es _ => dict es c
  | keyValue k v _ => keyValue k v c
  | binary l op r _ => binary l op r c
  | call f args compact _ => call f args compact c

/-- The node with more comments after its own. -/
def addComments (e : Expr) (c : Comments) : Expr := e.setComments (e.comments ++ c)

@[simp] theorem comments_setComments (e : Expr) (c : Comments) :
    (e.setComments c).comments = c := by
  cases e <;> rfl

@[simp] theorem setComments_comments (e : Expr) : e.setComments e.comments = e := by
  cases e <;> rfl

@[simp] theorem setComments_setComments (e : Expr) (c d : Comments) :
    (e.setComments c).setComments d = e.setComments d := by
  cases e <;> rfl

@[simp] theorem comments_addComments (e : Expr) (c : Comments) :
    (e.addComments c).comments = e.comments ++ c := by
  simp [addComments]

/-! ## Views -/

/-- The token of a literal. -/
def literal? : Expr → Option String
  | literal t _ => some t
  | _ => none

/-- The value of a string. -/
def string? : Expr → Option String
  | string v _ => some v
  | _ => none

/-- The elements of a list. -/
def list? : Expr → Option (List Expr)
  | list es _ => some es
  | _ => none

/-- The name of the function called, if the callee is a bare identifier. -/
def callName? : Expr → Option String
  | call f _ _ _ => f.literal?
  | _ => none

/-- The arguments of a call. -/
def callArgs? : Expr → Option (List Expr)
  | call _ args _ _ => some args
  | _ => none

/-- The name and the value of a keyword argument. -/
def keyword? : Expr → Option (String × Expr)
  | keyValue k v _ => k.literal?.map fun name => (name, v)
  | _ => none

/-- The keyword argument `name = value`. -/
def keyword (name : String) (value : Expr) : Expr := keyValue (literal name {}) value {}

@[simp] theorem keyword?_keyword (name : String) (value : Expr) :
    (keyword name value).keyword? = some (name, value) := rfl

@[simp] theorem string?_setComments (e : Expr) (c : Comments) :
    (e.setComments c).string? = e.string? := by
  cases e <;> rfl

@[simp] theorem string?_addComments (e : Expr) (c : Comments) :
    (e.addComments c).string? = e.string? := by
  simp [addComments]

/-! ## Equality -/

mutual

/-- Decide whether two expressions are the same, comments included. -/
def same : Expr → Expr → Bool
  | literal t c, literal t' c' => t == t' && c == c'
  | string v c, string v' c' => v == v' && c == c'
  | list es c, list es' c' => sameAll es es' && c == c'
  | dict es c, dict es' c' => sameAll es es' && c == c'
  | keyValue k v c, keyValue k' v' c' => same k k' && same v v' && c == c'
  | binary l o r c, binary l' o' r' c' => same l l' && o == o' && same r r' && c == c'
  | call f as b c, call f' as' b' c' => same f f' && sameAll as as' && b == b' && c == c'
  | _, _ => false

/-- Decide whether two lists of expressions are the same. -/
def sameAll : List Expr → List Expr → Bool
  | [], [] => true
  | e :: es, e' :: es' => same e e' && sameAll es es'
  | _, _ => false

end

mutual

theorem same_iff : ∀ a b : Expr, same a b = true ↔ a = b
  | literal .., b => by cases b <;> simp [same]
  | string .., b => by cases b <;> simp [same]
  | list es _, b => by cases b <;> simp [same, sameAll_iff es]
  | dict es _, b => by cases b <;> simp [same, sameAll_iff es]
  | keyValue k v _, b => by cases b <;> simp [same, same_iff k, same_iff v, and_assoc]
  | binary l _ r _, b => by cases b <;> simp [same, same_iff l, same_iff r, and_assoc]
  | call f as _ _, b => by cases b <;> simp [same, same_iff f, sameAll_iff as, and_assoc]

theorem sameAll_iff : ∀ as bs : List Expr, sameAll as bs = true ↔ as = bs
  | [], bs => by cases bs <;> simp [sameAll]
  | a :: as, bs => by cases bs <;> simp [sameAll, same_iff a, sameAll_iff as]

end

instance : DecidableEq Expr := fun a b => decidable_of_iff _ (same_iff a b)

example : list [string "a.go" {}] {} ≠ list [string "b.go" {}] {} := by decide

end Expr

end BuildFix
