import BuildFix.Conventions
import BuildFix.Squash.Basic
import BuildFix.Tree.Rule
import BuildFix.Tree.File

/-!
# Folding legacy rules

A package used to have two libraries, a `go_library` and a `cgo_library` for the
files that use C.  Now the `go_library` holds both and says `cgo = True`.

A statement is a *legacy rule* when it is a `cgo_library` of the conventional
name and carries no keep directive.  Folding takes the first legacy rule of a
build file away and squashes it into the first `go_library` of the conventional
name, which keeps its place.  Without such a library a new one takes the place
of the legacy rule.  A library with a keep directive is left alone, and then the
legacy rule only goes away.

The attribute `library` tied the two together and is dropped.  An attribute that
cannot be squashed stays as the library has it.

Further rules of either kind are passed over, each with a warning.
-/

namespace BuildFix

/-- Replace the first element with a property. -/
def replaceFirst {α : Type} (p : α → Bool) (new : α) : List α → List α
  | [] => []
  | x :: xs => if p x then new :: xs else x :: replaceFirst p new xs

/-- A rule that was passed over. -/
structure Surplus where
  /-- The kind of the rule. -/
  kind : String
  /-- The conventional name. -/
  name : String
deriving DecidableEq, Repr

/-- What the warning about a surplus rule says. -/
def Surplus.message (s : Surplus) : String :=
  "when fixing existing file, multiple " ++ s.kind ++ " rules named " ++ Text.quoted s.name ++
    " found; keeping the first"

namespace Legacy

/-- The kind of a legacy rule. -/
def legacyKind : String := "cgo_library"

/-- The kind of the library. -/
def libraryKind : String := "go_library"

/-- The attributes that are squashed, in order. -/
def squashedAttrs : List String :=
  ["cdeps", "clinkopts", "copts", "data", "deps", "gc_goopts", "srcs"]

/-- Decide whether a rule is a legacy rule. -/
def isLegacy (cv : Conventions) (r : Rule) : Bool :=
  r.kind == legacyKind && r.name? == some cv.legacyName && !r.hasDirective cv.keepWord

/-- Decide whether a rule is a library of the conventional name. -/
def isLibrary (cv : Conventions) (r : Rule) : Bool :=
  r.kind == libraryKind && r.name? == some cv.libraryName

/-- Decide whether a statement is a legacy rule. -/
def isLegacyStmt (cv : Conventions) (e : Expr) : Bool := (Rule.ofExpr? e).any (isLegacy cv)

/-- Decide whether a statement is a library of the conventional name. -/
def isLibraryStmt (cv : Conventions) (e : Expr) : Bool := (Rule.ofExpr? e).any (isLibrary cv)

/-! ## The folded library -/

/-- The rule with an attribute of the legacy rule squashed into its own. -/
def squashAttr (legacy : Rule) (r : Rule) (key : String) : Rule :=
  match legacy.attr? key with
  | none => r
  | some value =>
      match squash (r.attr? key) (some value) with
      | .ok (some squashed) => r.setAttr key squashed
      | .ok none | .error _ => r

/-- A library for a package that had only the legacy rule. -/
def freshLibrary (cv : Conventions) (legacy : Rule) : Rule :=
  let r := (Rule.mk libraryKind {} [] false {}).setAttr "name" (.string cv.libraryName {})
  match legacy.attr? "visibility" with
  | some v => r.setAttr "visibility" v
  | none => r

/-- The library with a legacy rule folded into it. -/
def foldInto (legacy library : Rule) : Rule :=
  let r := { library with comments := library.comments ++ legacy.comments }
  let r := (r.eraseAttr "library").setAttr "cgo" (.literal "True" {})
  squashedAttrs.foldl (squashAttr legacy) r

/-! ## Build files -/

/-- The first rule with a property among the statements. -/
def firstRule? (p : Rule → Bool) (stmts : List Expr) : Option Rule :=
  stmts.findSome? fun e => (Rule.ofExpr? e).filter p

/-- The statements with the first legacy rule folded, if there is one. -/
def foldStmts (cv : Conventions) (stmts : List Expr) : Option (List Expr) :=
  (firstRule? (isLegacy cv) stmts).map fun legacy =>
    match firstRule? (isLibrary cv) stmts with
    | none =>
        replaceFirst (isLegacyStmt cv) (foldInto legacy (freshLibrary cv legacy)).toExpr stmts
    | some library =>
        let rest := stmts.eraseP (isLegacyStmt cv)
        if library.hasDirective cv.keepWord then rest
        else replaceFirst (isLibraryStmt cv) (foldInto legacy library).toExpr rest

/-- The build file with its first legacy rule folded, if there is one. -/
def fold (cv : Conventions) (f : File) : Option File :=
  (foldStmts cv f.stmts).map fun stmts => { f with stmts }

/-- The rules passed over, in order.  The two flags say whether the first legacy
rule and the first library are behind. -/
def surplusAmong (cv : Conventions) (legacy library : Bool) : List Expr → List Surplus
  | [] => []
  | e :: es =>
      if isLegacyStmt cv e then
        (if legacy then [⟨legacyKind, cv.legacyName⟩] else []) ++ surplusAmong cv true library es
      else if isLibraryStmt cv e then
        (if library then [⟨libraryKind, cv.libraryName⟩] else []) ++ surplusAmong cv legacy true es
      else surplusAmong cv legacy library es

/-- The rules of a build file that folding passes over. -/
def surplus (cv : Conventions) (f : File) : List Surplus := surplusAmong cv false false f.stmts

end Legacy

end BuildFix
