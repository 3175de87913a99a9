import BuildFix.Loads.SymbolTable
import BuildFix.Tree.File

/-!
# Reconciling loads

A `load` statement is *managed* when its label is that of a file of the table.
Reconciling makes the managed loads of a build file agree with the symbols the
file calls.

A symbol of the table is *used* when a statement calls it and no other load
binds it.  The first load of a file of the table gets the used symbols of that
file.  Later loads of the same file get none.  A file that has used symbols and
no load gets a new one at the top.

In a load the symbols of the table are those wanted, and all else is kept behind
them in its order.  Kept symbols and new ones are sorted together.  A load left
with its label alone is deleted.
-/

namespace BuildFix

/-! ## Load statements -/

/-- The label of a `load` statement and the arguments behind it. -/
def load? : Expr → Option (String × List Expr)
  | .call (.literal "load" _) (.string label _ :: rest) _ _ => some (label, rest)
  | _ => none

/-- The name that an argument of a load binds. -/
def boundName? (arg : Expr) : Option String := arg.string?.or (arg.keyword?.map Prod.fst)

/-- What becomes of a load. -/
inductive LoadRevision where
  /-- It stays as it is. -/
  | kept
  /-- Another load takes its place. -/
  | replaced (load : Expr)
  /-- It goes away. -/
  | deleted
deriving DecidableEq, Repr

/-- The statements that take the place of a load. -/
def LoadRevision.apply (stmt : Expr) : LoadRevision → List Expr
  | kept => [stmt]
  | replaced load => [load]
  | deleted => []

/-- Decide whether one argument may stand before another in the order of their
values. -/
def valueLE (a b : Expr) : Bool := (a.string?.getD "") ≤ (b.string?.getD "")

namespace SymbolTable

/-- Decide whether an argument is a symbol of the table. -/
def isManagedArg (t : SymbolTable) (arg : Expr) : Bool := arg.string?.any t.knows

/-- Decide whether an argument is a symbol of the table that is wanted. -/
def isWantedArg (t : SymbolTable) (wanted : List String) (arg : Expr) : Bool :=
  arg.string?.any fun s => t.knows s && wanted.contains s

/-- What becomes of a call with its first argument as label, where the set
`wanted` holds the symbols it should load. -/
def reviseLoad (t : SymbolTable) (wanted : List String) : Expr → LoadRevision
  | .call callee (label :: rest) compact c =>
      let present := rest.filter (t.isWantedArg wanted)
      let others := rest.filter fun arg => !t.isManagedArg arg
      let stale := rest.filter fun arg => t.isManagedArg arg && !t.isWantedArg wanted arg
      let missing := wanted.filter fun s => !present.any (·.string? == some s)
      if missing.isEmpty && stale.isEmpty then
        if rest.isEmpty then .deleted else .kept
      else
        let added := missing.map fun s => Expr.string s {}
        let symbols := (present ++ added).mergeSort valueLE
        if symbols.isEmpty && others.isEmpty then .deleted
        else .replaced (.call callee (label :: (symbols ++ others)) compact c)
  | _ => .kept

/-! ## The symbols a file uses -/

/-- The names bound by the loads that are not managed. -/
def foreignNames (t : SymbolTable) (f : File) : List String :=
  f.stmts.flatMap fun stmt =>
    match load? stmt with
    | some (label, rest) => if t.hasFile label then [] else rest.filterMap boundName?
    | none => []

/-- The set of symbols of `file` that a build file uses. -/
def used (t : SymbolTable) (f : File) (file : SymbolFile) : List String :=
  file.symbols.filter fun s =>
    f.stmts.any (·.callName? == some s) && !(t.foreignNames f).contains s

/-! ## Statements -/

/-- The file of the table that a statement loads. -/
def managed? (t : SymbolTable) (stmt : Expr) : Option SymbolFile :=
  (load? stmt).bind fun l => t.files.find? (·.label == l.1)

/-- What becomes of each statement, where the files with the labels `seen` have
their first load behind them. -/
def reviseStmts (t : SymbolTable) (used : SymbolFile → List String) (seen : List String) :
    List Expr → List (Expr × LoadRevision)
  | [] => []
  | stmt :: stmts =>
      match t.managed? stmt with
      | none => (stmt, .kept) :: reviseStmts t used seen stmts
      | some file =>
          let wanted := if seen.contains file.label then [] else used file
          (stmt, t.reviseLoad wanted stmt) :: reviseStmts t used (file.label :: seen) stmts

/-- The load of a file that had none. -/
def freshLoad (file : SymbolFile) (symbols : List String) : Expr :=
  .call (.literal "load" {}) (.string file.label {} :: symbols.map fun s => .string s {}) true {}

/-- The loads to add, for the files that are used and not loaded. -/
def freshLoads (t : SymbolTable) (f : File) : List Expr :=
  (t.files.filter fun file =>
    !(t.used f file).isEmpty && !f.stmts.any fun stmt => (load? stmt).any (·.1 == file.label)).map
    fun file => freshLoad file (t.used f file)

/-- The build file with its loads reconciled, unless they are already. -/
def reconcile (t : SymbolTable) (f : File) : Option File :=
  let added := t.freshLoads f
  let fixes := t.reviseStmts (t.used f) [] f.stmts
  if added.isEmpty && fixes.all fun s => s.2 == .kept then none
  else some { f with stmts := added ++ fixes.flatMap fun s => s.2.apply s.1 }

end SymbolTable

example : SymbolTable.standard.reconcile ⟨"", [.call (.literal "go_test" {}) [] false {}]⟩ =
    some ⟨"", [.call (.literal "load" {}) [.string "@io_bazel_rules_go//go:def.bzl" {},
      .string "go_test" {}] true {}, .call (.literal "go_test" {}) [] false {}]⟩ := by
  decide +kernel

end BuildFix
