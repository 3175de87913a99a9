import BuildFix.Conventions
import BuildFix.Text.Blank
import BuildFix.Toml.Reader

/-!
# The workspace file

A workspace may hold a TOML file that sets its conventions.  The table `names`
has the names and the keep directive, the array `loads` has the files whose
loads are managed, and `fixers.disable` has the keys of fixers that never run.
All of it may be missing, and other keys are passed over, but numbers in their
values have to be held.

A table of fixed keys may also be written as an array of its values, where what
follows the last one is not looked at.  In the place of a table a date or a time is
one without keys.

The file is merged with what the command line disables.  A name may not be
blank, and the files have to make a table.
-/

namespace BuildFix

open Toml (Value)

/-- What a workspace file sets. -/
structure WorkspaceFile where
  /-- The name of the library of a package. -/
  libraryName : Option String := none
  /-- The name that the legacy half of a package had. -/
  legacyName : Option String := none
  /-- The directive that protects a rule. -/
  keepWord : Option String := none
  /-- The files whose loads are managed. -/
  loads : List SymbolFile := []
  /-- The keys of fixers that never run. -/
  disabled : List String := []
deriving DecidableEq, Repr, Inhabited

/-! ## Reading -/

namespace Toml.Value

/-- The text of a value. -/
def text? : Value → Option String
  | text s => some s
  | _ => none

/-- The texts of an array. -/
def texts? : Value → Option (List String)
  | array items => items.mapM text?
  | _ => none

/-- A value in the place of a table with these keys, as the values of the keys by
their number. -/
def fields? (keys : List String) : Value → Option (Nat → Option Value)
  | table members =>
      if membersHeld (members.filter fun m => !keys.contains m.1) then
        some fun n => keys[n]?.bind fun key => members.lookup key
      else none
  | array items => some fun n => items[n]?
  | scalar .moment => some fun _ => none
  | _ => none

/-- A file whose loads are managed. -/
def symbolFile? (v : Value) : Option SymbolFile := do
  let field ← v.fields? ["file", "symbols"]
  let label ← (field 0).bind text?
  let symbols ← (field 1).bind texts?
  some ⟨label, symbols⟩

/-- The files of an array. -/
def symbolFiles? : Value → Option (List SymbolFile)
  | array items => items.mapM symbolFile?
  | _ => none

end Toml.Value

namespace WorkspaceFile

/-- The workspace file with the names of a table. -/
def names? (v : Value) : Option WorkspaceFile := do
  let field ← v.fields? ["library", "cgo_library", "keep_directive"]
  let libraryName ← (field 0).mapM Value.text?
  let legacyName ← (field 1).mapM Value.text?
  let keepWord ← (field 2).mapM Value.text?
  some { libraryName, legacyName, keepWord }

/-- The keys of fixers that a table disables. -/
def disabled? (v : Value) : Option (List String) := do
  let field ← v.fields? ["disable"]
  let keys ← (field 0).mapM Value.texts?
  some (keys.getD [])

/-- The workspace file that a document spells. -/
def ofDocument? (v : Value) : Option WorkspaceFile := do
  let field ← v.fields? ["names", "loads", "fixers"]
  let names ← (field 0).mapM names?
  let loads ← (field 1).mapM Value.symbolFiles?
  let disabled ← (field 2).mapM disabled?
  some { names.getD {} with loads := loads.getD [], disabled := disabled.getD [] }

/-- The workspace file that a text spells. -/
def parse? (text : String) : Option WorkspaceFile := (Toml.parse? text).bind ofDocument?

end WorkspaceFile

/-! ## Merging -/

/-- Why a workspace file is refused. -/
inductive MergeError where
  /-- A name is blank. -/
  | blankName (field : String)
  /-- The files make no table. -/
  | table (e : TableError)
deriving DecidableEq, Repr

/-- What an error says. -/
def MergeError.message : MergeError → String
  | blankName field => "names." ++ field ++ " must not be empty"
  | table e => "invalid [[loads]] table: " ++ e.message

/-- The conventions of a workspace and the fixers it disables. -/
structure Merged where
  /-- The conventions. -/
  conventions : Conventions
  /-- The keys of the disabled fixers. -/
  disabled : List String

namespace WorkspaceFile

/-- A name that is set and not blank, or else the usual one. -/
def nameOr (field usual : String) : Option String → Except MergeError String
  | some name => if Text.isBlankText name then .error (.blankName field) else .ok name
  | none => .ok usual

/-- The table of the files, or the usual one if there are none. -/
def tableOf (loads : List SymbolFile) : Except MergeError SymbolTable :=
  if loads.isEmpty then .ok .standard else (SymbolTable.ofFiles loads).mapError .table

/-- A list with the keys that it does not have, each once. -/
def addKeys (keys : List String) (more : List String) : List String :=
  more.foldl (fun keys key => if keys.contains key then keys else keys ++ [key]) keys

/-- The conventions that a workspace file sets, and the keys that it or the
command line disables. -/
def merge (w : WorkspaceFile) (disabled : List String) : Except MergeError Merged := do
  let usual : Conventions := {}
  let libraryName ← nameOr "library" usual.libraryName w.libraryName
  let legacyName ← nameOr "cgo_library" usual.legacyName w.legacyName
  let keepWord ← nameOr "keep_directive" usual.keepWord w.keepWord
  let symbols ← tableOf w.loads
  return ⟨{ libraryName, legacyName, keepWord, symbols }, addKeys w.disabled disabled⟩

end WorkspaceFile

end BuildFix
