import BuildFix.Store.Basic
import BuildFix.WorkspaceFile

/-!
# Finding the workspace file

The workspace file is the one that is asked for, which has to be there, or the
one of the usual name in a directory, if there is one.  Without a file nothing is
set.
-/

namespace BuildFix

/-- A workspace file that could not be loaded. -/
inductive SettingsError where
  /-- The file could not be read. -/
  | unreadable (path : Path) (e : StoreError)
  /-- The text of the file does not fit. -/
  | unparsable (path : Path)
deriving DecidableEq, Repr

/-- What was to be done when loading failed. -/
def SettingsError.context : SettingsError → String
  | unreadable path _ => "read config file " ++ path.text
  | unparsable path => "parse config file " ++ path.text

/-- What an error says. -/
def SettingsError.message (e : SettingsError) : String :=
  e.context ++ ": " ++ match e with
    | unreadable _ cause => cause.message
    | unparsable _ => "invalid TOML"

namespace WorkspaceFile

/-- The usual name of a workspace file. -/
def usualName : String := "bzlfix.toml"

/-- The workspace file of the usual name in a directory. -/
def find? (s : Store) (dir : Path) : Option Path :=
  let path := dir.join ⟨usualName⟩
  if s.has path then some path else none

/-- Load a workspace file. -/
def read (s : Store) (path : Path) : Except SettingsError WorkspaceFile :=
  match s.readText path with
  | .error e => .error (.unreadable path e)
  | .ok text =>
      match parse? text with
      | some w => .ok w
      | none => .error (.unparsable path)

/-- Load the workspace file that is asked for, or the one of a directory. -/
def load (s : Store) (asked : Option Path) (dir : Path) : Except SettingsError WorkspaceFile :=
  match asked.or (find? s dir) with
  | some path => read s path
  | none => .ok {}

end WorkspaceFile

end BuildFix
