import BuildFix.Run
import BuildFix.Store.Basic

/-!
# Writing to the store

A directory is made with the directories above it, from the top down.  One that
is there already will do.  A file is written with the directories above it, and
takes the place of a file of its name.

An effect that is refused may have made directories before.
-/

namespace BuildFix

/-- A change that the store refused. -/
inductive WriteError where
  /-- The directory above a file could not be made. -/
  | parent (path : Path) (e : StoreError)
  /-- A file could not be written. -/
  | file (path : Path) (e : StoreError)
  /-- A directory could not be made. -/
  | dir (path : Path) (e : StoreError)
deriving DecidableEq, Repr

/-- What was to be done when the store refused. -/
def WriteError.context : WriteError → String
  | parent path _ => "create parent dir for " ++ path.text
  | file path _ => "write " ++ path.text
  | dir path _ => "create_dir_all " ++ path.text

/-- Why the store refused. -/
def WriteError.cause : WriteError → StoreError
  | parent _ e | file _ e | dir _ e => e

/-- What an error says. -/
def WriteError.message (e : WriteError) : String := e.context ++ ": " ++ e.cause.message

namespace Store

/-- The directory that holds what a path names last, and that last part.  The path
may name something new. -/
def place (s : Store) (segments : List String) (p : Path) : Except StoreError (Key × String) :=
  match segments.getLast? with
  | none => .error .taken
  | some last => do
      let key ← segments.dropLast.foldlM s.follow (s.start p)
      if s.isDirAt key then .ok (key, last) else .error .notDirectory

/-! ## Directories -/

/-- Make one directory. -/
def makeDir (s : Store) (p : Path) : Except StoreError Store := do
  checkPath p
  let segments := (p.segments.reverse.dropWhile (· = "")).reverse
  let (key, last) ← s.place segments p
  if last = "." || last = ".." || (s.get? (key ++ [last])).isSome then .error .taken
  else if nameLimit < last.utf8ByteSize then .error .tooLong
  else .ok (s.set (key ++ [last]) .dir)

/-- Make one directory, unless it is there. -/
def ensureDir (s : Store) (p : Path) : Except StoreError Store :=
  match s.makeDir p with
  | .ok s => .ok s
  | .error e => if s.isDir p then .ok s else .error e

/-- Make directories one after the other, up to the first that is refused. -/
def ensureDirs (s : Store) : List Path → Store × Option StoreError
  | [] => (s, none)
  | p :: ps =>
      match s.ensureDir p with
      | .ok s => ensureDirs s ps
      | .error e => (s, some e)

end Store

/-- The directories above what a path names, from the top down. -/
def Path.ancestors (p : Path) : List Path :=
  (List.range (p.components.length - 1)).map fun n => ofComponents (p.components.take (n + 1))

namespace Store

/-- Make the directory of a path and those above it.  None is made if the path is
refused as a whole. -/
def makeDirs (s : Store) (p : Path) : Store × Option StoreError :=
  if p.text = "" then (s, none)
  else match checkPath p with
    | .ok () => s.ensureDirs (p.ancestors ++ [p])
    | .error e => (s, some e)

/-! ## Files -/

/-- Write a file. -/
def writeFile (s : Store) (p : Path) (content : Content) : Except StoreError Store := do
  checkPath p
  let (key, last) ← s.place p.segments p
  if last = "" || last = "." || last = ".." || s.isDirAt (key ++ [last]) then .error .isDirectory
  else if nameLimit < last.utf8ByteSize then .error .tooLong
  else .ok (s.set (key ++ [last]) (.file content))

/-- Write a file with the directories above it. -/
def write (s : Store) (p : Path) (content : Content) : Store × Option WriteError :=
  let (s, refused) :=
    match p.parent? with
    | some dir => s.makeDirs dir
    | none => (s, none)
  match refused with
  | some e => (s, some (.parent p e))
  | none =>
      match s.writeFile p content with
      | .ok s => (s, none)
      | .error e => (s, some (.file p e))

/-! ## Effects -/

/-- Carry out an effect. -/
def apply (s : Store) : Effect → Store × Option WriteError
  | .write p text => s.write p (.text text)
  | .makeDir p =>
      let (s, refused) := s.makeDirs p
      (s, refused.map (.dir p))

example : ((({} : Store).write ⟨"a/b/c"⟩ (.text "x")).1.readText ⟨"a/./b//c"⟩).toOption =
    some "x" := by decide +kernel

end Store

end BuildFix
