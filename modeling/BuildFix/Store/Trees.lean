import BuildFix.Run
import BuildFix.Store.Basic
import BuildFix.Tree.Decode

/-!
# Finding trees

The inputs of a run are files and directories.  A file is taken as it is.  Below
a directory every file whose name ends in `.json` is taken, at any depth.  The
directories on the way have to be listed, so their paths must not be too long.

A directory may be excluded, so that a run does not take in what an earlier one
wrote.  Whatever is reached through a directory under the excluded one is left
out.  Canonical paths are compared.  The inputs themselves are not asked about.

Trees are kept by path.  Two paths with the same components are one tree, which
keeps the spelling it was found under first and the place below the input it was
found under last.
-/

namespace BuildFix

namespace Store

/-- Decide whether a directory is under the excluded one.  Without a canonical path
it is not. -/
def isExcluded (excluded : Option Key) (dir : Key) : Bool :=
  excluded.any (·.isPrefixOf dir) && (checkLength (pathOf dir)).isOk

/-- Decide whether the walk from the directory `dir` enters the directory that the
names of a list lead to. -/
def enters (s : Store) (excluded : Option Key) (dir : Key) : List String → Bool
  | [] => true
  | name :: names =>
      s.isDirAt (dir ++ [name]) && !isExcluded excluded (dir ++ [name]) &&
        enters s excluded (dir ++ [name]) names

/-- Decide whether the walk from the directory `dir` comes to a tree by the names
of a list. -/
def reaches (s : Store) (excluded : Option Key) (dir : Key) : List String → Bool
  | [] => false
  | [name] => Path.extension? name == some "json" && s.isFileAt (dir ++ [name])
  | name :: names =>
      s.isDirAt (dir ++ [name]) && !isExcluded excluded (dir ++ [name]) &&
        reaches s excluded (dir ++ [name]) names

/-- The names of a key below a directory. -/
def namesBelow (dir key : Key) : List String :=
  if dir.isPrefixOf key then key.drop dir.length else []

/-- The directories that a walk enters, each as the names that lead to it. -/
def dirsBelow (s : Store) (excluded : Option Key) (dir : Key) : List (List String) :=
  (s.nodes.map fun n => namesBelow dir n.1).filter (s.enters excluded dir)

/-- The trees below a directory, each as the names that lead to it. -/
def treesBelow (s : Store) (excluded : Option Key) (dir : Key) : List (List String) :=
  (s.nodes.map fun n => namesBelow dir n.1).filter (s.reaches excluded dir)

end Store

/-! ## Inputs -/

/-- A tree that was found. -/
structure FoundTree where
  /-- Its path. -/
  path : Path
  /-- Its place below the input it was found under. -/
  relPath : Path
deriving DecidableEq, Repr

/-- Add a tree to a list sorted by path. -/
def FoundTree.insert (t : FoundTree) : List FoundTree → List FoundTree
  | [] => [t]
  | u :: us =>
      if u.path.components = t.path.components then { u with relPath := t.relPath } :: us
      else if u.path.le t.path then u :: insert t us
      else t :: u :: us

/-- The path of what is reached from a directory by names. -/
def Path.below (dir : Path) (names : List String) : Path :=
  names.foldl (fun p name => p.join ⟨name⟩) dir

/-- Why trees could not be found. -/
inductive InputError where
  /-- An input could not be looked at. -/
  | input (path : Path) (e : StoreError)
  /-- A directory below an input could not be listed. -/
  | listing (dir : Path) (e : StoreError)
deriving DecidableEq, Repr

namespace InputError

/-- Why the store refused. -/
def cause : InputError → StoreError
  | input _ e | listing _ e => e

/-- What an error says, with the words of the store for its cause. -/
def messageWith (cause : String) : InputError → String
  | input path _ => "read input " ++ path.text ++ ": " ++ cause
  | listing _ _ => cause

/-- What an error says. -/
def message (e : InputError) : String := e.messageWith e.cause.message

end InputError

namespace Store

/-- The trees that an input adds to those found before. -/
def findInput (s : Store) (excluded : Option Key) (found : List FoundTree) (input : Path) :
    Except InputError (List FoundTree) :=
  match s.resolve input with
  | .error e => .error (.input input e)
  | .ok key =>
      if s.isDirAt key then do
        (s.dirsBelow excluded key).forM fun names =>
          (checkLength (input.below names)).mapError (.listing (input.below names))
        return (s.treesBelow excluded key).foldl (fun found names =>
          FoundTree.insert ⟨input.below names, ⟨"/".intercalate names⟩⟩ found) found
      else
        let relPath := match input.fileName? with
          | some name => ⟨name⟩
          | none => input
        .ok (FoundTree.insert ⟨input, relPath⟩ found)

/-- The trees of all inputs, sorted by path. -/
def find (s : Store) (inputs : List Path) (exclude : Option Path) :
    Except InputError (List FoundTree) :=
  let excluded := exclude.bind fun p => (s.canonicalKey p).toOption
  inputs.foldlM (s.findInput excluded) []

/-- The tree of a file. -/
def treeAt (s : Store) (p : Path) : Except LoadError File :=
  match s.readText p with
  | .error e => .error (.io e.message)
  | .ok text => (File.parse text).mapError fun e => .json e.message

/-- The trees of all inputs, read. -/
def load (s : Store) (inputs : List Path) (exclude : Option Path) :
    Except InputError (List SourceTree) :=
  (s.find inputs exclude).map fun found =>
    found.map fun t => ⟨t.path, t.relPath, s.treeAt t.path⟩

end Store

end BuildFix
