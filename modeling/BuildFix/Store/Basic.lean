import BuildFix.Path

/-!
# The file store

The files and directories that a program sees, as a value.  A *key* is the list
of names from the root to a file or a directory.  The root is a directory, and
so is the working directory, where paths that do not start at the root begin.

A path is resolved name by name.  Everything before the end of a path, and
before a slash or a `.` at its end, has to be a directory.  There are no links,
so the key of a file is its canonical name.

Names and paths have a greatest length, counted in bytes, and no NUL character.  A
path that breaks this is refused as a whole, and a name where it is looked up.  To
find the canonical name of a file, a path is followed from one canonical name to the
next, so there it is those names that may not be too long.
-/

namespace BuildFix

/-- The names from the root to a file or a directory. -/
abbrev Key := List String

/-- What a file holds. -/
inductive Content where
  /-- A text. -/
  | text (s : String)
  /-- Bytes that are no text. -/
  | binary (bytes : List Nat)
deriving DecidableEq, Repr, Inhabited

/-- What a file with these bytes holds. -/
def Content.ofBytes (bytes : List Nat) : Content :=
  match String.fromUTF8? ⟨(bytes.map UInt8.ofNat).toArray⟩ with
  | some s => .text s
  | none => .binary bytes

/-- What a key leads to. -/
inductive Node where
  /-- A directory. -/
  | dir
  /-- A file. -/
  | file (content : Content)
deriving DecidableEq, Repr, Inhabited

/-- Why the store refuses something. -/
inductive StoreError where
  /-- There is no such file or directory. -/
  | notFound
  /-- A file stands where a directory has to be. -/
  | notDirectory
  /-- A directory stands where a file has to be. -/
  | isDirectory
  /-- There is something already. -/
  | taken
  /-- A file holds no text. -/
  | notText
  /-- A name or a path is too long. -/
  | tooLong
  /-- A path has a NUL character. -/
  | nul
deriving DecidableEq, Repr

/-- What an error says. -/
def StoreError.message : StoreError → String
  | notFound => "no such file or directory"
  | notDirectory => "not a directory"
  | isDirectory => "is a directory"
  | taken => "file exists"
  | notText => "stream did not contain valid UTF-8"
  | tooLong => "file name too long"
  | nul => "file name contains a NUL character"

/-- The files and directories below a root. -/
structure Store where
  /-- The working directory. -/
  cwd : Key := []
  /-- What the keys lead to.  The first entry of a key counts. -/
  nodes : List (Key × Node) := []
deriving DecidableEq, Repr, Inhabited

namespace Store

/-! ## Keys -/

/-- What a key leads to. -/
def get? (s : Store) (key : Key) : Option Node :=
  if key = [] then some .dir else s.nodes.lookup key

/-- The store where a key leads to a node. -/
def set (s : Store) (key : Key) (node : Node) : Store :=
  { s with nodes := (key, node) :: s.nodes.filter fun n => n.1 != key }

/-- Decide whether a key leads to a directory. -/
def isDirAt (s : Store) (key : Key) : Bool := s.get? key == some .dir

/-- Decide whether a key leads to a file. -/
def isFileAt (s : Store) (key : Key) : Bool :=
  match s.get? key with
  | some (.file _) => true
  | _ => false

@[simp] theorem get?_root (s : Store) : s.get? [] = some .dir := rfl

theorem lookup_filter_ne {α : Type} (key other : Key) (h : other ≠ key) (ns : List (Key × α)) :
    (ns.filter fun n => n.1 != key).lookup other = ns.lookup other := by
  induction ns with
  | nil => rfl
  | cons n ns ih =>
      obtain ⟨k, a⟩ := n
      by_cases hk : k = key
      · subst hk
        have hf : (other == k) = false := by simpa using h
        simp [List.lookup_cons, hf, ih]
      · simp only [List.filter_cons, bne_iff_ne, ne_eq, hk, not_false_eq_true, if_true,
          List.lookup_cons, ih]

/-- A node that was set is found, and the others are as they were. -/
theorem get?_set (s : Store) (key other : Key) (node : Node) (h : key ≠ []) :
    (s.set key node).get? other = if other = key then some node else s.get? other := by
  unfold get? set
  by_cases ho : other = key
  · subst ho
    simp [h]
  · have hf : (other == key) = false := by simpa using ho
    simp [ho, List.lookup_cons, hf, lookup_filter_ne key other ho]

/-! ## Paths -/

/-- The most bytes that a name may have. -/
def nameLimit : Nat := 255

/-- The most bytes that a path may have. -/
def pathLimit : Nat := 4095

/-- The canonical path of a key. -/
def pathOf (key : Key) : Path := ⟨"/" ++ "/".intercalate key⟩

/-- Refuse a text that is no path. -/
def checkText (p : Path) : Except StoreError Unit :=
  if p.text = "" then .error .notFound
  else if p.text.toList.contains '\x00' then .error .nul
  else .ok ()

/-- Refuse a path that is too long. -/
def checkLength (p : Path) : Except StoreError Unit :=
  if pathLimit < p.text.utf8ByteSize then .error .tooLong else .ok ()

/-- Refuse a path that cannot name anything. -/
def checkPath (p : Path) : Except StoreError Unit := do
  checkText p
  checkLength p

/-- The key where a path begins. -/
def start (s : Store) (p : Path) : Key := if p.isAbsolute then [] else s.cwd

/-- One part of a path further. -/
def follow (s : Store) (key : Key) (segment : String) : Except StoreError Key :=
  if s.isDirAt key then
    if segment = "" || segment = "." then .ok key
    else if segment = ".." then .ok key.dropLast
    else if nameLimit < segment.utf8ByteSize then .error .tooLong
    else if (s.get? (key ++ [segment])).isSome then .ok (key ++ [segment])
    else .error .notFound
  else .error .notDirectory

/-- The key of a path that names something. -/
def resolve (s : Store) (p : Path) : Except StoreError Key := do
  checkPath p
  p.segments.foldlM s.follow (s.start p)

/-- The key of a path that names something, found from one canonical path to the
next. -/
def canonicalKey (s : Store) (p : Path) : Except StoreError Key := do
  checkText p
  p.segments.foldlM (fun key segment => do
    let key ← s.follow key segment
    checkLength (pathOf key)
    return key) (s.start p)

/-- Decide whether a path names something. -/
def has (s : Store) (p : Path) : Bool := (s.resolve p).isOk

/-- Decide whether a path names a directory. -/
def isDir (s : Store) (p : Path) : Bool :=
  match s.resolve p with
  | .ok key => s.isDirAt key
  | .error _ => false

/-- The text of the file that a path names. -/
def readText (s : Store) (p : Path) : Except StoreError String := do
  let key ← s.resolve p
  match s.get? key with
  | some (.file (.text t)) => .ok t
  | some (.file (.binary _)) => .error .notText
  | some .dir => .error .isDirectory
  | none => .error .notFound

end Store

end BuildFix
