/-!
# Paths

A path is the text that names a file, and it is shown as it was given.  Two
paths are compared by their components.  A `.` inside a path, a repeated slash
and a slash at the end make no component, but a `.` in front does.  Components
are ordered root, `.`, `..`, names, and names by their code points.

Joining puts one path behind another, unless the second starts at the root.
-/

namespace BuildFix

/-- A path, as it was given. -/
structure Path where
  /-- The text. -/
  text : String
deriving DecidableEq, Repr, Inhabited

/-- A component of a path. -/
inductive Component where
  /-- The root. -/
  | root
  /-- The directory itself. -/
  | here
  /-- The directory above. -/
  | up
  /-- A name. -/
  | name (s : String)
deriving DecidableEq, Repr

/-- The rank of a component among the four sorts. -/
def Component.rank : Component → Nat
  | root => 0
  | here => 1
  | up => 2
  | name _ => 3

/-- Decide whether one component stands before another. -/
def Component.before : Component → Component → Bool
  | name s, name t => s < t
  | a, b => a.rank < b.rank

/-- The text of a component. -/
def Component.text : Component → String
  | root => "/"
  | here => "."
  | up => ".."
  | name s => s

/-- Decide whether one list of components stands before another or is the same. -/
def componentsLE : List Component → List Component → Bool
  | [], _ => true
  | _ :: _, [] => false
  | a :: as, b :: bs => if a = b then componentsLE as bs else a.before b

namespace Path

/-! ## Components -/

/-- The parts of a text between slashes. -/
def splitSlash : List Char → List (List Char)
  | [] => [[]]
  | c :: cs =>
      if c = '/' then [] :: splitSlash cs
      else match splitSlash cs with
        | [] => [[c]]
        | s :: ss => (c :: s) :: ss

/-- The parts of a path between slashes, empty ones included. -/
def segments (p : Path) : List String := (splitSlash p.text.toList).map String.ofList

/-- Decide whether a path starts at the root. -/
def isAbsolute (p : Path) : Bool := p.text.toList.head? == some '/'

/-- The component that a part in the middle of a path makes. -/
def component? (segment : String) : Option Component :=
  if segment = "" || segment = "." then none
  else if segment = ".." then some .up
  else some (.name segment)

/-- The components of a path. -/
def components (p : Path) : List Component :=
  match p.segments with
  | [] => []
  | s :: ss =>
      (if p.isAbsolute then [.root] else if s = "." then [.here] else (component? s).toList) ++
        ss.filterMap component?

/-- Decide whether one path stands before another or has the same components. -/
def le (p q : Path) : Bool := componentsLE p.components q.components

/-- The path made of components. -/
def ofComponents : List Component → Path
  | [] => ⟨""⟩
  | .root :: cs => ⟨"/" ++ "/".intercalate (cs.map Component.text)⟩
  | cs => ⟨"/".intercalate (cs.map Component.text)⟩

/-! ## Parts of a path -/

/-- The path `q` as seen from the path `p`. -/
def join (p q : Path) : Path :=
  if q.isAbsolute || p.text = "" then q
  else if p.text.toList.getLast? = some '/' then ⟨p.text ++ q.text⟩
  else ⟨p.text ++ "/" ++ q.text⟩

/-- The name at the end of a path. -/
def fileName? (p : Path) : Option String :=
  match p.components.getLast? with
  | some (.name s) => some s
  | _ => none

/-- The parts of a path without those at the end that make no component. -/
def dropIdle (segments : List String) : List String :=
  (segments.reverse.dropWhile fun s => (component? s).isNone).reverse

/-- The directory that holds what a path names.  It is the path up to the component
before the last, as it was given. -/
def parent? (p : Path) : Option Path :=
  match p.segments with
  | [] => none
  | s :: ss =>
      match (dropIdle ss).getLast? with
      | some _ =>
          let above := "/".intercalate (s :: dropIdle (dropIdle ss).dropLast)
          some ⟨if above = "" then "/" else above⟩
      | none => if p.isAbsolute || p.text = "" then none else some ⟨""⟩

/-- The part of a name behind its last dot.  A dot in front separates nothing. -/
def extension? (name : String) : Option String :=
  let cs := name.toList.reverse
  let ext := cs.takeWhile (· ≠ '.')
  if ext.length + 1 < cs.length then some (String.ofList ext.reverse) else none

/-! ## Sorted lists -/

/-- Put a value behind all with a path that is no greater. -/
def insertSorted {α : Type} (path : α → Path) (x : α) : List α → List α
  | [] => [x]
  | y :: ys => if (path y).le (path x) then y :: insertSorted path x ys else x :: y :: ys

/-- Sort values by path.  Values with the same components keep their order. -/
def sort {α : Type} (path : α → Path) (xs : List α) : List α :=
  xs.foldl (fun sorted x => insertSorted path x sorted) []

example : (Path.mk "./a//b/./c/").components = [.here, .name "a", .name "b", .name "c"] := by
  decide +kernel
example : (Path.mk "a-b").le ⟨"a/b"⟩ = false := by decide +kernel
example : (Path.mk "a").join ⟨"b"⟩ = ⟨"a/b"⟩ ∧ (Path.mk "a/").join ⟨""⟩ = ⟨"a/"⟩ ∧
    (Path.mk "a").join ⟨"/b"⟩ = ⟨"/b"⟩ := by decide +kernel
example : (Path.mk "a//b/./c/").parent? = some ⟨"a//b"⟩ ∧ (Path.mk "/a").parent? = some ⟨"/"⟩ ∧
    (Path.mk "a").parent? = some ⟨""⟩ ∧ (Path.mk "/").parent? = none := by decide +kernel
example : extension? "a.tar.json" = some "json" ∧ extension? ".json" = none := by decide +kernel

end Path

end BuildFix
