import BuildFix.Toml.Scalar

/-!
# TOML documents

A document is a tree of tables.  Where the tables of a document come from decides
what may still be added to them, so a table under construction keeps its
`Origin`.

* A table opened by a header `[a]` may not be opened again, and dotted keys do
  not reach into it from outside.
* A table implied by a longer header `[a.b]` may still be opened once.
* A table made by a dotted key `a.b = …` takes further dotted keys and headers of
  tables inside it, but is never opened itself.

An inline table and an array written as a value are complete.  An array of tables
`[[a]]` takes further tables, and keys and headers that lead through it lead into
its last table.

A value may have a number in it that cannot be held.  That is no fault of the
document, only of what reads the number.
-/

namespace BuildFix.Toml

/-- A value of a document. -/
inductive Value where
  /-- A text. -/
  | text (s : String)
  /-- A number, a date, a time or a truth value. -/
  | scalar (s : Scalar)
  /-- An array. -/
  | array (items : List Value)
  /-- A table, with its keys in order. -/
  | table (members : List (String × Value))
deriving Repr, Inhabited

mutual

/-- Decide whether every number in a value can be held. -/
def Value.isHeld : Value → Bool
  | .text _ => true
  | .scalar s => s.isHeld
  | .array items => itemsHeld items
  | .table members => membersHeld members

/-- Decide whether every number in the items of an array can be held. -/
def itemsHeld : List Value → Bool
  | [] => true
  | v :: vs => v.isHeld && itemsHeld vs

/-- Decide whether every number in the members of a table can be held. -/
def membersHeld : List (String × Value) → Bool
  | [] => true
  | (_, v) :: ms => v.isHeld && membersHeld ms

end

/-- What made a table. -/
inductive Origin where
  /-- A header of its own. -/
  | header
  /-- A header of a table inside it. -/
  | implied
  /-- A dotted key. -/
  | dotted
deriving DecidableEq, Repr

/-- A part of a document under construction. -/
inductive Node where
  /-- A complete value. -/
  | leaf (v : Value)
  /-- A table. -/
  | table (origin : Origin) (members : List (String × Node))
  /-- An array of tables, of which the last takes what follows. -/
  | tables (earlier : List (List (String × Node))) (last : List (String × Node))
deriving Repr, Inhabited

/-- The keys of a table under construction. -/
abbrev Members := List (String × Node)

/-! ## From nodes to values -/

mutual

/-- The value of a node. -/
def Node.value : Node → Value
  | .leaf v => v
  | .table _ members => .table (memberValues members)
  | .tables earlier last => .array (tableValues earlier ++ [.table (memberValues last)])

/-- The values of the keys of a table. -/
def memberValues : List (String × Node) → List (String × Value)
  | [] => []
  | (key, n) :: ms => (key, n.value) :: memberValues ms

/-- The values of the tables of an array. -/
def tableValues : List (List (String × Node)) → List Value
  | [] => []
  | t :: ts => .table (memberValues t) :: tableValues ts

end

/-! ## Adding to a document -/

/-- Change the node of a key, which may be missing. -/
def alter (key : String) (f : Option Node → Option Node) : Members → Option Members
  | [] => (f none).map fun n => [(key, n)]
  | (k, n) :: ms =>
      if k = key then (f (some n)).map fun n => (k, n) :: ms
      else (alter key f ms).map ((k, n) :: ·)

/-- Change the keys of the table that a node leads into. -/
def Node.inside (f : Members → Option Members) : Node → Option Node
  | leaf _ => none
  | table origin members => (f members).map (table origin)
  | tables earlier last => (f last).map (tables earlier)

/-- Open the table of a header. -/
def openTable : List String → Members → Option Members
  | [], _ => none
  | [key], ms =>
      alter key (fun
        | none => some (.table .header [])
        | some (.table .implied members) => some (.table .header members)
        | some _ => none) ms
  | key :: keys, ms =>
      alter key (fun
        | none => (openTable keys []).map (.table .implied)
        | some n => n.inside (openTable keys)) ms

/-- Add a table to the array of a header. -/
def openElement : List String → Members → Option Members
  | [], _ => none
  | [key], ms =>
      alter key (fun
        | none => some (.tables [] [])
        | some (.tables earlier last) => some (.tables (earlier ++ [last]) [])
        | some _ => none) ms
  | key :: keys, ms =>
      alter key (fun
        | none => (openElement keys []).map (.table .implied)
        | some n => n.inside (openElement keys)) ms

/-- Set a key that is missing.  The key may be dotted, and `fresh` tells whether
the table may take a key of its own. -/
def put (v : Value) (fresh : Bool) : List String → Members → Option Members
  | [], _ => none
  | [key], ms =>
      if fresh then
        alter key (fun
          | none => some (.leaf v)
          | some _ => none) ms
      else none
  | key :: keys, ms =>
      alter key (fun
        | none => (put v true keys []).map (.table .dotted)
        | some (.leaf _) => none
        | some (.table .header _) => none
        | some (.table origin members) =>
            (put v (origin == .dotted) keys members).map (.table origin)
        | some (.tables earlier last) => (put v false keys last).map (.tables earlier)) ms

/-- Change the table that a header opened. -/
def atTable (f : Members → Option Members) : List String → Members → Option Members
  | [], ms => f ms
  | key :: keys, ms => alter key (fun n => n.bind (Node.inside (atTable f keys))) ms

end BuildFix.Toml
