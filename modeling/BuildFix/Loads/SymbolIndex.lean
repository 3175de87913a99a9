import BuildFix.Loads.SymbolTable
import Std.Data.HashMap

/-!
# The index of known symbols

A table is searched from its first file each time.  `SymbolIndex` keeps the position
of every label and of every symbol instead.  It is filled in one pass over the files,
which checks them as well.  A symbol that was listed before is reported with the
label of its file, and this file is found through the position of the symbol.
-/

namespace BuildFix

/-- Files with the positions of their labels and symbols. -/
structure SymbolIndex where
  /-- The files, whose symbols are sets. -/
  files : List SymbolFile := []
  /-- The position of the file with a label. -/
  labels : Std.HashMap String Nat := {}
  /-- The position of the file a symbol comes from. -/
  owners : Std.HashMap String Nat := {}

/-- Why an index cannot be filled. -/
inductive IndexError where
  /-- The files make no table. -/
  | breach (e : TableError)
  /-- There is no file at a position. -/
  | outOfRange (position : Nat)

namespace SymbolIndex

open SymbolTable (sortSymbols)

/-! ## Filling an index -/

/-- The owners with the symbols of the file that is to stand at a position. -/
def enterSymbols (files : List SymbolFile) (label : String) (position : Nat)
    (owners : Std.HashMap String Nat) : List String → Except IndexError (Std.HashMap String Nat)
  | [] => .ok owners
  | s :: ss =>
      match owners[s]? with
      | none => enterSymbols files label position (owners.insert s position) ss
      | some earlier =>
          match files[earlier]? with
          | some first => .error (.breach (.repeatedSymbol s first.label label))
          | none => .error (.outOfRange earlier)

/-- The index with one more file. -/
def enter (ix : SymbolIndex) (f : SymbolFile) : Except IndexError SymbolIndex :=
  if f.label = "" then .error (.breach .emptyLabel)
  else if ix.labels.contains f.label then .error (.breach (.repeatedLabel f.label))
  else do
    let f := sortSymbols f
    let owners ← enterSymbols ix.files f.label ix.files.length ix.owners f.symbols
    return ⟨ix.files ++ [f], ix.labels.insert f.label ix.files.length, owners⟩

/-- The index of the files, in one pass. -/
def ofFiles (files : List SymbolFile) : Except IndexError SymbolIndex := files.foldlM enter {}

/-! ## Looking up -/

/-- The position of the file with a label. -/
def filePosition? (ix : SymbolIndex) (label : String) : Option Nat := ix.labels[label]?

/-- The position of the file a symbol comes from. -/
def ownerPosition? (ix : SymbolIndex) (symbol : String) : Option Nat := ix.owners[symbol]?

/-- The label of the file a symbol comes from. -/
def owner? (ix : SymbolIndex) (symbol : String) : Option String :=
  (ix.ownerPosition? symbol).bind fun i => ix.files[i]?.map SymbolFile.label

/-- Decide whether a symbol comes from a file of the index. -/
def knows (ix : SymbolIndex) (symbol : String) : Bool := ix.owners.contains symbol

end SymbolIndex

end BuildFix
