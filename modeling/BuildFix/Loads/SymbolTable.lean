import BuildFix.Loads.SymbolSet
import BuildFix.Text.Quoted

/-!
# The table of known symbols

The table lists the files whose loads are managed, and for each file the symbols
that come from it.  The order of the files is the order in which new loads are
written.  A symbol that is no longer in use stays in the table, so that stale
loads of it go away.

A table is well-formed when no label is empty, no label is repeated, the symbols
of a file are a set, and no symbol belongs to two files.  `SymbolTable.ofFiles`
checks this and reports the first file that breaks it.
-/

namespace BuildFix

/-- A file and the symbols that come from it. -/
structure SymbolFile where
  /-- The label of the file. -/
  label : String
  /-- The symbols, which become a set in a table. -/
  symbols : List String
deriving DecidableEq, Repr, Inhabited

/-- Why files make no table. -/
inductive TableError where
  /-- A label is empty. -/
  | emptyLabel
  /-- A label is listed before. -/
  | repeatedLabel (label : String)
  /-- A symbol belongs to a file listed before. -/
  | repeatedSymbol (symbol first second : String)
deriving DecidableEq, Repr

/-- What an error says. -/
def TableError.message : TableError → String
  | emptyLabel => "known load entry has an empty file label"
  | repeatedLabel label => "file " ++ Text.quoted label ++ " is listed more than once"
  | repeatedSymbol symbol first second =>
      "symbol " ++ Text.quoted symbol ++ " is loaded from both " ++ Text.quoted first ++ " and " ++
        Text.quoted second

/-- What a table promises. -/
structure SymbolTable.WellFormed (files : List SymbolFile) : Prop where
  /-- Every file has a label. -/
  label_ne : ∀ f ∈ files, f.label ≠ ""
  /-- Labels are not repeated. -/
  labels : files.Pairwise fun f g => f.label ≠ g.label
  /-- The symbols of a file are a set. -/
  sets : ∀ f ∈ files, Increasing f.symbols
  /-- A symbol belongs to one file. -/
  disjoint : files.Pairwise fun f g => ∀ s ∈ g.symbols, s ∉ f.symbols

/-- Of files that share no symbol, one lists a symbol. -/
theorem SymbolTable.file_unique {files : List SymbolFile} {f g : SymbolFile} {s : String}
    (h : files.Pairwise fun f g => ∀ s ∈ g.symbols, s ∉ f.symbols) (hf : f ∈ files)
    (hg : g ∈ files) (hsf : s ∈ f.symbols) (hsg : s ∈ g.symbols) : f = g := by
  induction h with
  | nil => cases hf
  | cons hfirst _ ih =>
      rcases List.mem_cons.1 hf with rfl | hf'
      · rcases List.mem_cons.1 hg with rfl | hg'
        · rfl
        · exact absurd hsf (hfirst g hg' s hsg)
      · rcases List.mem_cons.1 hg with rfl | hg'
        · exact absurd hsg (hfirst f hf' s hsf)
        · exact ih hf' hg'

/-- The files whose loads are managed, in order. -/
structure SymbolTable where
  /-- The files. -/
  files : List SymbolFile
  /-- The files make a table. -/
  wellFormed : SymbolTable.WellFormed files

namespace SymbolTable

/-! ## Checking a table -/

/-- What a file breaks behind the files listed before it. -/
def breach? (earlier : List SymbolFile) (f : SymbolFile) : Option TableError :=
  if f.label = "" then some .emptyLabel
  else if earlier.any (·.label == f.label) then some (.repeatedLabel f.label)
  else f.symbols.findSome? fun s =>
    (earlier.find? fun e => e.symbols.contains s).map fun e => .repeatedSymbol s e.label f.label

/-- The first breach of a list of files. -/
def firstBreach? (earlier : List SymbolFile) : List SymbolFile → Option TableError
  | [] => none
  | f :: fs => (breach? earlier f).or (firstBreach? (earlier ++ [f]) fs)

theorem breach?_eq_none_iff {earlier : List SymbolFile} {f : SymbolFile} :
    breach? earlier f = none ↔
      f.label ≠ "" ∧ (∀ e ∈ earlier, e.label ≠ f.label) ∧
        ∀ e ∈ earlier, ∀ s ∈ f.symbols, s ∉ e.symbols := by
  unfold breach?
  split
  · simp [*]
  · split
    · rename_i h
      simp only [List.any_eq_true, beq_iff_eq] at h
      obtain ⟨e, he, hl⟩ := h
      simp only [reduceCtorEq, false_iff]
      exact fun hall => hall.2.1 e he hl
    · rename_i hne hany
      simp only [List.any_eq_true, beq_iff_eq, not_exists, not_and] at hany
      simp only [List.findSome?_eq_none_iff, Option.map_eq_none_iff, List.find?_eq_none,
        List.contains_iff_mem]
      exact ⟨fun h => ⟨hne, hany, fun e he s hs => h s hs e he⟩,
        fun h s hs e he => h.2.2 e he s hs⟩

theorem wellFormed_of_firstBreach? {earlier fs : List SymbolFile} (h : WellFormed earlier)
    (hs : ∀ f ∈ fs, Increasing f.symbols) (hb : firstBreach? earlier fs = none) :
    WellFormed (earlier ++ fs) := by
  induction fs generalizing earlier with
  | nil => simpa using h
  | cons f fs ih =>
      simp only [firstBreach?, Option.or_eq_none_iff] at hb
      obtain ⟨hne, hl, hd⟩ := breach?_eq_none_iff.1 hb.1
      have hf : WellFormed (earlier ++ [f]) := by
        refine ⟨?_, ?_, ?_, ?_⟩
        · intro g hg
          rcases List.mem_append.1 hg with hg | hg
          · exact h.label_ne g hg
          · rw [List.mem_singleton.1 hg]
            exact hne
        · simpa [List.pairwise_append, h.labels] using hl
        · intro g hg
          rcases List.mem_append.1 hg with hg | hg
          · exact h.sets g hg
          · rw [List.mem_singleton.1 hg]
            exact hs f List.mem_cons_self
        · simpa [List.pairwise_append, h.disjoint] using hd
      have := ih hf (fun g hg => hs g (List.mem_cons_of_mem f hg)) hb.2
      simpa using this

/-- A file whose symbols are a set. -/
def sortSymbols (f : SymbolFile) : SymbolFile := { f with symbols := symbolSet f.symbols }

/-- The table of the files, or the first breach. -/
def ofFiles (files : List SymbolFile) : Except TableError SymbolTable :=
  let sorted := files.map sortSymbols
  match h : firstBreach? [] sorted with
  | some e => .error e
  | none =>
      .ok ⟨sorted, by
        have hs : ∀ f ∈ sorted, Increasing f.symbols := by
          intro f hf
          obtain ⟨g, -, rfl⟩ := List.mem_map.1 hf
          exact symbolSet_sorted g.symbols
        exact wellFormed_of_firstBreach? ⟨by simp, by simp, by simp, by simp⟩ hs h⟩

/-! ## Looking up -/

/-- The position of the file with a label. -/
def filePosition? (t : SymbolTable) (label : String) : Option Nat :=
  t.files.findIdx? (·.label == label)

/-- The position of the file a symbol comes from. -/
def ownerPosition? (t : SymbolTable) (symbol : String) : Option Nat :=
  t.files.findIdx? (·.symbols.contains symbol)

/-- The label of the file a symbol comes from. -/
def owner? (t : SymbolTable) (symbol : String) : Option String :=
  (t.files.find? (·.symbols.contains symbol)).map SymbolFile.label

/-- Decide whether a file with the label is in the table. -/
def hasFile (t : SymbolTable) (label : String) : Bool := t.files.any (·.label == label)

/-- Decide whether a symbol comes from a file of the table. -/
def knows (t : SymbolTable) (symbol : String) : Bool :=
  t.files.any (·.symbols.contains symbol)

theorem knows_iff (t : SymbolTable) (symbol : String) :
    t.knows symbol = true ↔ ∃ f ∈ t.files, symbol ∈ f.symbols := by
  simp [knows]

/-! ## The rules of Go -/

/-- The file the rules of Go come from. -/
def goRules : SymbolFile :=
  ⟨"@io_bazel_rules_go//go:def.bzl",
    ["cgo_library", "go_binary", "go_library", "go_prefix", "go_test"]⟩

/-- The file the rules of Go for protocol buffers come from. -/
def goProtoRules : SymbolFile :=
  ⟨"@io_bazel_rules_go//proto:def.bzl", ["go_grpc_library", "go_proto_library"]⟩

/-- The table used unless another one is given. -/
def standard : SymbolTable where
  files := [goRules, goProtoRules]
  wellFormed := by
    refine ⟨?_, ?_, ?_, ?_⟩
    · decide
    · decide
    · unfold Increasing
      decide +kernel
    · decide

end SymbolTable

end BuildFix
