import BuildFix.Loads.SymbolIndex
import BuildFix.Proofs.Loads.Tables

/-!
# Positions in a table

A table answers where a label or a symbol is by going through its files, and an
index answers from the positions it keeps.  The position of a file is taken before
the file is there, so a symbol that a file repeats would be looked up behind the last
file.  The symbols are a set by then, so this does not happen (`enterSymbols_eq`).
What one file does to an index is what it does to a table (`enter_cases`), and so it
is for all files (`ofFiles_cases`).
-/

namespace BuildFix

/-! ## Positions -/

section

variable {α : Type} {p : α → Bool} {xs : List α} {i : Nat}

/-- The element at the first position with a property is the first element with it. -/
theorem getElem?_of_findIdx? (h : xs.findIdx? p = some i) :
    ∃ x, xs[i]? = some x ∧ xs.find? p = some x := by
  obtain ⟨hi, -⟩ := List.findIdx?_eq_some_iff_getElem.1 h
  have hx : xs[i]? = some xs[i] := List.getElem?_eq_getElem hi
  refine ⟨xs[i], hx, ?_⟩
  rw [List.find?_eq_bind_findIdx?_getElem?, h]
  exact hx

/-- A property of one element only is found where that element stands. -/
theorem findIdx?_eq_some_iff_of_unique (hp : xs.Pairwise fun x y => p y = true → p x = false) :
    xs.findIdx? p = some i ↔ ∃ x, xs[i]? = some x ∧ p x = true := by
  constructor
  · intro h
    obtain ⟨x, hx, hfind⟩ := getElem?_of_findIdx? h
    exact ⟨x, hx, List.find?_some hfind⟩
  · rintro ⟨x, hx, hpx⟩
    obtain ⟨hi, rfl⟩ := List.getElem?_eq_some_iff.1 hx
    refine List.findIdx?_eq_some_iff_getElem.2 ⟨hi, hpx, fun j hj => ?_⟩
    have hbefore : p xs[j] = false :=
      List.pairwise_iff_getElem.1 hp j i (Nat.lt_trans hj hi) hi hj hpx
    simp [hbefore]

end

namespace SymbolIndex

open SymbolTable (sortSymbols breach? firstBreach?)

/-! ## Filling an index -/

/-- The positions are those that the files have. -/
structure Coherent (ix : SymbolIndex) : Prop where
  /-- A label has the position of its file. -/
  labels : ∀ label, ix.labels[label]? = ix.files.findIdx? (·.label == label)
  /-- A symbol has the position of its file. -/
  owners : ∀ s, ix.owners[s]? = ix.files.findIdx? (·.symbols.contains s)

/-- The index answers as the table does. -/
structure Agrees (ix : SymbolIndex) (t : SymbolTable) : Prop where
  /-- The files are those of the table. -/
  files : ix.files = t.files
  /-- Labels have the same positions. -/
  filePosition? : ∀ label, ix.filePosition? label = t.filePosition? label
  /-- Symbols have the same positions. -/
  ownerPosition? : ∀ s, ix.ownerPosition? s = t.ownerPosition? s
  /-- Symbols come from the same files. -/
  owner? : ∀ s, ix.owner? s = t.owner? s
  /-- The same symbols are known. -/
  knows : ∀ s, ix.knows s = t.knows s

variable {files : List SymbolFile} {label : String} {position : Nat}
  {owners : Std.HashMap String Nat} {ss : List String} {ix : SymbolIndex} {f : SymbolFile}
  {t : SymbolTable}

theorem getElem?_foldl_insert (ss : List String) (owners : Std.HashMap String Nat)
    (position : Nat) (s : String) :
    (ss.foldl (fun owners s => owners.insert s position) owners)[s]? =
      if s ∈ ss then some position else owners[s]? := by
  induction ss generalizing owners with
  | nil => rfl
  | cons s' ss ih =>
      rw [List.foldl_cons, ih, Std.HashMap.getElem?_insert]
      by_cases hs : s' = s
      · simp [hs]
      · simp [hs, Ne.symm hs]

/-- Symbols that are not repeated are looked up among the files that are there. -/
theorem enterSymbols_eq (hss : ss.Nodup)
    (howners : ∀ s ∈ ss, owners[s]? = files.findIdx? (·.symbols.contains s)) :
    enterSymbols files label position owners ss =
      match ss.findSome? fun s => (files.find? fun g => g.symbols.contains s).map fun g =>
        TableError.repeatedSymbol s g.label label with
      | some e => .error (.breach e)
      | none => .ok (ss.foldl (fun owners s => owners.insert s position) owners) := by
  induction ss generalizing owners with
  | nil => rfl
  | cons s ss ih =>
      obtain ⟨hs, hss⟩ := List.nodup_cons.1 hss
      rw [enterSymbols, howners s List.mem_cons_self, List.findSome?_cons]
      cases hposition : files.findIdx? (·.symbols.contains s) with
      | some earlier =>
          obtain ⟨g, hg, hfind⟩ := getElem?_of_findIdx? hposition
          simp only [hg, hfind, Option.map_some]
      | none =>
          have hnone : (files.find? fun g => g.symbols.contains s) = none := by
            rw [List.find?_eq_bind_findIdx?_getElem?, hposition]
            rfl
          have hothers : ∀ s' ∈ ss, (owners.insert s position)[s']? =
              files.findIdx? (·.symbols.contains s') := by
            intro s' hs'
            have hne : s ≠ s' := fun heq => hs (heq ▸ hs')
            rw [Std.HashMap.getElem?_insert, if_neg (by simpa using hne)]
            exact howners s' (List.mem_cons_of_mem s hs')
          simp only [hnone, Option.map_none]
          exact ih hss hothers

/-- The positions once a file stands behind the others. -/
theorem Coherent.push (h : ix.Coherent) (hlabel : ∀ g ∈ ix.files, g.label ≠ f.label)
    (hsymbols : ∀ g ∈ ix.files, ∀ s ∈ f.symbols, s ∉ g.symbols) :
    Coherent ⟨ix.files ++ [f], ix.labels.insert f.label ix.files.length,
      f.symbols.foldl (fun owners s => owners.insert s ix.files.length) ix.owners⟩ := by
  constructor
  · intro label
    rw [Std.HashMap.getElem?_insert, List.findIdx?_append, h.labels, List.findIdx?_singleton]
    by_cases hf : f.label = label
    · have hnone : ix.files.findIdx? (·.label == label) = none := by
        rw [List.findIdx?_eq_none_iff]
        intro g hg
        simpa [← hf] using hlabel g hg
      simp [hf, hnone]
    · simp [hf]
  · intro s
    rw [getElem?_foldl_insert, List.findIdx?_append, h.owners, List.findIdx?_singleton]
    by_cases hf : s ∈ f.symbols
    · have hnone : ix.files.findIdx? (·.symbols.contains s) = none := by
        rw [List.findIdx?_eq_none_iff]
        intro g hg
        simpa using hsymbols g hg s hf
      rw [if_pos hf, hnone, if_pos (List.contains_iff_mem.2 hf), Option.none_or, Option.map_some,
        Nat.zero_add]
    · simp [hf]

/-- A file is refused for its breach, or takes its place behind the others. -/
theorem enter_cases (h : ix.Coherent) (f : SymbolFile) :
    (∃ e, breach? ix.files (sortSymbols f) = some e ∧ ix.enter f = .error (.breach e)) ∨
      breach? ix.files (sortSymbols f) = none ∧
        ∃ ix', ix.enter f = .ok ix' ∧ ix'.Coherent ∧ ix'.files = ix.files ++ [sortSymbols f] := by
  have hlisted : ix.labels.contains f.label = ix.files.any (·.label == f.label) := by
    rw [Std.HashMap.contains_eq_isSome_getElem?, h.labels, List.findIdx?_isSome]
  by_cases hempty : f.label = ""
  · exact .inl ⟨.emptyLabel, if_pos hempty, if_pos hempty⟩
  by_cases hrepeated : ix.files.any (·.label == f.label) = true
  · refine .inl ⟨.repeatedLabel f.label, (if_neg hempty).trans (if_pos hrepeated), ?_⟩
    exact (if_neg hempty).trans (if_pos (hlisted.trans hrepeated))
  -- Both the table and the index now go through the sorted symbols.
  have hbreach : breach? ix.files (sortSymbols f) =
      (sortSymbols f).symbols.findSome? fun s =>
        (ix.files.find? fun g => g.symbols.contains s).map fun g =>
          .repeatedSymbol s g.label f.label :=
    (if_neg hempty).trans (if_neg hrepeated)
  have hsymbols :
      enterSymbols ix.files f.label ix.files.length ix.owners (sortSymbols f).symbols =
        match breach? ix.files (sortSymbols f) with
        | some e => .error (.breach e)
        | none => .ok ((sortSymbols f).symbols.foldl
            (fun owners s => owners.insert s ix.files.length) ix.owners) := by
    rw [hbreach]
    exact enterSymbols_eq (symbolSet_sorted f.symbols).nodup fun s _ => h.owners s
  have henter : ix.enter f = do
      let owners ← enterSymbols ix.files f.label ix.files.length ix.owners (sortSymbols f).symbols
      return ⟨ix.files ++ [sortSymbols f], ix.labels.insert f.label ix.files.length, owners⟩ :=
    (if_neg hempty).trans (if_neg (by rwa [hlisted]))
  cases hfound : breach? ix.files (sortSymbols f) with
  | some e =>
      refine .inl ⟨e, rfl, ?_⟩
      rw [henter, hsymbols, hfound]
      rfl
  | none =>
      obtain ⟨-, hlabel, hdisjoint⟩ := SymbolTable.breach?_eq_none_iff.1 hfound
      refine .inr ⟨rfl, _, ?_, h.push hlabel hdisjoint, rfl⟩
      rw [henter, hsymbols, hfound]
      rfl

/-- Filling an index stops at the first breach, or lists the files. -/
theorem foldlM_enter_cases (h : ix.Coherent) (fs : List SymbolFile) :
    (∃ e, firstBreach? ix.files (fs.map sortSymbols) = some e ∧
        fs.foldlM enter ix = .error (.breach e)) ∨
      firstBreach? ix.files (fs.map sortSymbols) = none ∧
        ∃ ix', fs.foldlM enter ix = .ok ix' ∧ ix'.Coherent ∧
          ix'.files = ix.files ++ fs.map sortSymbols := by
  induction fs generalizing ix with
  | nil => exact .inr ⟨rfl, ix, rfl, h, (List.append_nil _).symm⟩
  | cons f fs ih =>
      rw [List.map_cons, firstBreach?, List.foldlM_cons]
      rcases enter_cases h f with ⟨e, he, herror⟩ | ⟨hnone, ix', hok, hcoherent, hfiles⟩
      · refine .inl ⟨e, by rw [he, Option.some_or], ?_⟩
        rw [herror]
        rfl
      · rw [hnone, Option.none_or, hok, ← hfiles]
        rcases ih hcoherent with h' | ⟨hbreach, ix'', hrun, hcoherent', hfiles'⟩
        · exact .inl h'
        · refine .inr ⟨hbreach, ix'', hrun, hcoherent', ?_⟩
          rw [hfiles', hfiles, List.append_assoc, List.singleton_append]

/-- Positions of the files of a table answer as the table does. -/
theorem Coherent.agrees (h : ix.Coherent) (hfiles : ix.files = t.files) : ix.Agrees t := by
  have howner : ∀ s, ix.ownerPosition? s = t.ownerPosition? s := by
    intro s
    rw [ownerPosition?, h.owners, hfiles, SymbolTable.ownerPosition?]
  refine ⟨hfiles, fun label => ?_, howner, fun s => ?_, fun s => ?_⟩
  · rw [filePosition?, h.labels, hfiles, SymbolTable.filePosition?]
  · rw [owner?, howner, hfiles, SymbolTable.ownerPosition?, SymbolTable.owner?,
      List.find?_eq_bind_findIdx?_getElem?, Option.map_bind]
    rfl
  · rw [knows, Std.HashMap.contains_eq_isSome_getElem?, h.owners, hfiles, List.findIdx?_isSome,
      SymbolTable.knows]

theorem coherent_empty : Coherent {} :=
  ⟨fun _ => Std.HashMap.getElem?_empty, fun _ => Std.HashMap.getElem?_empty⟩

/-- Filling an index comes to what making a table comes to, and both answer the same. -/
theorem ofFiles_cases (files : List SymbolFile) :
    (∃ e, SymbolTable.ofFiles files = .error e ∧ ofFiles files = .error (.breach e)) ∨
      ∃ t ix, SymbolTable.ofFiles files = .ok t ∧ ofFiles files = .ok ix ∧ ix.Agrees t := by
  rcases foldlM_enter_cases coherent_empty files with
    ⟨e, he, herror⟩ | ⟨hnone, ix, hok, hcoherent, hfiles⟩
  · rcases SymbolTable.ofFiles_cases files with ⟨e', he', htable⟩ | ⟨hnone, -⟩
    · cases he.symm.trans he'
      exact .inl ⟨e, htable, herror⟩
    · cases he.symm.trans hnone
  · rcases SymbolTable.ofFiles_cases files with ⟨e', he', -⟩ | ⟨-, t, ht, hfiles'⟩
    · cases hnone.symm.trans he'
    · exact .inr ⟨t, ix, ht, hok, hcoherent.agrees (hfiles.trans hfiles'.symm)⟩

end SymbolIndex

namespace SymbolTable

/-! ## Tables and their look-ups -/

section

variable {files : List SymbolFile} {t : SymbolTable} {label s : String} {i : Nat}

theorem filePosition?_eq_some_iff :
    t.filePosition? label = some i ↔ ∃ f, t.files[i]? = some f ∧ f.label = label := by
  have hunique : t.files.Pairwise fun f g =>
      (g.label == label) = true → (f.label == label) = false := by
    refine t.wellFormed.labels.imp fun hne hg => ?_
    rw [beq_iff_eq] at hg
    simpa [← hg] using hne
  rw [filePosition?, findIdx?_eq_some_iff_of_unique hunique]
  simp

theorem ownerPosition?_eq_some_iff :
    t.ownerPosition? s = some i ↔ ∃ f, t.files[i]? = some f ∧ s ∈ f.symbols := by
  have hunique : t.files.Pairwise fun f g =>
      g.symbols.contains s = true → f.symbols.contains s = false := by
    refine t.wellFormed.disjoint.imp fun hdisjoint hg => ?_
    simpa using hdisjoint s (List.contains_iff_mem.1 hg)
  rw [ownerPosition?, findIdx?_eq_some_iff_of_unique hunique]
  simp

end

/-- Files make a table exactly when no label is empty or repeated and no symbol is in
two files.  The table lists the files in order with their symbols as sets, and its
look-ups answer the positions in this list.  Otherwise the error is that of the first
file that offends against those before it.  Filling an index in one pass comes to the
same, and looks up no position where there is no file. -/
theorem ofFiles_indexed (files : List SymbolFile) :
    (∀ i, SymbolIndex.ofFiles files ≠ .error (.outOfRange i)) ∧
    ((∃ e, ofFiles files = .error e ∧ SymbolIndex.ofFiles files = .error (.breach e)) ∨
      ∃ t ix, ofFiles files = .ok t ∧ SymbolIndex.ofFiles files = .ok ix ∧ ix.Agrees t) ∧
    ((∃ t, ofFiles files = .ok t) ↔ Listable files) ∧
    (∀ t, ofFiles files = .ok t →
      List.Forall₂ (fun f g => g.label = f.label ∧ Increasing g.symbols ∧
        ∀ s, s ∈ g.symbols ↔ s ∈ f.symbols) files t.files ∧
      (∀ label i, t.filePosition? label = some i ↔
        ∃ f, t.files[i]? = some f ∧ f.label = label) ∧
      (∀ s i, t.ownerPosition? s = some i ↔ ∃ f, t.files[i]? = some f ∧ s ∈ f.symbols) ∧
      ∀ s, t.knows s = true ↔ ∃ f ∈ t.files, s ∈ f.symbols) ∧
    ∀ e, ofFiles files = .error e ↔
      ∃ before f after, files = before ++ f :: after ∧ Listable before ∧ Offends before f e := by
  have hindex := SymbolIndex.ofFiles_cases files
  refine ⟨fun i h => ?_, hindex, exists_ofFiles_eq_ok_iff, fun t ht => ?_,
    fun e => ofFiles_eq_error_iff⟩
  · rcases hindex with ⟨e, -, herror⟩ | ⟨t, ix, -, hok, -⟩
    · cases h.symm.trans herror
    · cases h.symm.trans hok
  · exact ⟨forall₂_of_ofFiles ht, fun label i => filePosition?_eq_some_iff,
      fun s i => ownerPosition?_eq_some_iff, t.knows_iff⟩

/-- Two files, of which the first repeats a symbol of its own. -/
def looseFiles : List SymbolFile := [⟨"//:b.bzl", ["z", "a", "z"]⟩, ⟨"//:a.bzl", ["m"]⟩]

/-- A file with symbols of both. -/
def greedyFile : SymbolFile := ⟨"//:c.bzl", ["z", "y", "m"]⟩

theorem looseFiles_indexed :
    (∃ t, ofFiles looseFiles = .ok t ∧ t.ownerPosition? "z" = some 0 ∧
      t.filePosition? "//:a.bzl" = some 1) ∧
    ofFiles (looseFiles ++ [greedyFile]) =
      .error (.repeatedSymbol "m" "//:a.bzl" "//:c.bzl") := by
  have hlistable : Listable looseFiles := ⟨by decide, by decide, by decide⟩
  obtain ⟨-, -, haccepted, hlookups, -⟩ := ofFiles_indexed looseFiles
  obtain ⟨-, -, -, -, herror⟩ := ofFiles_indexed (looseFiles ++ [greedyFile])
  refine ⟨?_, (herror _).2 ⟨looseFiles, greedyFile, [], rfl, hlistable, ?_⟩⟩
  · obtain ⟨t, ht⟩ := haccepted.2 hlistable
    obtain ⟨hfiles, hlabel, howner, -⟩ := hlookups t ht
    obtain ⟨g, rest, ⟨-, -, hg⟩, hrest, hfiles⟩ := List.forall₂_cons_left_iff.1 hfiles
    obtain ⟨g', rest', ⟨hg', -⟩, -, rfl⟩ := List.forall₂_cons_left_iff.1 hrest
    refine ⟨t, ht, (howner "z" 0).2 ⟨g, ?_, (hg "z").2 (by decide)⟩,
      (hlabel "//:a.bzl" 1).2 ⟨g', ?_, hg'⟩⟩
    · rw [hfiles]
      rfl
    · rw [hfiles]
      rfl
  · decide +kernel

end SymbolTable

end BuildFix
