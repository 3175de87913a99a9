import BuildFix.Loads.SymbolTable
import Mathlib.Data.List.Forall2

/-!
# Which files make a table

Files make a table when no label is empty, no label is repeated and no symbol
belongs to two files (`Listable`).  A file may repeat a symbol of its own.  Other
files fail at the first one that offends against those before it (`Offends`).
-/

namespace BuildFix

/-! ## Symbols in increasing order -/

theorem Increasing.nodup {xs : List String} (h : Increasing xs) : xs.Nodup :=
  h.imp String.ne_of_lt

/-- The first find among the symbols of a set is that of the least symbol. -/
theorem findSome?_eq_some_iff_of_increasing {α : Type} {find : String → Option α}
    {xs : List String} {a : α} (h : Increasing xs) :
    xs.findSome? find = some a ↔
      ∃ s ∈ xs, find s = some a ∧ ∀ s' ∈ xs, (find s').isSome = true → s ≤ s' := by
  rw [List.findSome?_eq_some_iff]
  constructor
  · rintro ⟨before, s, after, rfl, hs, hbefore⟩
    refine ⟨s, by simp, hs, fun s' hmem hfound => ?_⟩
    have hafter : ∀ s' ∈ after, s < s' :=
      (List.pairwise_cons.1 (List.pairwise_append.1 h).2.1).1
    rcases List.mem_append.1 hmem with hmem | hmem
    · rw [hbefore s' hmem] at hfound
      cases hfound
    · rcases List.mem_cons.1 hmem with rfl | hmem
      · exact String.le_refl s'
      · exact String.not_lt.1 (String.lt_asymm (hafter s' hmem))
  · rintro ⟨s, hmem, hs, hleast⟩
    obtain ⟨before, after, rfl⟩ := List.append_of_mem hmem
    refine ⟨before, s, after, rfl, hs, fun s' hs' => ?_⟩
    have hlt : s' < s := (List.pairwise_append.1 h).2.2 s' hs' s List.mem_cons_self
    cases hfound : find s' with
    | none => rfl
    | some b =>
        have hle : s ≤ s' := hleast s' (List.mem_append_left _ hs') (by simp [hfound])
        exact absurd hlt (String.not_lt.2 hle)

namespace SymbolTable

variable {files earlier fs : List SymbolFile} {f : SymbolFile} {e : TableError} {t : SymbolTable}

/-! ## Files that make a table -/

/-- What files must keep to make a table. -/
structure Listable (files : List SymbolFile) : Prop where
  /-- Every file has a label. -/
  label_ne : ∀ f ∈ files, f.label ≠ ""
  /-- Labels are not repeated. -/
  labels : files.Pairwise fun f g => f.label ≠ g.label
  /-- A symbol belongs to one file. -/
  disjoint : files.Pairwise fun f g => ∀ s ∈ g.symbols, s ∉ f.symbols

/-- The file breaks what files must keep, behind the files before it.  An empty label
comes before a repeated one, and this before a symbol of an earlier file, of which it
is the least. -/
def Offends (earlier : List SymbolFile) (f : SymbolFile) : TableError → Prop
  | .emptyLabel => f.label = ""
  | .repeatedLabel label => label = f.label ∧ f.label ≠ "" ∧ ∃ g ∈ earlier, g.label = f.label
  | .repeatedSymbol s first second =>
      second = f.label ∧ f.label ≠ "" ∧ (∀ g ∈ earlier, g.label ≠ f.label) ∧ s ∈ f.symbols ∧
        (∃ g ∈ earlier, g.label = first ∧ s ∈ g.symbols) ∧
        ∀ s' ∈ f.symbols, (∃ g ∈ earlier, s' ∈ g.symbols) → s ≤ s'

instance : Decidable (Offends earlier f e) :=
  match e with
  | .emptyLabel => inferInstanceAs (Decidable (f.label = ""))
  | .repeatedLabel label =>
      inferInstanceAs (Decidable (label = f.label ∧ f.label ≠ "" ∧
        ∃ g ∈ earlier, g.label = f.label))
  | .repeatedSymbol s first second =>
      inferInstanceAs (Decidable (second = f.label ∧ f.label ≠ "" ∧
        (∀ g ∈ earlier, g.label ≠ f.label) ∧ s ∈ f.symbols ∧
        (∃ g ∈ earlier, g.label = first ∧ s ∈ g.symbols) ∧
        ∀ s' ∈ f.symbols, (∃ g ∈ earlier, s' ∈ g.symbols) → s ≤ s'))

theorem WellFormed.listable (h : WellFormed files) : Listable files :=
  ⟨h.label_ne, h.labels, h.disjoint⟩

theorem listable_map_sortSymbols_iff : Listable (files.map sortSymbols) ↔ Listable files := by
  have hne : (∀ f ∈ files.map sortSymbols, f.label ≠ "") ↔ ∀ f ∈ files, f.label ≠ "" := by
    simp [sortSymbols]
  have hlabels : ((files.map sortSymbols).Pairwise fun f g => f.label ≠ g.label) ↔
      files.Pairwise fun f g => f.label ≠ g.label := by
    simp [List.pairwise_map, sortSymbols]
  have hdisjoint :
      ((files.map sortSymbols).Pairwise fun f g => ∀ s ∈ g.symbols, s ∉ f.symbols) ↔
        files.Pairwise fun f g => ∀ s ∈ g.symbols, s ∉ f.symbols := by
    simp [List.pairwise_map, sortSymbols, mem_symbolSet]
  exact ⟨fun h => ⟨hne.1 h.label_ne, hlabels.1 h.labels, hdisjoint.1 h.disjoint⟩,
    fun h => ⟨hne.2 h.label_ne, hlabels.2 h.labels, hdisjoint.2 h.disjoint⟩⟩

/-- Sorting symbols changes no offence. -/
theorem offends_sortSymbols_iff :
    Offends (earlier.map sortSymbols) (sortSymbols f) e ↔ Offends earlier f e := by
  cases e <;> simp [Offends, sortSymbols, mem_symbolSet]

/-- Among files that share no symbol, the file found for a symbol is the one that lists
it. -/
theorem find?_contains_eq_some_iff {g : SymbolFile} {s : String}
    (h : files.Pairwise fun f g => ∀ s ∈ g.symbols, s ∉ f.symbols) :
    (files.find? fun g => g.symbols.contains s) = some g ↔ g ∈ files ∧ s ∈ g.symbols := by
  constructor
  · intro hfind
    exact ⟨List.mem_of_find?_eq_some hfind, by simpa using List.find?_some hfind⟩
  · rintro ⟨hg, hs⟩
    cases hfind : files.find? fun g => g.symbols.contains s with
    | none => exact absurd (List.contains_iff_mem.2 hs) (List.find?_eq_none.1 hfind g hg)
    | some g' =>
        have hs' : s ∈ g'.symbols := by simpa using List.find?_some hfind
        rw [file_unique h (List.mem_of_find?_eq_some hfind) hg hs' hs]

/-- The breach that is found is the offence of the file. -/
theorem breach?_eq_some_iff (hearlier : Listable earlier) (hf : Increasing f.symbols) :
    breach? earlier f = some e ↔ Offends earlier f e := by
  have howner : ∀ s g, (earlier.find? fun g => g.symbols.contains s) = some g ↔
      g ∈ earlier ∧ s ∈ g.symbols :=
    fun _ _ => find?_contains_eq_some_iff hearlier.disjoint
  have hlisted : ∀ s, (earlier.find? fun g => g.symbols.contains s).isSome = true ↔
      ∃ g ∈ earlier, s ∈ g.symbols := by
    intro s
    simp only [Option.isSome_iff_exists, howner]
  unfold breach?
  split
  next hempty => cases e <;> simp [Offends, hempty]
  next hne =>
    split
    next hany =>
      have hrepeated : ∃ g ∈ earlier, g.label = f.label := by simpa using hany
      cases e with
      | emptyLabel => simp [Offends, hne]
      | repeatedLabel label => simpa [Offends, hne, eq_comm] using fun _ => hrepeated
      | repeatedSymbol s first second =>
          refine iff_of_false (by simp) ?_
          rintro ⟨-, -, hlabels, -⟩
          obtain ⟨g, hg, hlabel⟩ := hrepeated
          exact hlabels g hg hlabel
    next hany =>
      have hlabels : ∀ g ∈ earlier, g.label ≠ f.label := by simpa using hany
      rw [findSome?_eq_some_iff_of_increasing hf]
      simp only [Option.map_eq_some_iff, Option.isSome_map, howner, hlisted]
      cases e with
      | emptyLabel => simp [Offends, hne]
      | repeatedLabel label =>
          refine iff_of_false (by simp) ?_
          rintro ⟨-, -, g, hg, hlabel⟩
          exact hlabels g hg hlabel
      | repeatedSymbol s first second =>
          constructor
          · rintro ⟨s', hs', ⟨g, ⟨hg, hsg⟩, heq⟩, hleast⟩
            cases heq
            exact ⟨rfl, hne, hlabels, hs', ⟨g, hg, rfl, hsg⟩, hleast⟩
          · rintro ⟨rfl, -, -, hs, ⟨g, hg, rfl, hsg⟩, hleast⟩
            exact ⟨s, hs, ⟨g, ⟨hg, hsg⟩, rfl⟩, hleast⟩

/-- Files behind those of a table have no breach when all of them make a table. -/
theorem firstBreach?_eq_none_iff (hearlier : WellFormed earlier)
    (hfs : ∀ f ∈ fs, Increasing f.symbols) :
    firstBreach? earlier fs = none ↔ Listable (earlier ++ fs) := by
  refine ⟨fun h => (wellFormed_of_firstBreach? hearlier hfs h).listable, fun h => ?_⟩
  clear hearlier hfs
  induction fs generalizing earlier with
  | nil => rfl
  | cons f fs ih =>
      rw [firstBreach?, Option.or_eq_none_iff]
      refine ⟨breach?_eq_none_iff.2 ⟨h.label_ne f (by simp), fun g hg => ?_, fun g hg s hs => ?_⟩,
        ih (by simpa using h)⟩
      · exact (List.pairwise_append.1 h.labels).2.2 g hg f List.mem_cons_self
      · exact (List.pairwise_append.1 h.disjoint).2.2 g hg f List.mem_cons_self s hs

/-- The first breach is that of the first file that has one. -/
theorem firstBreach?_eq_some_iff :
    firstBreach? earlier fs = some e ↔
      ∃ before f after, fs = before ++ f :: after ∧ firstBreach? earlier before = none ∧
        breach? (earlier ++ before) f = some e := by
  induction fs generalizing earlier with
  | nil => simp [firstBreach?]
  | cons g fs ih =>
      rw [firstBreach?]
      cases hg : breach? earlier g with
      | some e' =>
          rw [Option.some_or, Option.some.injEq]
          constructor
          · rintro rfl
            exact ⟨[], g, fs, rfl, rfl, by rwa [List.append_nil]⟩
          · rintro ⟨before, f, after, heq, hbefore, hf⟩
            cases before with
            | nil =>
                cases heq
                rw [List.append_nil, hg] at hf
                exact Option.some.inj hf
            | cons b before =>
                cases heq
                rw [firstBreach?, hg] at hbefore
                cases hbefore
      | none =>
          rw [Option.none_or, ih]
          constructor
          · rintro ⟨before, f, after, rfl, hbefore, hf⟩
            refine ⟨g :: before, f, after, rfl, ?_, by simpa using hf⟩
            rw [firstBreach?, hg, Option.none_or, hbefore]
          · rintro ⟨before, f, after, heq, hbefore, hf⟩
            cases before with
            | nil =>
                cases heq
                rw [List.append_nil, hg] at hf
                cases hf
            | cons b before =>
                cases heq
                rw [firstBreach?, hg, Option.none_or] at hbefore
                exact ⟨before, f, after, rfl, hbefore, by simpa using hf⟩

theorem increasing_of_mem_map_sortSymbols (h : f ∈ files.map sortSymbols) :
    Increasing f.symbols := by
  obtain ⟨g, -, rfl⟩ := List.mem_map.1 h
  exact symbolSet_sorted g.symbols

theorem wellFormed_nil : WellFormed [] := ⟨by simp, by simp, by simp, by simp⟩

/-- Making a table fails with the first breach or lists the files. -/
theorem ofFiles_cases (files : List SymbolFile) :
    (∃ e, firstBreach? [] (files.map sortSymbols) = some e ∧ ofFiles files = .error e) ∨
      firstBreach? [] (files.map sortSymbols) = none ∧
        ∃ t, ofFiles files = .ok t ∧ t.files = files.map sortSymbols := by
  unfold ofFiles
  dsimp only
  split
  next e h => exact .inl ⟨e, h, rfl⟩
  next h => exact .inr ⟨h, _, rfl, rfl⟩

theorem exists_ofFiles_eq_ok_iff : (∃ t, ofFiles files = .ok t) ↔ Listable files := by
  have hbreach := firstBreach?_eq_none_iff wellFormed_nil
    fun f (hf : f ∈ files.map sortSymbols) => increasing_of_mem_map_sortSymbols hf
  rw [List.nil_append, listable_map_sortSymbols_iff] at hbreach
  rw [← hbreach]
  rcases ofFiles_cases files with ⟨e, he, herror⟩ | ⟨hnone, t, ht, -⟩
  · rw [he, herror]
    exact iff_of_false (by rintro ⟨t, ⟨⟩⟩) (by rintro ⟨⟩)
  · exact iff_of_true ⟨t, ht⟩ hnone

theorem ofFiles_eq_error_iff :
    ofFiles files = .error e ↔
      ∃ before f after, files = before ++ f :: after ∧ Listable before ∧ Offends before f e := by
  have hfirst : ofFiles files = .error e ↔
      firstBreach? [] (files.map sortSymbols) = some e := by
    rcases ofFiles_cases files with ⟨e', he, herror⟩ | ⟨hnone, t, ht, -⟩
    · rw [he, herror, Except.error.injEq, Option.some.injEq]
    · rw [hnone, ht]
      exact iff_of_false (by rintro ⟨⟩) (by rintro ⟨⟩)
  have hbefore : ∀ before : List SymbolFile,
      firstBreach? [] (before.map sortSymbols) = none ↔ Listable before := by
    intro before
    rw [firstBreach?_eq_none_iff wellFormed_nil fun f hf => increasing_of_mem_map_sortSymbols hf,
      List.nil_append, listable_map_sortSymbols_iff]
  have hbreach : ∀ before f, Listable before →
      (breach? (before.map sortSymbols) (sortSymbols f) = some e ↔ Offends before f e) := by
    intro before f h
    rw [breach?_eq_some_iff (listable_map_sortSymbols_iff.2 h) (symbolSet_sorted f.symbols),
      offends_sortSymbols_iff]
  rw [hfirst, firstBreach?_eq_some_iff]
  constructor
  · rintro ⟨before', f', after', heq, hnone, hf⟩
    obtain ⟨before, rest, rfl, rfl, hrest⟩ := List.map_eq_append_iff.1 heq
    obtain ⟨f, after, rfl, rfl, -⟩ := List.map_eq_cons_iff.1 hrest
    have hlistable : Listable before := (hbefore before).1 hnone
    exact ⟨before, f, after, rfl, hlistable, (hbreach before f hlistable).1 hf⟩
  · rintro ⟨before, f, after, rfl, hlistable, hf⟩
    exact ⟨before.map sortSymbols, sortSymbols f, after.map sortSymbols, by simp,
      (hbefore before).2 hlistable, (hbreach before f hlistable).2 hf⟩

/-! ## The files of a table -/

/-- A table lists the files in order, with their symbols as sets. -/
theorem forall₂_of_ofFiles (h : ofFiles files = .ok t) :
    List.Forall₂ (fun f g => g.label = f.label ∧ Increasing g.symbols ∧
      ∀ s, s ∈ g.symbols ↔ s ∈ f.symbols) files t.files := by
  rcases ofFiles_cases files with ⟨e, -, herror⟩ | ⟨-, t', ht, hfiles⟩
  · cases h.symm.trans herror
  · cases h.symm.trans ht
    rw [hfiles, List.forall₂_map_right_iff]
    exact List.forall₂_same.2 fun f _ => ⟨rfl, symbolSet_sorted f.symbols, fun _ => mem_symbolSet⟩

end SymbolTable

end BuildFix
