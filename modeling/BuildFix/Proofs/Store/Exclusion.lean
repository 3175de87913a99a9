import BuildFix.Proofs.Store.Finding

/-!
# What is excluded

A run leaves out the directory it writes to.  The walk below an input asks about every
directory it comes to, and about no file and not about the input itself.

So an input outside of the excluded directory yields the files below it that are not in
there.  An input inside of it, or that is it, yields the files that lie in it directly,
which are in the excluded directory too (`load_excludes`).  Below such an input a
directory is still entered if its canonical path is too long to be found, since then it
is not known to be excluded.
-/

namespace BuildFix

namespace Store

variable {s : Store} {out : Path} {key root excl : Key} {names : List String} {inputs : List Path}
  {exclude : Option Path} {trees : List SourceTree}

/-! ## Canonical paths -/

theorem intercalate_append (xs ys : List String) :
    ∃ rest, "/".intercalate (xs ++ ys) = "/".intercalate xs ++ rest := by
  induction xs with
  | nil => exact ⟨"/".intercalate ys, by rw [String.intercalate_nil, String.empty_append]; rfl⟩
  | cons x xs ih =>
      cases xs with
      | nil =>
          cases ys with
          | nil => exact ⟨"", (String.append_empty ..).symm⟩
          | cons y ys =>
              refine ⟨"/" ++ "/".intercalate (y :: ys), ?_⟩
              rw [List.singleton_append, String.intercalate_cons_cons,
                String.intercalate_singleton, String.append_assoc]
      | cons x' xs =>
          obtain ⟨rest, hrest⟩ := ih
          refine ⟨rest, ?_⟩
          rw [List.cons_append, List.cons_append, String.intercalate_cons_cons,
            ← List.cons_append, hrest, String.intercalate_cons_cons]
          exact (String.append_assoc ..).symm

/-- A canonical path is longer than that of a directory it goes through. -/
theorem size_pathOf_le (key : Key) (names : List String) :
    (pathOf key).text.utf8ByteSize ≤ (pathOf (key ++ names)).text.utf8ByteSize := by
  obtain ⟨rest, hrest⟩ := intercalate_append key names
  simp only [pathOf, hrest, String.utf8ByteSize_append]
  omega

theorem checkLength_eq_ok_iff {p : Path} :
    checkLength p = .ok () ↔ p.text.utf8ByteSize ≤ pathLimit := by
  unfold checkLength
  split
  next h => exact ⟨nofun, fun hle => absurd h (Nat.not_lt.2 hle)⟩
  next h => exact ⟨fun _ => Nat.not_lt.1 h, fun _ => rfl⟩

theorem isExcluded_eq_false_iff : isExcluded (some excl) key = false ↔
    (excl <+: key → pathLimit < (pathOf key).text.utf8ByteSize) := by
  have hlength : (checkLength (pathOf key)).isOk = true ↔
      (pathOf key).text.utf8ByteSize ≤ pathLimit := by
    rw [← checkLength_eq_ok_iff]
    cases checkLength (pathOf key) with
    | error e => exact ⟨nofun, nofun⟩
    | ok _ => exact ⟨fun _ => rfl, fun _ => rfl⟩
  rw [← Bool.not_eq_true, isExcluded, Option.any_some, Bool.and_eq_true, hlength,
    List.isPrefixOf_iff_prefix, not_and, Nat.not_le]

/-- A directory above a file, but not above the input, is on the way between them. -/
theorem on_the_way (hunder : excl <+: root ++ names) (hnot : ¬excl <+: root)
    (hkey : excl ≠ root ++ names) :
    ∃ front back, names = front ++ back ∧ front ≠ [] ∧ back ≠ [] ∧ excl = root ++ front := by
  obtain ⟨front, rfl⟩ := (List.prefix_or_prefix_of_prefix hunder
    (List.prefix_append root _)).resolve_left hnot
  obtain ⟨back, rfl⟩ := (List.prefix_append_right_inj root).1 hunder
  refine ⟨front, back, rfl, ?_, ?_, rfl⟩
  · rintro rfl
    rw [List.append_nil] at hnot
    exact hnot (List.prefix_refl root)
  · rintro rfl
    rw [List.append_nil] at hkey
    exact hkey rfl

/-- No directory on the way from an input to a file is excluded exactly when the file is
outside of the excluded directory, or the input is inside and has the file in it
directly or behind a canonical path that is too long. -/
theorem spared_iff (hexcl : (pathOf excl).text.utf8ByteSize ≤ pathLimit) (hne : names ≠ [])
    (hkey : excl ≠ root ++ names) :
    (∀ front back, names = front ++ back → front ≠ [] → back ≠ [] →
        isExcluded (some excl) (root ++ front) = false) ↔
      ¬excl <+: root ++ names ∨ excl <+: root ∧
        (names.length = 1 ∨ pathLimit < (pathOf (root ++ names.take 1)).text.utf8ByteSize) := by
  obtain ⟨name, rest, rfl⟩ := List.exists_cons_of_ne_nil hne
  simp only [isExcluded_eq_false_iff]
  constructor
  · intro habove
    by_cases hunder : excl <+: root ++ name :: rest
    · have hin : excl <+: root := by
        by_contra hnot
        obtain ⟨front, back, hsplit, hfront, hback, rfl⟩ := on_the_way hunder hnot hkey
        have hlong := habove front back hsplit hfront hback (List.prefix_refl _)
        omega
      refine .inr ⟨hin, ?_⟩
      by_cases hrest : rest = []
      · exact .inl (by rw [hrest]; rfl)
      · exact .inr (habove [name] rest rfl (List.cons_ne_nil _ _) hrest
          (hin.trans (List.prefix_append ..)))
    · exact .inl hunder
  · intro hspared front back hsplit hfront hback hunder
    rcases hspared with hout | ⟨-, hone | hlong⟩
    · refine absurd (hunder.trans ?_) hout
      rw [hsplit, ← List.append_assoc]
      exact List.prefix_append ..
    · rw [hsplit] at hone
      exact absurd hone (Nat.ne_of_gt (one_lt_length_append hfront hback))
    · obtain ⟨x, front, rfl⟩ := List.exists_cons_of_ne_nil hfront
      rw [hsplit] at hlong
      have hle := size_pathOf_le (root ++ [x]) front
      rw [← List.append_cons] at hle
      exact Nat.lt_of_lt_of_le hlong hle

/-! ## Loading -/

theorem bind_canonicalKey (h : s.canonicalKey out = .ok excl) :
    ((some out).bind fun p => (s.canonicalKey p).toOption) = some excl := by
  rw [Option.bind_some, h]
  rfl

/-- The trees that are loaded lead to what the inputs offer. -/
theorem leadTo_load (hs : s.WellFormed) (h : s.load inputs exclude = .ok trees) :
    s.LeadTo (trees.map SourceTree.path) fun key => ∃ t ∈ inputs.flatMap
      (s.offers (exclude.bind fun p => (s.canonicalKey p).toOption)), s.walk t.path = .ok key := by
  obtain ⟨found, hfind, rfl⟩ := exists_of_map_eq_ok h
  obtain ⟨-, hfound⟩ := foldlM_findInput_eq_ok hfind
  rw [List.map_map]
  show s.LeadTo (found.map FoundTree.path) _
  rw [hfound]
  refine (leadTo_collect (LeadTo.nil s) fun t ht => ?_).congr fun k => by rw [false_or]
  obtain ⟨input, -, ht⟩ := List.mem_flatMap.1 ht
  obtain ⟨root, -, ⟨-, -, hwalk⟩ | ⟨-, names, -, -, hwalk⟩⟩ := walk_of_mem_offers hs ht
  · exact ⟨_, hwalk⟩
  · exact ⟨_, hwalk⟩

/-- Where an input leads to a directory, it offers the files that the walk comes to. -/
theorem exists_mem_offers_iff (hs : s.WellFormed) {excluded : Option Key} {input : Path}
    (hinput : s.isDir input = true) :
    (∃ t ∈ s.offers excluded input, s.walk t.path = .ok key) ↔
      ∃ root names, s.resolve input = .ok root ∧ key = root ++ names ∧
        s.reaches excluded root names = true := by
  unfold isDir at hinput
  split at hinput
  next root hroot =>
    constructor
    · rintro ⟨t, ht, hwalk⟩
      obtain ⟨root', hroot', ⟨hfile, -⟩ | ⟨-, names, hreaches, -, hwalk'⟩⟩ :=
        walk_of_mem_offers hs ht
      · rw [hroot] at hroot'
        cases hroot'
        rw [hinput] at hfile
        cases hfile
      · rw [hwalk] at hwalk'
        cases hwalk'
        exact ⟨root', names, hroot', rfl, hreaches⟩
    · rintro ⟨root', names, hroot', rfl, hreaches⟩
      rw [hroot] at hroot'
      cases hroot'
      refine ⟨.below input names, ?_, walk_below_of_reaches hs hroot hreaches⟩
      simp only [offers, hroot, hinput, if_true]
      exact List.mem_map_of_mem ((mem_treesBelow_iff hs).2 hreaches)
  next => cases hinput

/-- Where the excluded directory is one, an input that leads to a directory offers the
tree files that `spared_iff` speaks of. -/
theorem exists_mem_offers_excluded_iff (hs : s.WellFormed)
    (hexcl : (pathOf excl).text.utf8ByteSize ≤ pathLimit) (hdir : s.isDirAt excl = true)
    {input : Path} (hinput : s.isDir input = true) :
    (∃ t ∈ s.offers (some excl) input, s.walk t.path = .ok key) ↔
      ∃ root names, s.resolve input = .ok root ∧ names ≠ [] ∧ key = root ++ names ∧
        s.IsTreeFile key ∧ (¬excl <+: key ∨ excl <+: root ∧
          (names.length = 1 ∨ pathLimit < (pathOf (root ++ names.take 1)).text.utf8ByteSize)) := by
  have hkey {key : Key} (htree : s.IsTreeFile key) : excl ≠ key := by
    rintro rfl
    rw [isDirAt_eq_false htree.1] at hdir
    cases hdir
  rw [exists_mem_offers_iff hs hinput]
  constructor
  · rintro ⟨root, names, hroot, rfl, hreaches⟩
    obtain ⟨hne, htree, habove⟩ := (reaches_iff hs).1 hreaches
    exact ⟨root, names, hroot, hne, rfl, htree, (spared_iff hexcl hne (hkey htree)).1 habove⟩
  · rintro ⟨root, names, hroot, hne, rfl, htree, hcase⟩
    exact ⟨root, names, hroot, rfl,
      (reaches_iff hs).2 ⟨hne, htree, (spared_iff hexcl hne (hkey htree)).2 hcase⟩⟩

/-- Loading from directories fails only where one below them has too long a path. -/
theorem exists_of_load_eq_error (hinputs : ∀ input ∈ inputs, s.isDir input = true)
    {e : InputError} (h : s.load inputs exclude = .error e) : ∃ input ∈ inputs, ∃ names,
      pathLimit < (input.below names).text.utf8ByteSize ∧
        e = .listing (input.below names) .tooLong := by
  unfold load at h
  cases hfind : s.find inputs exclude with
  | error e' =>
      rw [hfind] at h
      cases h
      obtain ⟨input, hinput, found, herror⟩ := foldlM_eq_error hfind
      exact ⟨input, hinput, findInput_eq_error (hinputs input hinput) herror⟩
  | ok found =>
      rw [hfind] at h
      cases h

/-- A store with a report and a tree in the directory `out`, and a tree beside it. -/
def reported : Store where
  nodes := [(["out"], .dir), (["out", "report.json"], .file (.text "")),
    (["out", "trees"], .dir), (["out", "trees", "a.json"], .file (.text "")),
    (["b.json"], .file (.text ""))]

end Store

end BuildFix
