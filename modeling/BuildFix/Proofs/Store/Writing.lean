import BuildFix.Proofs.Store.Walks
import BuildFix.Store.Write

/-!
# What writing changes

Making directories adds directories where nothing was (`DirsAdded`), whether or not it
is refused in the end (`makeDirs_spec`).  Writing a file adds directories and then sets
one key, that of the path (`write_cases`).

Nothing that is there goes away or changes between a file and a directory (`Extends`),
so a path that led somewhere leads there still (`Extends.walk`).  A store stays
well-formed, because a part of a path that can be set is a name (`place_eq_ok`).
-/

namespace BuildFix

namespace Store

variable {s s' s'' : Store} {p : Path} {key key' : Key} {segment name : String} {node : Node}
  {segments : List String} {content : Content}

/-! ## Growing stores -/

/-- What was a directory or a file is one still. -/
structure Extends (s s' : Store) : Prop where
  /-- The working directory is the same. -/
  cwd : s'.cwd = s.cwd
  /-- Directories stay directories. -/
  dir : ∀ key, s.isDirAt key = true → s'.isDirAt key = true
  /-- Files stay files. -/
  file : ∀ key, s.isFileAt key = true → s'.isFileAt key = true

/-- Directories were added where nothing was. -/
structure DirsAdded (s s' : Store) : Prop where
  /-- The working directory is the same. -/
  cwd : s'.cwd = s.cwd
  /-- A key leads where it did, or to a new directory. -/
  get? : ∀ key, s'.get? key = s.get? key ∨ s.get? key = none ∧ s'.get? key = some .dir

namespace Extends

theorem refl (s : Store) : s.Extends s := ⟨rfl, fun _ h => h, fun _ h => h⟩

theorem trans (h : s.Extends s') (h' : s'.Extends s'') : s.Extends s'' :=
  ⟨h'.cwd.trans h.cwd, fun key hd => h'.dir key (h.dir key hd),
    fun key hf => h'.file key (h.file key hf)⟩

theorem isSome (h : s.Extends s') (hsome : (s.get? key).isSome = true) :
    (s'.get? key).isSome = true := by
  obtain ⟨node, hnode⟩ := Option.isSome_iff_exists.1 hsome
  cases node with
  | dir => exact isSome_of_isDirAt (h.dir key (isDirAt_iff.2 hnode))
  | file content => exact isSome_of_isFileAt (h.file key (isFileAt_iff.2 ⟨content, hnode⟩))

/-- A part of a path leads where it did. -/
theorem follow (h : s.Extends s') (hf : s.follow key segment = .ok key') :
    s'.follow key segment = .ok key' := by
  have hdir := h.dir key (isDirAt_of_follow hf)
  unfold Store.follow at hf ⊢
  split at hf
  next =>
    rw [if_pos hdir]
    split at hf
    next hidle => rwa [if_pos hidle]
    next hidle =>
      rw [if_neg hidle]
      split at hf
      next hup => rwa [if_pos hup]
      next hup =>
        rw [if_neg hup]
        split at hf
        next => cases hf
        next hsize =>
          rw [if_neg hsize]
          split at hf
          next hsome => rwa [if_pos (h.isSome hsome)]
          next => cases hf
  next => cases hf

theorem foldlM (h : s.Extends s') (hf : segments.foldlM s.follow key = .ok key') :
    segments.foldlM s'.follow key = .ok key' := by
  induction segments generalizing key with
  | nil => exact hf
  | cons segment segments ih =>
      obtain ⟨mid, hfollow, hf⟩ := foldlM_cons_eq_ok_iff.1 hf
      exact foldlM_cons_eq_ok_iff.2 ⟨mid, h.follow hfollow, ih hf⟩

theorem start (h : s.Extends s') (p : Path) : s'.start p = s.start p := by
  rw [Store.start, Store.start, h.cwd]

/-- A path leads where it did. -/
theorem walk (h : s.Extends s') (hw : s.walk p = .ok key) : s'.walk p = .ok key := by
  rw [Store.walk, h.start]
  exact h.foldlM hw

end Extends

namespace DirsAdded

theorem refl (s : Store) : s.DirsAdded s := ⟨rfl, fun _ => .inl rfl⟩

theorem trans (h : s.DirsAdded s') (h' : s'.DirsAdded s'') : s.DirsAdded s'' := by
  refine ⟨h'.cwd.trans h.cwd, fun key => ?_⟩
  rcases h.get? key with heq | ⟨hnone, hdir⟩
  · rw [← heq]
    exact h'.get? key
  · rcases h'.get? key with heq' | ⟨hnone', -⟩
    · exact .inr ⟨hnone, heq'.trans hdir⟩
    · rw [hdir] at hnone'
      cases hnone'

/-- What was there is as it was. -/
theorem get?_of_isSome (h : s.DirsAdded s') (hsome : (s.get? key).isSome = true) :
    s'.get? key = s.get? key := by
  rcases h.get? key with heq | ⟨hnone, -⟩
  · exact heq
  · rw [hnone] at hsome
    cases hsome

theorem toExtends (h : s.DirsAdded s') : s.Extends s' where
  cwd := h.cwd
  dir key hd := by rw [isDirAt, h.get?_of_isSome (isSome_of_isDirAt hd)]; exact hd
  file key hf := by rw [isFileAt, h.get?_of_isSome (isSome_of_isFileAt hf)]; exact hf

end DirsAdded

/-! ## Setting a key -/

/-- A name in a directory can be set to a directory, or to anything if it was none. -/
theorem WellFormed.set (hs : s.WellFormed) (hdir : s.isDirAt key = true) (hname : IsName name)
    (hkeep : node = .dir ∨ s.isDirAt (key ++ [name]) = false) :
    (s.set (key ++ [name]) node).WellFormed := by
  have hget (other : Key) := get?_set s (key ++ [name]) other node (by simp)
  have hstays {other : Key} (h : s.isDirAt other = true) :
      (s.set (key ++ [name]) node).isDirAt other = true := by
    rw [isDirAt, hget]
    split
    next heq =>
      subst heq
      rcases hkeep with rfl | hnot
      · rfl
      · rw [h] at hnot
        cases hnot
    next => exact h
  have hnodes : (s.set (key ++ [name]) node).nodes =
      (key ++ [name], node) :: s.nodes.filter fun n => n.1 != key ++ [name] := rfl
  refine ⟨?_, ?_, ?_, hstays hs.cwd⟩
  · rw [hnodes, List.map_cons, List.nodup_cons]
    refine ⟨fun hmem => ?_, hs.nodup.sublist (List.filter_sublist.map _)⟩
    obtain ⟨n, hn, heq⟩ := List.mem_map.1 hmem
    simpa [heq] using (List.mem_filter.1 hn).2
  · rw [hnodes, List.forall_mem_cons]
    refine ⟨fun x hx => ?_, fun n hn => hs.isName n (List.mem_filter.1 hn).1⟩
    rcases List.mem_append.1 hx with hx | hx
    · exact hs.isName_of_get? (isSome_of_isDirAt hdir) x hx
    · rw [List.mem_singleton.1 hx]
      exact hname
  · rw [hnodes, List.forall_mem_cons]
    refine ⟨?_, fun n hn => hstays (hs.above n (List.mem_filter.1 hn).1)⟩
    rw [List.dropLast_concat]
    exact hstays hdir

/-- Setting a key to a directory where nothing was adds a directory. -/
theorem dirsAdded_set (hne : key ≠ []) (hnone : s.get? key = none) :
    s.DirsAdded (s.set key .dir) := by
  refine ⟨rfl, fun other => ?_⟩
  rw [get?_set s key other .dir hne]
  split
  next heq =>
    subst heq
    exact .inr ⟨hnone, rfl⟩
  next => exact .inl rfl

/-- Setting a key to a file where no directory was keeps directories and files. -/
theorem extends_set_file (hne : key ≠ []) (hnot : s.isDirAt key = false) :
    s.Extends (s.set key (.file content)) := by
  refine ⟨rfl, fun other h => ?_, fun other h => ?_⟩
  · rw [isDirAt, get?_set s key other _ hne]
    split
    next heq =>
      subst heq
      rw [h] at hnot
      cases hnot
    next => exact h
  · rw [isFileAt_iff, get?_set s key other _ hne]
    split
    · exact ⟨content, rfl⟩
    · exact isFileAt_iff.1 h

/-! ## Places -/

theorem notMem_nul_of_checkPath {u : PUnit} (h : checkPath p = .ok u) : '\x00' ∉ p.text.toList := by
  unfold checkPath checkText at h
  intro hnul
  split at h
  next => cases h
  next =>
    rw [if_pos (List.contains_iff_mem.2 hnul)] at h
    cases h

/-- A part of a path that passes the check is a name, unless it makes none or is too
long. -/
theorem isName_of_mem_segments {u : PUnit} (hp : checkPath p = .ok u) (hmem : name ∈ p.segments)
    (hempty : name ≠ "") (hhere : name ≠ ".") (hup : name ≠ "..")
    (hsize : ¬nameLimit < name.utf8ByteSize) : IsName name := by
  obtain ⟨cs, hcs, rfl⟩ := List.mem_map.1 hmem
  obtain ⟨hslash, hsub⟩ := Path.of_mem_splitSlash hcs
  rw [← String.toList_ofList (l := cs)] at hslash
  have hnul : '\x00' ∉ (String.ofList cs).toList := fun hmem =>
    notMem_nul_of_checkPath hp (hsub (by rwa [String.toList_ofList] at hmem))
  exact ⟨hempty, hhere, hup, hslash, hnul, Nat.not_lt.1 hsize⟩

/-- A place is a directory and a last part. -/
theorem place_eq_ok (h : s.place segments p = .ok (key, name)) :
    ∃ above, segments = above ++ [name] ∧ above.foldlM s.follow (s.start p) = .ok key ∧
      s.isDirAt key = true := by
  unfold place at h
  split at h
  next => cases h
  next last hlast =>
    obtain ⟨above, rfl⟩ := List.getLast?_eq_some_iff.1 hlast
    obtain ⟨dir, hfold, h⟩ := exists_of_bind_eq_ok h
    rw [List.dropLast_concat] at hfold
    split at h
    next hdir =>
      cases h
      exact ⟨above, rfl, hfold, hdir⟩
    next => cases h

/-! ## Directories -/

/-- The parts of a path without the empty ones at its end have a last one that is not
empty. -/
theorem ne_empty_of_trimmed {above : List String}
    (h : (segments.reverse.dropWhile (· = "")).reverse = above ++ [name]) :
    name ≠ "" ∧ name ∈ segments := by
  rw [List.reverse_eq_iff, List.reverse_concat] at h
  have hhead := List.head?_dropWhile_not (fun x : String => decide (x = "")) segments.reverse
  rw [h] at hhead
  refine ⟨by simpa using hhead, ?_⟩
  have hmem : name ∈ segments.reverse.dropWhile (· = "") := by
    rw [h]
    exact List.mem_cons_self
  exact List.mem_reverse.1 ((List.dropWhile_sublist _).subset hmem)

/-- Making a directory sets a name in a directory where nothing was. -/
theorem makeDir_eq_ok (h : s.makeDir p = .ok s') :
    ∃ key name, s' = s.set (key ++ [name]) .dir ∧ s.isDirAt key = true ∧ IsName name ∧
      s.get? (key ++ [name]) = none := by
  obtain ⟨_, hcheck, h⟩ := exists_of_bind_eq_ok h
  obtain ⟨⟨key, name⟩, hplace, h⟩ := exists_of_bind_eq_ok h
  obtain ⟨above, htrimmed, -, hdir⟩ := place_eq_ok hplace
  obtain ⟨hempty, hmem⟩ := ne_empty_of_trimmed htrimmed
  dsimp only at h
  split at h
  next => cases h
  next hfree =>
    split at h
    next => cases h
    next hsize =>
      cases h
      simp only [Bool.or_eq_true, decide_eq_true_eq, not_or, Bool.not_eq_true,
        Option.isSome_eq_false_iff, Option.isNone_iff_eq_none] at hfree
      exact ⟨key, name, rfl, hdir,
        isName_of_mem_segments hcheck hmem hempty hfree.1.1 hfree.1.2 hsize, hfree.2⟩

/-- A store that is well-formed and has some directories more. -/
structure Grown (s s' : Store) : Prop where
  /-- It is well-formed. -/
  wellFormed : s'.WellFormed
  /-- It has some directories more. -/
  dirsAdded : s.DirsAdded s'

theorem WellFormed.ensureDir (hs : s.WellFormed) (h : s.ensureDir p = .ok s') : s.Grown s' := by
  unfold Store.ensureDir at h
  split at h
  next made hmade =>
    cases h
    obtain ⟨key, name, rfl, hdir, hname, hnone⟩ := makeDir_eq_ok hmade
    exact ⟨hs.set hdir hname (.inl rfl), dirsAdded_set (by simp) hnone⟩
  next =>
    split at h
    next =>
      cases h
      exact ⟨hs, .refl s⟩
    next => cases h

theorem WellFormed.ensureDirs (hs : s.WellFormed) (ps : List Path) :
    s.Grown (s.ensureDirs ps).1 := by
  induction ps generalizing s with
  | nil => exact ⟨hs, .refl s⟩
  | cons p ps ih =>
      rw [Store.ensureDirs]
      split
      next made hmade =>
        have hfirst := hs.ensureDir hmade
        have hrest := ih hfirst.wellFormed
        exact ⟨hrest.wellFormed, hfirst.dirsAdded.trans hrest.dirsAdded⟩
      next => exact ⟨hs, .refl s⟩

/-- Making the directories of a path adds directories, even if it is refused. -/
theorem WellFormed.makeDirs (hs : s.WellFormed) (p : Path) : s.Grown (s.makeDirs p).1 := by
  unfold Store.makeDirs
  split
  · exact ⟨hs, .refl s⟩
  · split
    · exact hs.ensureDirs _
    · exact ⟨hs, .refl s⟩

/-! ## Files -/

/-- Writing a file sets a name in a directory that was no directory, and then the path
leads there. -/
theorem writeFile_eq_ok (h : s.writeFile p content = .ok s') :
    ∃ key name, s' = s.set (key ++ [name]) (.file content) ∧ s.isDirAt key = true ∧
      IsName name ∧ s.isDirAt (key ++ [name]) = false ∧ s'.resolve p = .ok (key ++ [name]) := by
  obtain ⟨_, hcheck, h⟩ := exists_of_bind_eq_ok h
  obtain ⟨⟨key, name⟩, hplace, h⟩ := exists_of_bind_eq_ok h
  obtain ⟨above, hsegments, hfold, hdir⟩ := place_eq_ok hplace
  dsimp only at h
  split at h
  next => cases h
  next hfree =>
    split at h
    next => cases h
    next hsize =>
      cases h
      simp only [Bool.or_eq_true, decide_eq_true_eq, not_or, Bool.not_eq_true] at hfree
      have hname : IsName name := isName_of_mem_segments hcheck
        (by rw [hsegments]; exact List.mem_append_right _ (List.mem_singleton_self name))
        hfree.1.1.1 hfree.1.1.2 hfree.1.2 hsize
      refine ⟨key, name, rfl, hdir, hname, hfree.2, resolve_eq_ok_iff.2 ⟨hcheck, ?_⟩⟩
      have hextends : s.Extends (s.set (key ++ [name]) (.file content)) :=
        extends_set_file (by simp) hfree.2
      have hlast := follow_name (hextends.dir key hdir) hname (by
        rw [get?_set _ _ _ _ (by simp), if_pos rfl]
        rfl)
      rw [walk, hsegments, List.foldlM_append, hextends.start, hextends.foldlM hfold]
      exact foldlM_cons_eq_ok_iff.2 ⟨_, hlast, rfl⟩

/-- What writing a file comes to: the store with some directories more, in which one
key was set that was no directory. -/
structure Written (s s' : Store) (p : Path) (content : Content) (key : Key) : Prop where
  /-- The store is well-formed. -/
  wellFormed : s'.WellFormed
  /-- What was there is there. -/
  toExtends : s.Extends s'
  /-- The path leads to the key. -/
  resolve : s'.resolve p = .ok key
  /-- The key leads to the content. -/
  get?_self : s'.get? key = some (.file content)
  /-- Other keys lead where they did, or to new directories. -/
  get?_other : ∀ other, other ≠ key →
    s'.get? other = s.get? other ∨ s.get? other = none ∧ s'.get? other = some .dir

/-- The store with the directories above a path, as far as they could be made. -/
def makeAbove (s : Store) (p : Path) : Store × Option StoreError :=
  match p.parent? with
  | some dir => s.makeDirs dir
  | none => (s, none)

theorem WellFormed.makeAbove (hs : s.WellFormed) (p : Path) : s.Grown (s.makeAbove p).1 := by
  unfold Store.makeAbove
  split
  · exact hs.makeDirs _
  · exact ⟨hs, .refl s⟩

/-- A file is written once the directories above it are made. -/
theorem write_eq (s : Store) (p : Path) (content : Content) :
    s.write p content =
      match s.makeAbove p with
      | (mid, some e) => (mid, some (.parent p e))
      | (mid, none) =>
          match mid.writeFile p content with
          | .ok s => (s, none)
          | .error e => (mid, some (.file p e)) := by
  unfold write Store.makeAbove
  cases p.parent? with
  | none => rfl
  | some dir =>
      dsimp only
      obtain ⟨mid, _ | e⟩ := s.makeDirs dir <;> rfl

/-- A file is written or refused.  In any case directories may have been added. -/
theorem WellFormed.write_cases (hs : s.WellFormed) (p : Path) (content : Content) :
    (∃ e, (s.write p content).2 = some e ∧ s.Grown (s.write p content).1) ∨
      (s.write p content).2 = none ∧ ∃ key, s.Written (s.write p content).1 p content key := by
  have habove := hs.makeAbove p
  rw [write_eq]
  generalize s.makeAbove p = above at habove ⊢
  obtain ⟨mid, refused⟩ := above
  cases refused with
  | some e => exact .inl ⟨_, rfl, habove⟩
  | none =>
      dsimp only at habove ⊢
      split
      next written hwritten =>
        obtain ⟨key, name, rfl, hdir, hname, hnot, hresolve⟩ := writeFile_eq_ok hwritten
        have hget (other : Key) := get?_set mid (key ++ [name]) other (.file content) (by simp)
        refine .inr ⟨rfl, key ++ [name], ?_, ?_, hresolve, ?_, ?_⟩
        · exact habove.wellFormed.set hdir hname (.inr hnot)
        · exact habove.dirsAdded.toExtends.trans (extends_set_file (by simp) hnot)
        · rw [hget, if_pos rfl]
        · intro other hne
          rw [hget, if_neg hne]
          exact habove.dirsAdded.get? other
      next e => exact .inl ⟨_, rfl, habove⟩

end Store

end BuildFix
