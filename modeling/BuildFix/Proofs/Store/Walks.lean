import BuildFix.Proofs.Attempts
import BuildFix.Proofs.Store.Paths
import Mathlib.Data.List.Induction

/-!
# Where paths lead

A path that is walked leads to a key (`walk`).  Resolving a path and finding its
canonical path walk it too, and only refuse more (`resolve_eq_ok_iff`,
`walk_of_canonicalKey`).  A walk along a join is a walk along the one path and then
along the parts of the other (`walk_join`).

Where a path leads is determined by its components, as long as it leads anywhere
(`eq_advance_of_walk`).  So paths with the same components lead to the same place.

A store is well-formed when every node has a directory above it and is named by names
(`WellFormed`).  There the last component of a path to a file is a name
(`fileName?_of_walk`).
-/

namespace BuildFix

/-- Where a component leads from a key. -/
def Component.advance (key : Key) : Component → Key
  | root => []
  | here => key
  | up => key.dropLast
  | name s => key ++ [s]

namespace Store

open BuildFix.Path (component?)

variable {s : Store} {p q : Path} {key key' : Key} {segment name : String} {names : List String}

/-! ## Well-formed stores -/

/-- What a file system promises. -/
structure WellFormed (s : Store) : Prop where
  /-- No key is listed twice. -/
  nodup : (s.nodes.map Prod.fst).Nodup
  /-- Keys are made of names. -/
  isName : ∀ n ∈ s.nodes, ∀ name ∈ n.1, IsName name
  /-- A directory is above every node. -/
  above : ∀ n ∈ s.nodes, s.isDirAt n.1.dropLast = true
  /-- The working directory is a directory. -/
  cwd : s.isDirAt s.cwd = true

instance (s : Store) : Decidable s.WellFormed :=
  decidable_of_iff (((s.nodes.map Prod.fst).Nodup ∧ ∀ n ∈ s.nodes, ∀ name ∈ n.1, IsName name) ∧
    (∀ n ∈ s.nodes, s.isDirAt n.1.dropLast = true) ∧ s.isDirAt s.cwd = true)
    ⟨fun h => ⟨h.1.1, h.1.2, h.2.1, h.2.2⟩, fun h => ⟨⟨h.nodup, h.isName⟩, h.above, h.cwd⟩⟩

theorem isDirAt_iff : s.isDirAt key = true ↔ s.get? key = some .dir := by
  rw [isDirAt, beq_iff_eq]

theorem isFileAt_iff : s.isFileAt key = true ↔ ∃ content, s.get? key = some (.file content) := by
  unfold isFileAt
  split
  next content h => simp [h]
  next hne => simpa using hne

/-- A key does not lead to a file and to a directory. -/
theorem isDirAt_eq_false (h : s.isFileAt key = true) : s.isDirAt key = false := by
  obtain ⟨content, hget⟩ := isFileAt_iff.1 h
  rw [isDirAt, hget]
  rfl

theorem isSome_of_isDirAt (h : s.isDirAt key = true) : (s.get? key).isSome = true := by
  rw [isDirAt_iff.1 h]
  rfl

theorem isSome_of_isFileAt (h : s.isFileAt key = true) : (s.get? key).isSome = true := by
  obtain ⟨content, hget⟩ := isFileAt_iff.1 h
  rw [hget]
  rfl

theorem mem_nodes_of_get? {node : Node} (h : s.get? key = some node) (hne : key ≠ []) :
    (key, node) ∈ s.nodes := by
  rw [get?, if_neg hne, List.lookup_eq_some_iff] at h
  obtain ⟨before, after, hnodes, -⟩ := h
  rw [hnodes]
  exact List.mem_append_right _ List.mem_cons_self

namespace WellFormed

theorem isName_of_get? (hs : s.WellFormed) (h : (s.get? key).isSome = true) :
    ∀ name ∈ key, IsName name := by
  obtain ⟨node, hnode⟩ := Option.isSome_iff_exists.1 h
  by_cases hne : key = []
  · rw [hne]
    exact fun _ => nofun
  · exact hs.isName _ (mem_nodes_of_get? hnode hne)

theorem isDirAt_dropLast (hs : s.WellFormed) (h : (s.get? key).isSome = true) :
    s.isDirAt key.dropLast = true := by
  obtain ⟨node, hnode⟩ := Option.isSome_iff_exists.1 h
  by_cases hne : key = []
  · rw [hne]
    rfl
  · exact hs.above _ (mem_nodes_of_get? hnode hne)

/-- What a key goes through is a directory. -/
theorem isDirAt_append (hs : s.WellFormed) (h : (s.get? (key ++ names)).isSome = true)
    (hne : names ≠ []) : s.isDirAt key = true := by
  induction names using List.reverseRecOn with
  | nil => exact absurd rfl hne
  | append_singleton names name ih =>
      have habove := hs.isDirAt_dropLast h
      rw [← List.append_assoc, List.dropLast_concat] at habove
      by_cases hnames : names = []
      · rwa [hnames, List.append_nil] at habove
      · exact ih (isSome_of_isDirAt habove) hnames

end WellFormed

/-! ## One part -/

/-- One part of a path leads out of a directory. -/
theorem isDirAt_of_follow (h : s.follow key segment = .ok key') : s.isDirAt key = true := by
  unfold follow at h
  split at h
  · assumption
  · cases h

theorem follow_notDirectory (h : s.isDirAt key = false) (segment : String) :
    s.follow key segment = .error .notDirectory := by
  simp [follow, h]

theorem follow_idle (h : s.isDirAt key = true) (hseg : component? segment = none) :
    s.follow key segment = .ok key := by
  have hidle : segment = "" ∨ segment = "." := by
    unfold component? at hseg
    split at hseg
    next h => simpa using h
    next => split at hseg <;> cases hseg
  rcases hidle with rfl | rfl <;> simp [follow, h]

theorem follow_name (hdir : s.isDirAt key = true) (hname : IsName name)
    (h : (s.get? (key ++ [name])).isSome = true) : s.follow key name = .ok (key ++ [name]) := by
  simp [follow, hdir, hname.ne_empty, hname.ne_here, hname.ne_up, h, Nat.not_lt.2 hname.size_le]

/-- A part that can be followed leads where its component does, and something is there. -/
theorem follow_cases (h : s.follow key segment = .ok key') :
    (component? segment = none ∧ key' = key) ∨
    (component? segment = some .up ∧ key' = key.dropLast) ∨
    (component? segment = some (.name segment) ∧ key' = key ++ [segment] ∧
      (s.get? key').isSome = true) := by
  unfold follow at h
  unfold component?
  split at h
  · split at h
    next hidle =>
      cases h
      exact .inl ⟨if_pos hidle, rfl⟩
    next hidle =>
      rw [if_neg hidle]
      split at h
      next hup =>
        cases h
        exact .inr (.inl ⟨if_pos hup, rfl⟩)
      next hup =>
        rw [if_neg hup]
        split at h
        · cases h
        · split at h
          next hsome =>
            cases h
            exact .inr (.inr ⟨rfl, rfl, hsome⟩)
          next => cases h
  · cases h

theorem eq_advance_of_follow (h : s.follow key segment = .ok key') :
    key' = (component? segment).toList.foldl Component.advance key := by
  rcases follow_cases h with ⟨hc, rfl⟩ | ⟨hc, rfl⟩ | ⟨hc, rfl, -⟩ <;> rw [hc] <;> rfl

theorem WellFormed.isSome_of_follow (hs : s.WellFormed) (h : s.follow key segment = .ok key') :
    (s.get? key').isSome = true := by
  have hsome := isSome_of_isDirAt (isDirAt_of_follow h)
  rcases follow_cases h with ⟨-, rfl⟩ | ⟨-, rfl⟩ | ⟨-, -, hnew⟩
  · exact hsome
  · exact isSome_of_isDirAt (hs.isDirAt_dropLast hsome)
  · exact hnew

/-! ## All parts -/

/-- The key that a path leads to. -/
def walk (s : Store) (p : Path) : Except StoreError Key := p.segments.foldlM s.follow (s.start p)

theorem resolve_eq_ok_iff : s.resolve p = .ok key ↔ checkPath p = .ok () ∧ s.walk p = .ok key := by
  constructor
  · intro h
    obtain ⟨_, hcheck, hwalk⟩ := exists_of_bind_eq_ok h
    exact ⟨hcheck, hwalk⟩
  · rintro ⟨hcheck, hwalk⟩
    rw [resolve, hcheck]
    exact hwalk

theorem readText_of_get? {text : String} (h : s.resolve p = .ok key)
    (hget : s.get? key = some (.file (.text text))) : s.readText p = .ok text := by
  rw [readText, h]
  dsimp only [bind, Except.bind]
  rw [hget]

/-- One part further, to a canonical path that is not too long. -/
theorem canonicalStep_eq_ok (h : (do
      let key ← s.follow key segment
      checkLength (pathOf key)
      return key) = Except.ok key') :
    s.follow key segment = .ok key' ∧ checkLength (pathOf key') = .ok () := by
  obtain ⟨mid, hfollow, h⟩ := exists_of_bind_eq_ok h
  obtain ⟨_, hcheck, h⟩ := exists_of_bind_eq_ok h
  cases h
  exact ⟨hfollow, hcheck⟩

/-- The canonical path is that of the key, and it is not too long. -/
theorem walk_of_canonicalKey (h : s.canonicalKey p = .ok key) :
    s.walk p = .ok key ∧ checkLength (pathOf key) = .ok () := by
  -- Every part passes the check, so the last one does, and there is one.
  have hfold (segments : List String) (start : Key)
      (h : segments.foldlM (fun key segment => do
        let key ← s.follow key segment
        checkLength (pathOf key)
        return key) start = .ok key) :
      segments.foldlM s.follow start = .ok key ∧
        (segments ≠ [] → checkLength (pathOf key) = .ok ()) := by
    induction segments generalizing start with
    | nil => exact ⟨h, fun hne => absurd rfl hne⟩
    | cons segment segments ih =>
        obtain ⟨mid, hstep, h⟩ := foldlM_cons_eq_ok_iff.1 h
        obtain ⟨hfollow, hcheck⟩ := canonicalStep_eq_ok hstep
        obtain ⟨hwalk, hlength⟩ := ih mid h
        refine ⟨foldlM_cons_eq_ok_iff.2 ⟨mid, hfollow, hwalk⟩, fun _ => ?_⟩
        cases segments with
        | nil =>
            cases hwalk
            exact hcheck
        | cons => exact hlength (List.cons_ne_nil _ _)
  obtain ⟨_, -, h⟩ := exists_of_bind_eq_ok h
  obtain ⟨hwalk, hlength⟩ := hfold p.segments (s.start p) h
  exact ⟨hwalk, hlength p.segments_ne_nil⟩

theorem eq_advance_of_foldlM {segments : List String}
    (h : segments.foldlM s.follow key = .ok key') :
    key' = (segments.filterMap component?).foldl Component.advance key := by
  induction segments generalizing key with
  | nil =>
      cases h
      rfl
  | cons segment segments ih =>
      obtain ⟨mid, hfollow, h⟩ := foldlM_cons_eq_ok_iff.1 h
      rw [ih h, eq_advance_of_follow hfollow, List.filterMap_cons]
      cases component? segment <;> rfl

/-- Where a path leads is determined by its components. -/
theorem eq_advance_of_walk (h : s.walk p = .ok key) :
    key = p.components.foldl Component.advance s.cwd := by
  obtain ⟨first, rest, hsegments⟩ := List.exists_cons_of_ne_nil p.segments_ne_nil
  rw [walk, hsegments] at h
  obtain ⟨mid, hfollow, hrest⟩ := foldlM_cons_eq_ok_iff.1 h
  rw [eq_advance_of_foldlM hrest, Path.components_of_segments hsegments, List.foldl_append]
  refine congrArg (List.foldl Component.advance · _) ?_
  have hmid := eq_advance_of_follow hfollow
  unfold start at hmid
  split
  next habs =>
    obtain ⟨ss, hempty⟩ := Path.segments_of_isAbsolute habs
    rw [hsegments] at hempty
    cases hempty
    rw [if_pos habs] at hmid
    exact hmid
  next habs =>
    rw [if_neg habs] at hmid
    split
    next hhere =>
      subst hhere
      exact hmid
    next => exact hmid

theorem walk_unique (hc : p.components = q.components) (hp : s.walk p = .ok key)
    (hq : s.walk q = .ok key') : key = key' := by
  rw [eq_advance_of_walk hp, eq_advance_of_walk hq, hc]

theorem WellFormed.isSome_of_foldlM (hs : s.WellFormed) {segments : List String}
    (h : segments.foldlM s.follow key = .ok key') (hkey : (s.get? key).isSome = true) :
    (s.get? key').isSome = true := by
  induction segments generalizing key with
  | nil =>
      cases h
      exact hkey
  | cons segment segments ih =>
      obtain ⟨mid, hfollow, h⟩ := foldlM_cons_eq_ok_iff.1 h
      exact ih h (hs.isSome_of_follow hfollow)

theorem WellFormed.isDirAt_start (hs : s.WellFormed) (p : Path) : s.isDirAt (s.start p) = true := by
  unfold start
  split
  · rfl
  · exact hs.cwd

/-- Something is where a path leads. -/
theorem WellFormed.isSome_of_walk (hs : s.WellFormed) (h : s.walk p = .ok key) :
    (s.get? key).isSome = true :=
  hs.isSome_of_foldlM h (isSome_of_isDirAt (hs.isDirAt_start p))

/-- The last part of a path leads on from where the others lead. -/
theorem exists_follow_of_walk (h : s.walk p = .ok key) :
    ∃ segments segment mid, p.segments = segments ++ [segment] ∧
      segments.foldlM s.follow (s.start p) = .ok mid ∧ s.follow mid segment = .ok key := by
  obtain ⟨segments, segment, hsegments⟩ :
      ∃ segments segment, p.segments = segments ++ [segment] :=
    ⟨_, _, (List.dropLast_concat_getLast p.segments_ne_nil).symm⟩
  rw [walk, hsegments] at h
  obtain ⟨mid, hmid, h⟩ := foldlM_append_eq_ok h
  obtain ⟨key', hfollow, hend⟩ := foldlM_cons_eq_ok_iff.1 h
  cases hend
  exact ⟨segments, segment, mid, hsegments, hmid, hfollow⟩

/-- The path of a file ends in the name of the file. -/
theorem WellFormed.fileName?_of_walk (hs : s.WellFormed) (h : s.walk p = .ok key)
    (hfile : s.isFileAt key = true) :
    ∃ name, p.fileName? = some name ∧ IsName name ∧ key = key.dropLast ++ [name] := by
  obtain ⟨segments, segment, mid, hsegments, -, hfollow⟩ := exists_follow_of_walk h
  have hmid := isDirAt_of_follow hfollow
  have hnotDir := isDirAt_eq_false hfile
  rcases follow_cases hfollow with ⟨-, rfl⟩ | ⟨-, rfl⟩ | ⟨hc, rfl, hsome⟩
  · rw [hmid] at hnotDir
    cases hnotDir
  · rw [hs.isDirAt_dropLast (isSome_of_isDirAt hmid)] at hnotDir
    cases hnotDir
  · refine ⟨segment, Path.fileName?_of_segments hsegments hc, ?_, by rw [List.dropLast_concat]⟩
    exact hs.isName_of_get? hsome segment (List.mem_append_right _ (List.mem_singleton_self _))

/-! ## Joins -/

theorem foldlM_follow_notDirectory (h : s.isDirAt key = false) {segments : List String}
    (hne : segments ≠ []) : segments.foldlM s.follow key = .error .notDirectory := by
  obtain ⟨segment, segments, rfl⟩ := List.exists_cons_of_ne_nil hne
  rw [List.foldlM_cons, follow_notDirectory h]
  rfl

/-- A walk along a join goes on where the walk along the first path ended. -/
theorem walk_join (hq : q.isAbsolute = false) :
    s.walk (p.join q) = (do q.segments.foldlM s.follow (← s.walk p)) := by
  have hempty (key : Key) :
      (do q.segments.foldlM s.follow (← [""].foldlM s.follow key)) =
        q.segments.foldlM s.follow key := by
    cases hdir : s.isDirAt key with
    | true =>
        rw [List.foldlM_cons, follow_idle hdir rfl]
        rfl
    | false =>
        rw [foldlM_follow_notDirectory hdir (List.cons_ne_nil _ _),
          foldlM_follow_notDirectory hdir q.segments_ne_nil]
        rfl
  by_cases hp : p.text = ""
  · obtain ⟨text⟩ := p
    subst hp
    have hjoin : (Path.mk "").join q = q := by simp [Path.join]
    have hstart : s.start q = s.cwd := by simp [start, hq]
    rw [hjoin, walk, hstart]
    exact (hempty s.cwd).symm
  · have hstart : s.start (p.join q) = s.start p := by rw [start, start, Path.isAbsolute_join hq]
    rw [walk, walk, hstart]
    rcases Path.segments_join hp hq with hjoin | ⟨first, rest, hp, hjoin⟩
    · rw [hjoin, List.foldlM_append]
    · rw [hjoin, hp, ← List.cons_append, ← List.cons_append, List.foldlM_append, List.foldlM_append,
        bind_assoc]
      exact bind_congr fun key => (hempty key).symm

theorem walk_join_names (hq : q.MadeOf names) :
    s.walk (p.join q) = (do names.foldlM s.follow (← s.walk p)) := by
  rw [walk_join hq.isAbsolute_eq, hq.segments_eq]

/-- A walk along names goes on from the directory. -/
theorem walk_below (hnames : ∀ name ∈ names, IsName name) :
    s.walk (p.below names) = (do names.foldlM s.follow (← s.walk p)) := by
  induction names generalizing p with
  | nil => exact (bind_pure _).symm
  | cons name names ih =>
      rw [List.forall_mem_cons] at hnames
      show s.walk ((p.join ⟨name⟩).below names) = _
      rw [ih hnames.2, walk_join_names (Path.madeOf_name hnames.1), bind_assoc]
      refine bind_congr fun key => ?_
      rw [List.foldlM_cons, List.foldlM_cons]
      cases s.follow key name <;> rfl

/-- Names lead to the key below, if something is there. -/
theorem WellFormed.foldlM_names (hs : s.WellFormed) (h : (s.get? (key ++ names)).isSome = true) :
    names.foldlM s.follow key = .ok (key ++ names) := by
  induction names generalizing key with
  | nil =>
      rw [List.append_nil]
      rfl
  | cons name names ih =>
      have hnames := hs.isName_of_get? h
      have hdir := hs.isDirAt_append h (List.cons_ne_nil _ _)
      rw [List.append_cons] at h ⊢
      have hsome : (s.get? (key ++ [name])).isSome = true := by
        by_cases hnil : names = []
        · rwa [hnil, List.append_nil] at h
        · exact isSome_of_isDirAt (hs.isDirAt_append h hnil)
      have hname : IsName name := hnames name (by simp)
      rw [List.foldlM_cons, follow_name hdir hname hsome]
      exact ih h

/-- Names lead to the key below, if anywhere. -/
theorem eq_append_of_foldlM_names (hnames : ∀ name ∈ names, IsName name)
    (h : names.foldlM s.follow key = .ok key') : key' = key ++ names := by
  induction names generalizing key with
  | nil =>
      cases h
      exact (List.append_nil _).symm
  | cons name names ih =>
      rw [List.forall_mem_cons] at hnames
      obtain ⟨mid, hfollow, h⟩ := foldlM_cons_eq_ok_iff.1 h
      rw [ih hnames.2 h, eq_advance_of_follow hfollow, Path.component?_eq_name hnames.1,
        List.append_cons]
      rfl

/-- A path with names joined to it leads to the names below where it leads. -/
theorem eq_append_of_walk_join (hq : q.MadeOf names) (h : s.walk (p.join q) = .ok key) :
    ∃ root, s.walk p = .ok root ∧ key = root ++ names := by
  rw [walk_join_names hq] at h
  obtain ⟨root, hroot, h⟩ := exists_of_bind_eq_ok h
  exact ⟨root, hroot, eq_append_of_foldlM_names hq.isName h⟩

end Store

end BuildFix
