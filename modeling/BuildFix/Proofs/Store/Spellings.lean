import BuildFix.Proofs.PathOrder
import BuildFix.Proofs.Store.Exclusion
import BuildFix.Proofs.Verdicts
import Mathlib.Data.Finset.Card
import Mathlib.Data.List.Dedup

/-!
# Files under several spellings

Trees are kept by path, in the strict order of paths (`load_sorted`), so no two of them
have the same components.  They are the trees that the inputs offer, except that those
with the same components are one.

Components are not keys.  A `.` in front of a path is a component, and so is `..`, and a
path may start at the root or not.  So a file is loaded once for each spelling of its
path that the inputs offer (`load_counts_spellings`), and the numbers of a report count
files only if no file is offered under two spellings (`SpelledOnce`).  This is so if the
inputs differ only in names behind a common beginning, however they repeat or overlap.
-/

namespace BuildFix

variable {t : FoundTree} {found trees : List FoundTree} {cs : List Component}

/-! ## Found trees -/

/-- Trees stand in the strict order of their paths. -/
def FoundTree.Sorted (found : List FoundTree) : Prop :=
  found.Pairwise fun t u => t.path.sortKey < u.path.sortKey

namespace Store

/-- The paths of a list with one tree more are that of the tree and those of before. -/
theorem path_of_mem_insert {u : FoundTree} (h : u ∈ t.insert found) :
    u.path = t.path ∨ ∃ v ∈ found, u.path = v.path := by
  rcases insert_cases t found with ⟨-, hmap⟩ | hperm
  · obtain ⟨v, hv, heq⟩ := List.mem_map.1 (hmap ▸ List.mem_map_of_mem h)
    exact .inr ⟨v, hv, heq.symm⟩
  · rcases List.mem_cons.1 (hperm.mem_iff.1 h) with rfl | hu
    · exact .inl rfl
    · exact .inr ⟨u, hu, rfl⟩

theorem sorted_insert (t : FoundTree) (h : FoundTree.Sorted found) :
    FoundTree.Sorted (t.insert found) := by
  induction found with
  | nil => exact List.pairwise_singleton _ t
  | cons u us ih =>
      obtain ⟨hu, hus⟩ := List.pairwise_cons.1 h
      rw [FoundTree.insert]
      split
      next => exact List.pairwise_cons.2 ⟨hu, hus⟩
      next hne =>
        split
        next hle =>
          have hlt : u.path.sortKey < t.path.sortKey :=
            lt_of_le_of_ne (Path.le_iff.1 hle) (mt Path.sortKey_eq_iff.1 hne)
          refine List.pairwise_cons.2 ⟨fun v hv => ?_, ih hus⟩
          rcases path_of_mem_insert hv with heq | ⟨w, hw, heq⟩
          · rwa [heq]
          · rw [heq]
            exact hu w hw
        next hle =>
          have hlt : t.path.sortKey < u.path.sortKey := not_le.1 (mt Path.le_iff.2 hle)
          exact List.pairwise_cons.2
            ⟨List.forall_mem_cons.2 ⟨hlt, fun v hv => hlt.trans (hu v hv)⟩, h⟩

/-- Trees that are added one after the other stay in order. -/
theorem sorted_collect (h : FoundTree.Sorted found) : FoundTree.Sorted (collect found trees) := by
  induction trees generalizing found with
  | nil => exact h
  | cons t trees ih => exact ih (sorted_insert t h)

theorem exists_mem_insert_iff : (∃ u ∈ t.insert found, u.path.components = cs) ↔
    t.path.components = cs ∨ ∃ u ∈ found, u.path.components = cs := by
  rcases insert_cases t found with ⟨⟨v, hv, hsame⟩, hmap⟩ | hperm
  · have hpaths : (∃ u ∈ t.insert found, u.path.components = cs) ↔
        ∃ u ∈ found, u.path.components = cs := by
      simpa using congrArg (fun paths => ∃ p ∈ paths, Path.components p = cs) hmap
    rw [hpaths]
    exact ⟨.inr, fun h => h.elim (fun heq => ⟨v, hv, hsame.trans heq⟩) id⟩
  · simp only [hperm.mem_iff, List.mem_cons, exists_eq_or_imp]

/-- The components of what was collected are those of before and those of what was
added. -/
theorem exists_mem_collect_iff : (∃ u ∈ collect found trees, u.path.components = cs) ↔
    (∃ u ∈ found, u.path.components = cs) ∨ ∃ t ∈ trees, t.path.components = cs := by
  induction trees generalizing found with
  | nil => simp [collect]
  | cons t trees ih =>
      have hstep : collect found (t :: trees) = collect (t.insert found) trees := rfl
      rw [hstep, ih, exists_mem_insert_iff]
      simp only [List.mem_cons, exists_eq_or_imp, or_assoc, or_left_comm]

end Store

/-! ## Loaded trees -/

namespace Store

variable {s : Store} {inputs : List Path} {exclude : Option Path} {loaded : List SourceTree}
  {p q : Path} {key : Key}

/-- The paths of the trees that the inputs offer. -/
def offered (s : Store) (inputs : List Path) (exclude : Option Path) : List Path :=
  (inputs.flatMap (s.offers (exclude.bind fun p => (s.canonicalKey p).toOption))).map
    FoundTree.path

/-- The spellings under which the inputs offer a file. -/
def spellings (s : Store) (inputs : List Path) (exclude : Option Path) (key : Key) :
    List (List Component) :=
  (((s.offered inputs exclude).filter fun p => s.walk p = .ok key).map Path.components).dedup

/-- No file is offered under two spellings. -/
def SpelledOnce (s : Store) (inputs : List Path) (exclude : Option Path) : Prop :=
  ∀ p ∈ s.offered inputs exclude, ∀ q ∈ s.offered inputs exclude, s.walk p = s.walk q →
    p.components = q.components

/-- Trees are loaded in the strict order of their paths. -/
theorem load_sorted (h : s.load inputs exclude = .ok loaded) :
    loaded.Pairwise fun t u => t.path.sortKey < u.path.sortKey := by
  obtain ⟨found, hfind, rfl⟩ := exists_of_map_eq_ok h
  obtain ⟨-, rfl⟩ := foldlM_findInput_eq_ok hfind
  rw [List.pairwise_map]
  exact sorted_collect List.Pairwise.nil

/-- No two trees that are loaded have the same components. -/
theorem load_nodup (h : s.load inputs exclude = .ok loaded) :
    (loaded.map fun t => t.path.components).Nodup := by
  rw [List.Nodup, List.pairwise_map]
  exact (load_sorted h).imp fun hlt heq => hlt.ne (Path.sortKey_eq_iff.2 heq)

/-- The trees that are loaded have the components that are offered. -/
theorem exists_mem_load_iff (h : s.load inputs exclude = .ok loaded) :
    (∃ t ∈ loaded, t.path.components = cs) ↔
      ∃ p ∈ s.offered inputs exclude, p.components = cs := by
  obtain ⟨found, hfind, rfl⟩ := exists_of_map_eq_ok h
  obtain ⟨-, rfl⟩ := foldlM_findInput_eq_ok hfind
  rw [offered]
  generalize inputs.flatMap _ = offers
  have hcollect : (∃ t ∈ collect [] offers, t.path.components = cs) ↔ _ :=
    exists_mem_collect_iff
  simpa using hcollect

theorem exists_walk_of_load (hs : s.WellFormed) (h : s.load inputs exclude = .ok loaded)
    {t : SourceTree} (ht : t ∈ loaded) : ∃ key, s.walk t.path = .ok key := by
  obtain ⟨key, hwalk, -⟩ := (leadTo_load hs h).leads _ (List.mem_map_of_mem ht)
  exact ⟨key, hwalk⟩

/-- A path that is offered is an input or lies below one, and leads to a file. -/
theorem exists_of_mem_offered (hs : s.WellFormed) (hp : p ∈ s.offered inputs exclude) :
    ∃ input ∈ inputs, ∃ (names : List String) (key : Key),
      p.components = input.components ++ names.map .name ∧ s.walk p = .ok key := by
  obtain ⟨t, ht, rfl⟩ := List.mem_map.1 hp
  obtain ⟨input, hinput, ht⟩ := List.mem_flatMap.1 ht
  obtain ⟨root, -, ⟨-, rfl, hwalk⟩ | ⟨-, names, hreaches, rfl, hwalk⟩⟩ := walk_of_mem_offers hs ht
  · exact ⟨input, hinput, [], root, (List.append_nil _).symm, hwalk⟩
  · have hnames := (madeOf_below hs input hreaches).isName
    exact ⟨input, hinput, names, _, Path.components_below hnames, hwalk⟩

/-- A tree that is loaded leads where a path leads that is offered and has its
components. -/
theorem walk_loaded_eq (hs : s.WellFormed) (h : s.load inputs exclude = .ok loaded)
    {t : SourceTree} (ht : t ∈ loaded) (hp : p ∈ s.offered inputs exclude)
    (hc : t.path.components = p.components) : s.walk t.path = s.walk p := by
  obtain ⟨key, hkey⟩ := exists_walk_of_load hs h ht
  obtain ⟨-, -, -, key', -, hkey'⟩ := exists_of_mem_offered hs hp
  rw [hkey, hkey', walk_unique hc hkey hkey']

theorem exists_offered (hs : s.WellFormed) (h : s.load inputs exclude = .ok loaded)
    {t : SourceTree} (ht : t ∈ loaded) : ∃ p ∈ s.offered inputs exclude,
      t.path.components = p.components ∧ s.walk t.path = s.walk p := by
  obtain ⟨p, hp, hc⟩ := (exists_mem_load_iff h).1 ⟨t, ht, rfl⟩
  exact ⟨p, hp, hc.symm, walk_loaded_eq hs h ht hp hc.symm⟩

theorem exists_loaded (hs : s.WellFormed) (h : s.load inputs exclude = .ok loaded)
    (hp : p ∈ s.offered inputs exclude) :
    ∃ t ∈ loaded, t.path.components = p.components ∧ s.walk t.path = s.walk p := by
  obtain ⟨t, ht, hc⟩ := (exists_mem_load_iff h).2 ⟨p, hp, rfl⟩
  exact ⟨t, ht, hc, walk_loaded_eq hs h ht hp hc⟩

/-- A spelling of a file is that of a loaded tree which leads there. -/
theorem mem_spellings_iff (hs : s.WellFormed) (h : s.load inputs exclude = .ok loaded) :
    cs ∈ s.spellings inputs exclude key ↔
      ∃ t ∈ loaded, s.walk t.path = .ok key ∧ t.path.components = cs := by
  simp only [spellings, List.mem_dedup, List.mem_map, List.mem_filter, decide_eq_true_eq]
  constructor
  · rintro ⟨p, ⟨hp, hwalk⟩, rfl⟩
    obtain ⟨t, ht, hc, heq⟩ := exists_loaded hs h hp
    exact ⟨t, ht, heq.trans hwalk, hc⟩
  · rintro ⟨t, ht, hwalk, rfl⟩
    obtain ⟨p, hp, hc, heq⟩ := exists_offered hs h ht
    exact ⟨p, ⟨hp, heq.symm.trans hwalk⟩, hc.symm⟩

/-- A file is loaded once for each of its spellings. -/
theorem countP_load (hs : s.WellFormed) (h : s.load inputs exclude = .ok loaded) (key : Key) :
    loaded.countP (fun t => s.walk t.path = .ok key) = (s.spellings inputs exclude key).length := by
  have hloaded : ((loaded.filter fun t => s.walk t.path = .ok key).map
      fun t => t.path.components).Nodup :=
    (load_nodup h).sublist (List.filter_sublist.map _)
  have hspellings : (s.spellings inputs exclude key).Nodup := List.nodup_dedup _
  have hperm := (List.perm_ext_iff_of_nodup hloaded hspellings).2 fun cs => by
    rw [mem_spellings_iff hs h]
    simp [and_assoc]
  rw [List.countP_eq_length_filter, ← hperm.length_eq, List.length_map]

/-- Every file is loaded once exactly when none is offered under two spellings. -/
theorem spelledOnce_iff (hs : s.WellFormed) (h : s.load inputs exclude = .ok loaded) :
    s.SpelledOnce inputs exclude ↔ (loaded.map fun t => s.walk t.path).Nodup := by
  constructor
  · intro honce
    rw [List.Nodup, List.pairwise_map]
    refine (List.pairwise_map.1 (load_nodup h)).imp_of_mem fun {t u} ht hu hne hwalk => hne ?_
    obtain ⟨p, hp, hpc, hpwalk⟩ := exists_offered hs h ht
    obtain ⟨q, hq, hqc, hqwalk⟩ := exists_offered hs h hu
    rw [hpc, hqc]
    exact honce p hp q hq (by rw [← hpwalk, ← hqwalk, hwalk])
  · intro hnodup p hp q hq hwalk
    obtain ⟨t, ht, htc, htwalk⟩ := exists_loaded hs h hp
    obtain ⟨u, hu, huc, huwalk⟩ := exists_loaded hs h hq
    rw [← htc, ← huc, List.inj_on_of_nodup_map hnodup ht hu (by rw [htwalk, huwalk, hwalk])]

/-! ## Inputs with a common beginning -/

theorem foldl_advance_names (key : Key) (names : List String) :
    (names.map Component.name).foldl Component.advance key = key ++ names := by
  induction names generalizing key with
  | nil => exact (List.append_nil key).symm
  | cons name names ih => exact (ih _).trans (List.append_cons key name names).symm

/-- Inputs that differ only in names behind a common beginning offer no file under two
spellings. -/
theorem spelledOnce_of_base (hs : s.WellFormed) (exclude : Option Path) {base : List Component}
    (hbase : ∀ input ∈ inputs, ∃ names : List String,
      input.components = base ++ names.map .name) : s.SpelledOnce inputs exclude := by
  have hoffered {p : Path} (hp : p ∈ s.offered inputs exclude) : ∃ names : List String,
      p.components = base ++ names.map .name ∧
        s.walk p = .ok (base.foldl Component.advance s.cwd ++ names) := by
    obtain ⟨input, hinput, names, key, hc, hwalk⟩ := exists_of_mem_offered hs hp
    obtain ⟨names', hnames'⟩ := hbase input hinput
    rw [hnames', List.append_assoc, ← List.map_append] at hc
    refine ⟨names' ++ names, hc, ?_⟩
    rw [hwalk, eq_advance_of_walk hwalk, hc, List.foldl_append, foldl_advance_names]
  intro p hp q hq hwalk
  obtain ⟨names, hc, hkey⟩ := hoffered hp
  obtain ⟨names', hc', hkey'⟩ := hoffered hq
  rw [hkey, hkey'] at hwalk
  rw [hc, hc', List.append_cancel_left (Except.ok.inj hwalk)]

end Store

/-! ## Counting files -/

namespace Outcome

variable {o : Outcome} {s : Store} {tool : Tool} {span : Span} {status : TreeStatus}

/-- The files of the trees that came to a status. -/
def files (o : Outcome) (s : Store) (status : TreeStatus) : Finset Key :=
  ((o.trees.filter (·.status == status)).filterMap fun t => (s.walk t.path).toOption).toFinset

theorem get_counts (o : Outcome) (tool : Tool) (span : Span) (status : TreeStatus) :
    (o.report tool span).counts.get status = (o.trees.filter (·.status == status)).length := by
  show (Counts.of (o.trees.map ProcessedTree.entry)).get status = _
  rw [Counts.get_of, List.countP_map, List.countP_eq_length_filter]
  simp only [Function.comp_def, ProcessedTree.status_entry]

/-- The counts of a report are numbers of files if every file is that of one tree. -/
theorem get_counts_eq_card (hwalks : ∀ t ∈ o.trees, ∃ key, s.walk t.path = .ok key)
    (hnodup : (o.trees.map fun t => s.walk t.path).Nodup) :
    (o.report tool span).counts.get status = (o.files s status).card := by
  have hkeys : ((o.trees.filter (·.status == status)).filterMap
      fun t => (s.walk t.path).toOption).Nodup := by
    rw [List.Nodup, List.pairwise_filterMap]
    refine ((List.pairwise_map.1 hnodup).sublist List.filter_sublist).imp ?_
    rintro t u hne key hkey key' hkey' rfl
    exact hne ((toOption_eq_some_iff.1 hkey).trans (toOption_eq_some_iff.1 hkey').symm)
  have hlength : ((o.trees.filter (·.status == status)).filterMap
      fun t => (s.walk t.path).toOption).length = (o.trees.filter (·.status == status)).length := by
    refine List.filterMap_length_eq_length.2 fun t ht => ?_
    obtain ⟨key, hkey⟩ := hwalks t (List.mem_of_mem_filter ht)
    rw [hkey]
    rfl
  rw [get_counts, files, List.toFinset_card_of_nodup hkeys, hlength]

theorem eq_pending_of_check {n : Nat} (h : o.check = .error (.pending n)) : n = o.pending := by
  unfold check at h
  split at h
  · exact (RunError.pending.inj (Except.error.inj h)).symm
  · cases h

end Outcome

/-- A file is loaded once for each spelling under which the inputs offer it, so every file
is loaded once exactly when none is offered under two.  Inputs that differ only in names
behind a common beginning offer no file under two spellings.  Then the counts of a report
are numbers of files, and so is the number that a run tells which only checks. -/
theorem Store.load_counts_spellings {s : Store} {inputs : List Path} {exclude : Option Path}
    {loaded : List SourceTree} (hs : s.WellFormed) (hload : s.load inputs exclude = .ok loaded) :
    (∀ key, loaded.countP (fun t => s.walk t.path = .ok key) =
      (s.spellings inputs exclude key).length) ∧
    (s.SpelledOnce inputs exclude ↔ (loaded.map fun t => s.walk t.path).Nodup) ∧
    (∀ base : List Component, (∀ input ∈ inputs, ∃ names : List String,
      input.components = base ++ names.map .name) → s.SpelledOnce inputs exclude) ∧
    (s.SpelledOnce inputs exclude → ∀ (settings : Settings) o, settings.run (.ok loaded) = .ok o →
      (∀ tool span status, (o.report tool span).counts.get status = (o.files s status).card) ∧
      ∀ n, o.check = .error (.pending n) → n = (o.files s .fixed).card) := by
  refine ⟨countP_load hs hload, spelledOnce_iff hs hload,
    fun base hbase => spelledOnce_of_base hs exclude hbase, fun honce settings o hrun => ?_⟩
  obtain ⟨-, trees, htrees, ho⟩ := Settings.run_eq_ok_iff.1 hrun
  cases htrees
  have hcounts (tool : Tool) (span : Span) (status : TreeStatus) :
      (o.report tool span).counts.get status = (o.files s status).card := by
    refine Outcome.get_counts_eq_card (fun t ht => ?_) ?_
    · rw [ho] at ht
      obtain ⟨tree, htree, rfl⟩ := List.mem_map.1 ht
      exact exists_walk_of_load hs hload htree
    · rw [ho, List.map_map]
      exact (spelledOnce_iff hs hload).1 honce
  refine ⟨hcounts, fun n hn => ?_⟩
  rw [Outcome.eq_pending_of_check hn]
  exact hcounts default default .fixed

/-! ## One file -/

/-- A store with one tree. -/
def lone : Store where
  nodes := [(["BUILD.json"], .file (.text (unloaded "a").text))]

/-- The tree under a spelling. -/
def loneTree (spelling : String) : SourceTree :=
  ⟨⟨spelling⟩, ⟨"BUILD.json"⟩, .ok (unloaded "a")⟩

/-- Inputs that name the tree again and again. -/
def loneRepeated : List Path := [⟨"."⟩, ⟨"./BUILD.json"⟩, ⟨".//BUILD.json"⟩, ⟨"./."⟩]

/-- Inputs that all begin in the directory itself have the tree loaded once. -/
theorem lone_loaded_once : lone.WellFormed ∧
    lone.load loneRepeated none = .ok [loneTree "./BUILD.json"] ∧
    lone.SpelledOnce loneRepeated none ∧
    (lone.spellings loneRepeated none ["BUILD.json"]).length = 1 ∧
    ∃ o, Settings.run { check := true } (.ok [loneTree "./BUILD.json"]) = .ok o ∧
      (o.files lone .fixed).card = 1 := by
  have hs : lone.WellFormed := by decide +kernel
  have hload : lone.load loneRepeated none = .ok [loneTree "./BUILD.json"] :=
    Store.load_of_find (by decide +kernel) fun t ht => by
      rw [List.mem_singleton.1 ht]
      exact Store.treeAt_text rfl (by decide +kernel)
  obtain ⟨hcount, -, hbase, hfiles⟩ := Store.load_counts_spellings hs hload
  have honce : lone.SpelledOnce loneRepeated none := by
    refine hbase [.here] fun input hinput => ?_
    simp only [loneRepeated, List.mem_cons, List.not_mem_nil, or_false] at hinput
    rcases hinput with rfl | rfl | rfl | rfl
    · exact ⟨[], by decide +kernel⟩
    · exact ⟨["BUILD.json"], by decide +kernel⟩
    · exact ⟨["BUILD.json"], by decide +kernel⟩
    · exact ⟨[], by decide +kernel⟩
  refine ⟨hs, hload, honce, ?_, _, rfl, ?_⟩
  · rw [← hcount]
    decide +kernel
  · exact ((hfiles honce { check := true } _ rfl).2 1 (by decide +kernel)).symm

/-- With and without a `.` in front the tree is loaded twice, and a run that only checks
tells of two files. -/
theorem lone_loaded_twice : lone.WellFormed ∧
    lone.load [⟨"BUILD.json"⟩, ⟨"./BUILD.json"⟩] none =
      .ok [loneTree "./BUILD.json", loneTree "BUILD.json"] ∧
    lone.walk (loneTree "./BUILD.json").path = .ok ["BUILD.json"] ∧
    lone.walk (loneTree "BUILD.json").path = .ok ["BUILD.json"] ∧
    (Settings.run { check := true }
      (.ok [loneTree "./BUILD.json", loneTree "BUILD.json"])).bind Outcome.check =
        .error (.pending 2) := by
  refine ⟨by decide +kernel, ?_, by decide +kernel, by decide +kernel, by decide +kernel⟩
  refine Store.load_of_find (by decide +kernel) fun t ht => ?_
  rcases List.mem_pair.1 ht with rfl | rfl
  · exact Store.treeAt_text rfl (by decide +kernel)
  · exact Store.treeAt_text rfl (by decide +kernel)

end BuildFix
