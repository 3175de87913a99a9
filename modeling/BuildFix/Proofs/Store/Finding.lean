import BuildFix.Proofs.Store.Walks
import Mathlib.Data.List.Nodup

/-!
# What is found

Trees that are found lead to keys, and `LeadTo` says to which.  Adding a tree adds
the key it leads to (`leadTo_insert`).  Where another tree has the same components the
list keeps its path, which leads to the same key.

An input that is a file offers itself.  A directory offers the files of the walk below
it (`offers`), which are the files with the right ending that no excluded directory is
above (`reaches_iff`).  What is found leads to what the inputs offer (`leadTo_collect`),
and loses none of it where the components differ (`collect_perm`), as they do below a
single input (`offers_nodup`).
-/

namespace BuildFix

namespace Store

variable {s : Store} {p : Path} {key root dir excl : Key} {name : String} {names : List String}
  {paths : List Path} {excluded : Option Key} {found found' : List FoundTree} {t : FoundTree}
  {P : Key → Prop}

/-! ## Paths and their keys -/

/-- Paths lead to the keys that have a property, and to no others. -/
structure LeadTo (s : Store) (paths : List Path) (P : Key → Prop) : Prop where
  /-- Every path leads to such a key. -/
  leads : ∀ p ∈ paths, ∃ key, s.walk p = .ok key ∧ P key
  /-- Some path leads to it. -/
  reached : ∀ key, P key → ∃ p ∈ paths, s.walk p = .ok key

namespace LeadTo

theorem nil (s : Store) : s.LeadTo [] fun _ => False := ⟨fun _ => nofun, fun _ => nofun⟩

theorem congr {Q : Key → Prop} (h : s.LeadTo paths P) (heq : ∀ key, P key ↔ Q key) :
    s.LeadTo paths Q :=
  (funext fun key => propext (heq key) : P = Q) ▸ h

theorem iff (h : s.LeadTo paths P) : (∃ p ∈ paths, s.walk p = .ok key) ↔ P key := by
  refine ⟨fun ⟨p, hp, hwalk⟩ => ?_, h.reached key⟩
  obtain ⟨key', hwalk', hP⟩ := h.leads p hp
  rw [hwalk] at hwalk'
  cases hwalk'
  exact hP

theorem perm {paths' : List Path} (h : s.LeadTo paths P) (hperm : paths'.Perm paths) :
    s.LeadTo paths' P where
  leads p hp := h.leads p (hperm.mem_iff.1 hp)
  reached key hkey := by
    obtain ⟨p, hp, hwalk⟩ := h.reached key hkey
    exact ⟨p, hperm.mem_iff.2 hp, hwalk⟩

theorem cons (h : s.LeadTo paths P) (hp : s.walk p = .ok key) :
    s.LeadTo (p :: paths) fun k => P k ∨ k = key where
  leads q hq := by
    rcases List.mem_cons.1 hq with rfl | hq
    · exact ⟨key, hp, .inr rfl⟩
    · obtain ⟨k, hwalk, hk⟩ := h.leads q hq
      exact ⟨k, hwalk, .inl hk⟩
  reached k hk := by
    rcases hk with hk | rfl
    · obtain ⟨q, hq, hwalk⟩ := h.reached k hk
      exact ⟨q, List.mem_cons_of_mem p hq, hwalk⟩
    · exact ⟨p, List.mem_cons_self, hp⟩

/-- A path with the components of one that is there adds nothing. -/
theorem same {q : Path} (h : s.LeadTo paths P) (hp : s.walk p = .ok key) (hq : q ∈ paths)
    (hc : q.components = p.components) : s.LeadTo paths fun k => P k ∨ k = key := by
  refine h.congr fun k => ⟨.inl, fun hk => hk.elim id ?_⟩
  rintro rfl
  obtain ⟨key', hwalk, hkey'⟩ := h.leads q hq
  rwa [walk_unique hc.symm hp hwalk]

end LeadTo

/-- A tree is put among the others, unless one of them has its components and keeps its
path. -/
theorem insert_cases (t : FoundTree) (found : List FoundTree) :
    ((∃ u ∈ found, u.path.components = t.path.components) ∧
        (t.insert found).map FoundTree.path = found.map FoundTree.path) ∨
      (t.insert found).Perm (t :: found) := by
  induction found with
  | nil => exact .inr (.refl _)
  | cons u us ih =>
      rw [FoundTree.insert]
      split
      next heq => exact .inl ⟨⟨u, List.mem_cons_self, heq⟩, rfl⟩
      next =>
        split
        · rcases ih with ⟨⟨v, hv, heq⟩, hmap⟩ | hperm
          · exact .inl ⟨⟨v, List.mem_cons_of_mem u hv, heq⟩, congrArg (u.path :: ·) hmap⟩
          · exact .inr ((hperm.cons u).trans (.swap ..))
        · exact .inr (.refl _)

/-- A tree that is added leads to its key, itself or by a tree with the same components. -/
theorem leadTo_insert (h : s.LeadTo (found.map FoundTree.path) P) (ht : s.walk t.path = .ok key) :
    s.LeadTo ((t.insert found).map FoundTree.path) fun k => P k ∨ k = key := by
  rcases insert_cases t found with ⟨⟨u, hu, hc⟩, hmap⟩ | hperm
  · rw [hmap]
    exact h.same ht (List.mem_map_of_mem hu) hc
  · exact (h.cons ht).perm (hperm.map _)

/-! ## The walk below a directory -/

/-- A tree can be where a key leads. -/
def IsTreeFile (s : Store) (key : Key) : Prop :=
  s.isFileAt key = true ∧ ∃ name, key.getLast? = some name ∧ Path.extension? name = some "json"

theorem reaches_singleton :
    s.reaches excluded dir [name] = true ↔ s.IsTreeFile (dir ++ [name]) := by
  simp [reaches, IsTreeFile, and_comm]

theorem reaches_cons (hne : names ≠ []) : s.reaches excluded dir (name :: names) = true ↔
    s.isDirAt (dir ++ [name]) = true ∧ isExcluded excluded (dir ++ [name]) = false ∧
      s.reaches excluded (dir ++ [name]) names = true := by
  obtain ⟨name', names, rfl⟩ := List.exists_cons_of_ne_nil hne
  simp [reaches, and_assoc]

theorem one_lt_length_append {front back : List String} (hfront : front ≠ []) (hback : back ≠ []) :
    1 < (front ++ back).length := by
  have hf := List.length_pos_iff.2 hfront
  have hb := List.length_pos_iff.2 hback
  rw [List.length_append]
  omega

/-- The walk comes to the files with the right ending that no excluded directory is
above. -/
theorem reaches_iff (hs : s.WellFormed) :
    s.reaches excluded dir names = true ↔ names ≠ [] ∧ s.IsTreeFile (dir ++ names) ∧
      ∀ front back, names = front ++ back → front ≠ [] → back ≠ [] →
        isExcluded excluded (dir ++ front) = false := by
  induction names generalizing dir with
  | nil => simp [reaches]
  | cons name names ih =>
      by_cases hne : names = []
      · subst hne
        rw [reaches_singleton]
        refine ⟨fun h => ⟨List.cons_ne_nil _ _, h, fun front back heq hfront hback => ?_⟩,
          fun h => h.2.1⟩
        have hlength := one_lt_length_append hfront hback
        rw [← heq] at hlength
        exact absurd hlength (Nat.lt_irrefl 1)
      · rw [reaches_cons hne, ih, List.append_cons dir name names]
        constructor
        · rintro ⟨-, hexcl, -, hfile, habove⟩
          refine ⟨List.cons_ne_nil _ _, hfile, fun front back heq hfront hback => ?_⟩
          obtain ⟨x, front, rfl⟩ := List.exists_cons_of_ne_nil hfront
          cases heq
          rw [List.append_cons dir name front]
          by_cases hnil : front = []
          · rwa [hnil, List.append_nil]
          · exact habove front back rfl hnil hback
        · rintro ⟨-, hfile, habove⟩
          refine ⟨hs.isDirAt_append (isSome_of_isFileAt hfile.1) hne,
            habove [name] names rfl (List.cons_ne_nil _ _) hne, hne, hfile, ?_⟩
          intro front back heq hfront hback
          rw [← List.append_cons dir name front]
          exact habove (name :: front) back (by rw [heq]; rfl) (List.cons_ne_nil _ _) hback

theorem mem_treesBelow_iff (hs : s.WellFormed) :
    names ∈ s.treesBelow excluded dir ↔ s.reaches excluded dir names = true := by
  rw [treesBelow, List.mem_filter]
  refine ⟨And.right, fun h => ⟨?_, h⟩⟩
  obtain ⟨hne, hfile, -⟩ := (reaches_iff hs).1 h
  obtain ⟨content, hget⟩ := isFileAt_iff.1 hfile.1
  have hmem := mem_nodes_of_get? hget (by simp [hne])
  refine List.mem_map.2 ⟨_, hmem, ?_⟩
  rw [namesBelow, if_pos (List.isPrefixOf_iff_prefix.2 (List.prefix_append _ _)), List.drop_left]

end Store

/-! ## What inputs offer -/

namespace FoundTree

/-- The tree that is reached from an input by names. -/
def below (input : Path) (names : List String) : FoundTree :=
  ⟨input.below names, ⟨"/".intercalate names⟩⟩

/-- The tree of an input that is a file. -/
def ofFile (input : Path) : FoundTree :=
  ⟨input, match input.fileName? with
    | some name => ⟨name⟩
    | none => input⟩

end FoundTree

namespace Store

variable {s : Store} {input : Path} {key root : Key} {names : List String} {inputs : List Path}
  {excluded : Option Key} {exclude : Option Path} {found found' : List FoundTree} {t : FoundTree}
  {P : Key → Prop}

/-- The trees that an input adds. -/
def offers (s : Store) (excluded : Option Key) (input : Path) : List FoundTree :=
  match s.resolve input with
  | .error _ => []
  | .ok root =>
      if s.isDirAt root then (s.treesBelow excluded root).map (.below input) else [.ofFile input]

/-- Trees added one after the other. -/
def collect (found trees : List FoundTree) : List FoundTree :=
  trees.foldl (fun found t => t.insert found) found

theorem collect_append (found trees trees' : List FoundTree) :
    collect found (trees ++ trees') = collect (collect found trees) trees' :=
  List.foldl_append

/-- The directories below an input are listed, or one of their paths is too long. -/
def listBelow (s : Store) (excluded : Option Key) (input : Path) (root : Key) :
    Except InputError Unit :=
  (s.dirsBelow excluded root).forM fun names =>
    (checkLength (input.below names)).mapError (.listing (input.below names))

theorem listBelow_eq_error {e : InputError} (h : s.listBelow excluded input root = .error e) :
    ∃ names, pathLimit < (input.below names).text.utf8ByteSize ∧
      e = .listing (input.below names) .tooLong := by
  obtain ⟨names, -, hcheck⟩ := forM_eq_error h
  refine ⟨names, ?_⟩
  unfold checkLength at hcheck
  split at hcheck
  next hlong =>
    cases hcheck
    exact ⟨hlong, rfl⟩
  next => cases hcheck

theorem findInput_dir (hroot : s.resolve input = .ok root) (hdir : s.isDirAt root = true) :
    s.findInput excluded found input =
      (s.listBelow excluded input root).map fun _ => collect found (s.offers excluded input) := by
  simp only [findInput, offers, hroot, hdir, if_true, collect, List.foldl_map]
  rfl

theorem findInput_file (hroot : s.resolve input = .ok root) (hfile : s.isDirAt root = false) :
    s.findInput excluded found input = .ok (collect found (s.offers excluded input)) := by
  simp only [findInput, offers, hroot, hfile]
  rfl

/-- An input adds what it offers. -/
theorem findInput_eq_ok (h : s.findInput excluded found input = .ok found') :
    (∃ root, s.resolve input = .ok root) ∧ found' = collect found (s.offers excluded input) := by
  cases hroot : s.resolve input with
  | error e =>
      rw [findInput, hroot] at h
      cases h
  | ok root =>
      refine ⟨⟨root, rfl⟩, ?_⟩
      cases hdir : s.isDirAt root with
      | false =>
          rw [findInput_file hroot hdir] at h
          cases h
          rfl
      | true =>
          rw [findInput_dir hroot hdir] at h
          obtain ⟨_, -, rfl⟩ := exists_of_map_eq_ok h
          rfl

/-- An input that is a directory fails only if a directory below has too long a path. -/
theorem findInput_eq_error {e : InputError} (hinput : s.isDir input = true)
    (h : s.findInput excluded found input = .error e) :
    ∃ names, pathLimit < (input.below names).text.utf8ByteSize ∧
      e = .listing (input.below names) .tooLong := by
  unfold isDir at hinput
  split at hinput
  next root hroot =>
    rw [findInput_dir hroot hinput] at h
    cases hlist : s.listBelow excluded input root with
    | error e' =>
        rw [hlist] at h
        cases h
        exact listBelow_eq_error hlist
    | ok _ =>
        rw [hlist] at h
        cases h
  next => cases hinput

/-- What is found is what the inputs offer, one tree after the other. -/
theorem foldlM_findInput_eq_ok (h : inputs.foldlM (s.findInput excluded) found = .ok found') :
    (∀ input ∈ inputs, ∃ root, s.resolve input = .ok root) ∧
      found' = collect found (inputs.flatMap (s.offers excluded)) := by
  induction inputs generalizing found with
  | nil =>
      cases h
      exact ⟨fun _ => nofun, rfl⟩
  | cons input inputs ih =>
      obtain ⟨mid, hmid, hrest⟩ := foldlM_cons_eq_ok_iff.1 h
      obtain ⟨hroot, rfl⟩ := findInput_eq_ok hmid
      obtain ⟨hroots, rfl⟩ := ih hrest
      rw [List.flatMap_cons, collect_append]
      exact ⟨List.forall_mem_cons.2 ⟨hroot, hroots⟩, rfl⟩

/-! ## Where found trees lead -/

theorem walk_below_of_reaches (hs : s.WellFormed) (hroot : s.resolve input = .ok root)
    (h : s.reaches excluded root names = true) :
    s.walk (input.below names) = .ok (root ++ names) := by
  have hsome := isSome_of_isFileAt ((reaches_iff hs).1 h).2.1.1
  have hnames := hs.isName_of_get? hsome
  rw [walk_below fun name hname => hnames name (List.mem_append_right _ hname),
    (resolve_eq_ok_iff.1 hroot).2]
  exact hs.foldlM_names hsome

/-- A tree that is offered leads to the file of the input, or to a file that the walk
below the input comes to. -/
theorem walk_of_mem_offers (hs : s.WellFormed) (h : t ∈ s.offers excluded input) :
    ∃ root, s.resolve input = .ok root ∧
      ((s.isDirAt root = false ∧ t = .ofFile input ∧ s.walk t.path = .ok root) ∨
        s.isDirAt root = true ∧ ∃ names, s.reaches excluded root names = true ∧
          t = .below input names ∧ s.walk t.path = .ok (root ++ names)) := by
  unfold offers at h
  split at h
  next => cases h
  next root hroot =>
    refine ⟨root, hroot, ?_⟩
    split at h
    next hdir =>
      obtain ⟨names, hnames, rfl⟩ := List.mem_map.1 h
      have hreaches := (mem_treesBelow_iff hs).1 hnames
      exact .inr ⟨hdir, names, hreaches, rfl, walk_below_of_reaches hs hroot hreaches⟩
    next hfile =>
      rw [List.mem_singleton] at h
      subst h
      exact .inl ⟨by simpa using hfile, rfl, (resolve_eq_ok_iff.1 hroot).2⟩

/-- Trees that are added lead to their keys. -/
theorem leadTo_collect {trees : List FoundTree} (h : s.LeadTo (found.map FoundTree.path) P)
    (hwalks : ∀ t ∈ trees, ∃ key, s.walk t.path = .ok key) :
    s.LeadTo ((collect found trees).map FoundTree.path)
      fun k => P k ∨ ∃ t ∈ trees, s.walk t.path = .ok k := by
  induction trees generalizing found P with
  | nil => exact h.congr fun k => by simp
  | cons t trees ih =>
      rw [List.forall_mem_cons] at hwalks
      obtain ⟨⟨key, hkey⟩, hwalks⟩ := hwalks
      refine (ih (leadTo_insert h hkey) hwalks).congr fun k => ?_
      have heq : k = key ↔ s.walk t.path = .ok k := by
        rw [hkey, Except.ok.injEq, eq_comm]
      simp only [heq, or_assoc, List.mem_cons, exists_eq_or_imp]

/-! ## Places below inputs -/

/-- The place of a tree in a list with one tree more is the place of that tree or one of
before. -/
theorem relPath_of_mem_insert {u : FoundTree} (h : u ∈ t.insert found) :
    u.relPath = t.relPath ∨ u ∈ found := by
  induction found with
  | nil => exact .inl (by rw [List.mem_singleton.1 h])
  | cons v vs ih =>
      rw [FoundTree.insert] at h
      split at h
      · rcases List.mem_cons.1 h with rfl | h
        · exact .inl rfl
        · exact .inr (List.mem_cons_of_mem v h)
      · split at h
        · rcases List.mem_cons.1 h with rfl | h
          · exact .inr List.mem_cons_self
          · exact (ih h).imp_right (List.mem_cons_of_mem v)
        · rcases List.mem_cons.1 h with rfl | h
          · exact .inl rfl
          · exact .inr h

/-- The place of a tree that was collected is that of an added one or one of before. -/
theorem relPath_of_mem_collect {u : FoundTree} {trees : List FoundTree}
    (h : u ∈ collect found trees) : (∃ t ∈ trees, u.relPath = t.relPath) ∨ u ∈ found := by
  induction trees generalizing found with
  | nil => exact .inr h
  | cons t trees ih =>
      rcases ih h with ⟨v, hv, heq⟩ | h
      · exact .inl ⟨v, List.mem_cons_of_mem t hv, heq⟩
      · exact (relPath_of_mem_insert h).imp_left fun heq => ⟨t, List.mem_cons_self, heq⟩

/-- The place of a tree that the walk comes to is made of the names that lead there. -/
theorem madeOf_below (hs : s.WellFormed) (input : Path) (h : s.reaches excluded root names = true) :
    (FoundTree.below input names).relPath.MadeOf names := by
  obtain ⟨hne, htree, -⟩ := (reaches_iff hs).1 h
  have hnames := hs.isName_of_get? (isSome_of_isFileAt htree.1)
  exact ⟨hne, fun name hname => hnames name (List.mem_append_right _ hname), rfl⟩

/-- The place of a tree below an input is made of names. -/
theorem madeOf_of_mem_offers (hs : s.WellFormed) (h : t ∈ s.offers excluded input) :
    ∃ names, t.relPath.MadeOf names := by
  obtain ⟨root, hroot, ⟨hfile, rfl, hwalk⟩ | ⟨-, names, hreaches, rfl, -⟩⟩ :=
    walk_of_mem_offers hs h
  · have hsome := hs.isSome_of_walk hwalk
    have hisFile : s.isFileAt root = true := by
      obtain ⟨node, hnode⟩ := Option.isSome_iff_exists.1 hsome
      cases node with
      | dir =>
          rw [isDirAt_iff.2 hnode] at hfile
          cases hfile
      | file content => exact isFileAt_iff.2 ⟨content, hnode⟩
    obtain ⟨name, hname, hIsName, -⟩ := hs.fileName?_of_walk hwalk hisFile
    refine ⟨[name], ?_⟩
    have hrel : (FoundTree.ofFile input).relPath = ⟨name⟩ := by
      have : input.fileName? = some name := hname
      simp only [FoundTree.ofFile, this]
    rw [hrel]
    exact Path.madeOf_name hIsName
  · exact ⟨names, madeOf_below hs input hreaches⟩

/-! ## The trees of one input -/

/-- Trees with different components are all kept. -/
theorem collect_perm {trees : List FoundTree}
    (h : (trees.map fun t => t.path.components).Nodup)
    (hnew : ∀ t ∈ trees, ∀ u ∈ found, u.path.components ≠ t.path.components) :
    (collect found trees).Perm (trees ++ found) := by
  induction trees generalizing found with
  | nil => exact .refl _
  | cons t trees ih =>
      rw [List.map_cons, List.nodup_cons] at h
      rw [List.forall_mem_cons] at hnew
      have hperm := (insert_cases t found).resolve_left fun h => by
        obtain ⟨⟨u, hu, heq⟩, -⟩ := h
        exact hnew.1 u hu heq
      have hrest : ∀ t' ∈ trees, ∀ u ∈ t.insert found, u.path.components ≠ t'.path.components := by
        intro t' ht' u hu
        rcases List.mem_cons.1 (hperm.mem_iff.1 hu) with rfl | hu
        · intro heq
          exact h.1 (List.mem_map.2 ⟨t', ht', heq.symm⟩)
        · exact hnew.2 t' ht' u hu
      exact (ih h.2 hrest).trans ((hperm.append_left trees).trans List.perm_middle)

/-- A walk comes to no tree twice. -/
theorem treesBelow_nodup (hs : s.WellFormed) (excluded : Option Key) (dir : Key) :
    (s.treesBelow excluded dir).Nodup := by
  have hkeys : s.treesBelow excluded dir =
      ((s.nodes.map Prod.fst).filter fun key => s.reaches excluded dir (namesBelow dir key)).map
        (namesBelow dir) := by
    rw [treesBelow, ← Function.comp_def (namesBelow dir), ← List.map_map, List.filter_map]
    rfl
  rw [hkeys]
  refine List.Nodup.map_on (fun key hkey key' hkey' heq => ?_) (hs.nodup.filter _)
  have happend {key : Key} (h : s.reaches excluded dir (namesBelow dir key) = true) :
      key = dir ++ namesBelow dir key := by
    have hne := ((reaches_iff hs).1 h).1
    unfold namesBelow at hne ⊢
    split at hne
    next hprefix =>
      obtain ⟨names, rfl⟩ := List.isPrefixOf_iff_prefix.1 hprefix
      rw [if_pos hprefix, List.drop_left]
    next => exact absurd rfl hne
  rw [happend (List.mem_filter.1 hkey).2, happend (List.mem_filter.1 hkey').2, heq]

/-- The places of the trees of one input differ, and so do their components. -/
theorem offers_nodup (hs : s.WellFormed) (excluded : Option Key) (input : Path) :
    ((s.offers excluded input).map fun t => t.path.components).Nodup ∧
      ((s.offers excluded input).map FoundTree.relPath).Nodup := by
  unfold offers
  split
  next => exact ⟨List.nodup_nil, List.nodup_nil⟩
  next root hroot =>
    split
    next hdir =>
      have hmade {names : List String} (h : names ∈ s.treesBelow excluded root) :
          (FoundTree.below input names).relPath.MadeOf names :=
        madeOf_below hs input ((mem_treesBelow_iff hs).1 h)
      have hnodup := treesBelow_nodup hs excluded root
      rw [List.map_map, List.map_map]
      refine ⟨hnodup.map_on fun names h names' h' heq => ?_,
        hnodup.map_on fun names h names' h' heq => ((hmade h).inj (hmade h')).2 heq⟩
      have hc : (input.below names).components = (input.below names').components := heq
      rw [Path.components_below (hmade h).isName, Path.components_below (hmade h').isName] at hc
      exact List.map_injective_iff.2 (fun _ _ => Component.name.inj) (List.append_cancel_left hc)
    next => exact ⟨List.nodup_singleton _, List.nodup_singleton _⟩

end Store

end BuildFix
