import BuildFix.Proofs.Changes
import BuildFix.Proofs.Store.Finding
import BuildFix.Proofs.Store.Writing
import BuildFix.Proofs.Tree.Rereading

/-!
# What a run leaves in the output directory

The effects of a run are carried out one after the other.  A path that one of them
wrote to leads to its file until the end, and the file holds what was written unless a
later effect writes to it again (`resolve_of_perform`).

A tree that was fixed is written to its place below the inputs, below the directory
`trees` (`eq_append_of_walk_target`), where no file of the report is
(`eq_append_of_walk_report`).  So two targets are one file exactly when the places are
the same.  The places below one input differ (`nodup_relPath`).  The places below several
may not, and then the last tree is the one that is kept (`fixed_trees_found`).
-/

namespace BuildFix

/-! ## Carrying out effects -/

namespace Effect

variable {s s' : Store} {e : Effect} {es es' : List Effect} {p : Path} {text : String} {key : Key}
  {content : Content}

theorem perform_cons {s' : Store} (h : perform Store.apply s (e :: es) = (s', none)) :
    ∃ mid, s.apply e = (mid, none) ∧ perform Store.apply mid es = (s', none) := by
  rw [perform] at h
  split at h
  next mid hmid => exact ⟨mid, hmid, h⟩
  next => cases h

theorem perform_append (h : perform Store.apply s (es ++ es') = (s', none)) :
    ∃ mid, perform Store.apply s es = (mid, none) ∧ perform Store.apply mid es' = (s', none) := by
  induction es generalizing s with
  | nil => exact ⟨s, rfl, h⟩
  | cons e es ih =>
      obtain ⟨next, hnext, h⟩ := perform_cons h
      obtain ⟨mid, hmid, h⟩ := ih h
      exact ⟨mid, by rw [perform, hnext]; exact hmid, h⟩

theorem written_of_apply (hs : s.WellFormed) (h : s.apply (.write p text) = (s', none)) :
    ∃ key, s.Written s' p (.text text) key := by
  have hstate : (s.write p (.text text)).1 = s' := congrArg Prod.fst h
  have hnone : (s.write p (.text text)).2 = none := congrArg Prod.snd h
  rcases hs.write_cases p (.text text) with ⟨e, hsome, -⟩ | ⟨-, hwritten⟩
  · rw [hnone] at hsome
    cases hsome
  · rwa [hstate] at hwritten

theorem grown_of_apply (hs : s.WellFormed) (h : s.apply (.makeDir p) = (s', none)) :
    s.Grown s' := by
  have hstate : (s.makeDirs p).1 = s' := congrArg Prod.fst h
  rw [← hstate]
  exact hs.makeDirs p

/-- An effect keeps a store well-formed and all that is there. -/
theorem extends_of_apply (hs : s.WellFormed) (h : s.apply e = (s', none)) :
    s'.WellFormed ∧ s.Extends s' := by
  cases e with
  | write p text =>
      obtain ⟨key, hwritten⟩ := written_of_apply hs h
      exact ⟨hwritten.wellFormed, hwritten.toExtends⟩
  | makeDir p =>
      have hgrown := grown_of_apply hs h
      exact ⟨hgrown.wellFormed, hgrown.dirsAdded.toExtends⟩

theorem extends_of_perform (hs : s.WellFormed) (h : perform Store.apply s es = (s', none)) :
    s'.WellFormed ∧ s.Extends s' := by
  induction es generalizing s with
  | nil =>
      cases h
      exact ⟨hs, .refl _⟩
  | cons e es ih =>
      obtain ⟨mid, hmid, h⟩ := perform_cons h
      obtain ⟨hwf, hextends⟩ := extends_of_apply hs hmid
      obtain ⟨hwf', hextends'⟩ := ih hwf h
      exact ⟨hwf', hextends.trans hextends'⟩

/-- A file that no effect writes to is as it was. -/
theorem get?_of_perform (hs : s.WellFormed) (h : perform Store.apply s es = (s', none))
    (hfile : s.get? key = some (.file content))
    (hother : ∀ q text, .write q text ∈ es → s'.walk q ≠ .ok key) :
    s'.get? key = some (.file content) := by
  induction es generalizing s with
  | nil =>
      cases h
      exact hfile
  | cons e es ih =>
      obtain ⟨mid, hmid, hrest⟩ := perform_cons h
      obtain ⟨hwf, -⟩ := extends_of_apply hs hmid
      refine ih hwf hrest ?_ fun q text hq => hother q text (List.mem_cons_of_mem e hq)
      cases e with
      | write p text =>
          obtain ⟨key', hwritten⟩ := written_of_apply hs hmid
          have hne : key ≠ key' := by
            rintro rfl
            exact hother p text List.mem_cons_self ((extends_of_perform hwf hrest).2.walk
              (Store.resolve_eq_ok_iff.1 hwritten.resolve).2)
          rcases hwritten.get?_other key hne with heq | ⟨hnone, -⟩
          · rw [heq, hfile]
          · rw [hfile] at hnone
            cases hnone
      | makeDir p =>
          rw [(grown_of_apply hs hmid).dirsAdded.get?_of_isSome (by rw [hfile]; rfl), hfile]

/-- A path that was written to leads to a key, and to what was written if nothing was
written there afterwards. -/
theorem resolve_of_perform (hs : s.WellFormed)
    (h : perform Store.apply s (es ++ .write p text :: es') = (s', none)) :
    ∃ key, s'.resolve p = .ok key ∧
      ((∀ q text, .write q text ∈ es' → s'.walk q ≠ .ok key) → s'.readText p = .ok text) := by
  obtain ⟨before, hbefore, h⟩ := perform_append h
  obtain ⟨after, hafter, h⟩ := perform_cons h
  obtain ⟨key, hwritten⟩ := written_of_apply (extends_of_perform hs hbefore).1 hafter
  obtain ⟨hcheck, hwalk⟩ := Store.resolve_eq_ok_iff.1 hwritten.resolve
  have hresolve : s'.resolve p = .ok key := Store.resolve_eq_ok_iff.2
    ⟨hcheck, (extends_of_perform hwritten.wellFormed h).2.walk hwalk⟩
  refine ⟨key, hresolve, fun hother => ?_⟩
  exact Store.readText_of_get? hresolve
    (get?_of_perform hwritten.wellFormed h hwritten.get?_self hother)

end Effect

/-! ## Targets -/

section

variable {s s' : Store} {inputs : List Path} {exclude : Option Path} {out : Path}
  {trees : List SourceTree} {settings : Settings} {o : Outcome} {r : Report} {key : Key}
  {names : List String} {t u : ProcessedTree} {f : File} {before after : List ProcessedTree}

theorem Settings.run_eq_ok (h : settings.run (.ok trees) = .ok o) :
    o.mode = settings.mode ∧ o.trees = trees.map
      (.of settings.conventions (Fixer.without Fixer.all settings.disabled)) := by
  unfold Settings.run at h
  split at h
  · cases h
  · cases h
    exact ⟨rfl, rfl⟩

/-- The place of a tree that was loaded is made of names. -/
theorem SourceTree.madeOf_of_load (hs : s.WellFormed) (hload : s.load inputs exclude = .ok trees) :
    ∀ tree ∈ trees, ∃ names, tree.relPath.MadeOf names := by
  intro tree htree
  obtain ⟨found, hfind, rfl⟩ := exists_of_map_eq_ok hload
  obtain ⟨u, hu, rfl⟩ := List.mem_map.1 htree
  obtain ⟨-, rfl⟩ := Store.foldlM_findInput_eq_ok hfind
  obtain ⟨t, ht, hplace⟩ := (Store.relPath_of_mem_collect hu).resolve_right nofun
  obtain ⟨input, -, hoffers⟩ := List.mem_flatMap.1 ht
  show ∃ names, u.relPath.MadeOf names
  rw [hplace]
  exact Store.madeOf_of_mem_offers hs hoffers

namespace ProcessedTree

/-- The target of a tree leads to its place below the directory `trees` of the output
directory. -/
theorem eq_append_of_walk_target (hplace : t.relPath.MadeOf names)
    (h : s.walk (t.target (some out)) = .ok key) :
    ∃ root, s.walk out = .ok root ∧ key = root ++ "trees" :: names := by
  obtain ⟨dir, hdir, rfl⟩ := Store.eq_append_of_walk_join hplace h
  obtain ⟨root, hroot, rfl⟩ := Store.eq_append_of_walk_join (Path.madeOf_name (by decide)) hdir
  exact ⟨root, hroot, List.append_assoc ..⟩

theorem target_congr (h : t.relPath = u.relPath) :
    t.target (some out) = u.target (some out) := by
  rw [target, target, h]

/-- A file of the report is right in the output directory. -/
theorem eq_append_of_walk_report {q : Path} {text : String} (hq : .write q text ∈ r.effects out)
    (h : s.walk q = .ok key) :
    ∃ root name, s.walk out = .ok root ∧ key = root ++ [name] ∧ name ≠ "trees" := by
  have hcases : q = out.join ⟨"report.json"⟩ ∨ q = out.join ⟨"summary.md"⟩ := by
    simp only [Report.effects, List.mem_cons, reduceCtorEq, Effect.write.injEq, List.not_mem_nil,
      or_false, false_or] at hq
    exact hq.imp And.left And.left
  rcases hcases with rfl | rfl
  · obtain ⟨root, hroot, rfl⟩ := Store.eq_append_of_walk_join (Path.madeOf_name (by decide)) h
    exact ⟨root, _, hroot, rfl, by decide⟩
  · obtain ⟨root, hroot, rfl⟩ := Store.eq_append_of_walk_join (Path.madeOf_name (by decide)) h
    exact ⟨root, _, hroot, rfl, by decide⟩

theorem status_eq_fixed_iff : t.status = .fixed ↔ ∃ f, t.rewritten? = some f := by
  rw [← isSome_write?_iff t none, write?, Option.isSome_map, Option.isSome_iff_exists]

end ProcessedTree

/-- Of the items with a property there is a last one. -/
theorem exists_last {α : Type} {P : α → Prop} {xs : List α} (h : ∃ x ∈ xs, P x) :
    ∃ before x after, xs = before ++ x :: after ∧ P x ∧ ∀ y ∈ after, ¬P y := by
  induction xs with
  | nil =>
      obtain ⟨x, hx, -⟩ := h
      cases hx
  | cons x xs ih =>
      by_cases hrest : ∃ y ∈ xs, P y
      · obtain ⟨before, y, after, rfl, hy, hlast⟩ := ih hrest
        exact ⟨x :: before, y, after, rfl, hy, hlast⟩
      · obtain ⟨y, hy, hP⟩ := h
        rcases List.mem_cons.1 hy with rfl | hy
        · exact ⟨[], y, xs, rfl, hP, fun z hz hPz => hrest ⟨z, hz, hPz⟩⟩
        · exact absurd ⟨y, hy, hP⟩ hrest

namespace Outcome

theorem effects_of_split (hmode : o.mode = .write) (hsplit : o.trees = before ++ t :: after)
    (ht : t.rewritten? = some f) :
    o.effects (some out) r = before.filterMap (ProcessedTree.write? (some out)) ++
      .write (t.target (some out)) f.text ::
        (after.filterMap (ProcessedTree.write? (some out)) ++ r.effects out) := by
  have hwrite : t.write? (some out) = some (.write (t.target (some out)) f.text) := by
    rw [ProcessedTree.write?, ht, Option.map_some]
  have hnot : ¬o.mode = .check := by
    rw [hmode]
    decide
  rw [effects, if_neg hnot, hsplit, List.filterMap_append, List.filterMap_cons_some hwrite,
    List.append_assoc, List.cons_append]

variable (hs : s.WellFormed) (hplaces : ∀ t ∈ o.trees, ∃ names, t.relPath.MadeOf names)
  (hmode : o.mode = .write)
  (hperform : Effect.perform Store.apply s (o.effects (some out) r) = (s', none))

include hs hplaces hmode hperform

/-- The target of a tree that was fixed leads to its place, and to what was written for
it unless a later tree with the same place was fixed. -/
theorem resolve_target (hsplit : o.trees = before ++ t :: after) (ht : t.rewritten? = some f)
    (hplace : t.relPath.MadeOf names) :
    ∃ root, s'.walk out = .ok root ∧
      s'.resolve (t.target (some out)) = .ok (root ++ "trees" :: names) ∧
      ((∀ u ∈ after, u.status = .fixed → u.relPath ≠ t.relPath) →
        s'.readText (t.target (some out)) = .ok f.text) := by
  rw [effects_of_split hmode hsplit ht] at hperform
  obtain ⟨key, hresolve, hread⟩ := Effect.resolve_of_perform hs hperform
  obtain ⟨root, hroot, rfl⟩ :=
    t.eq_append_of_walk_target hplace (Store.resolve_eq_ok_iff.1 hresolve).2
  refine ⟨root, hroot, hresolve, fun hlast => hread fun q text hq hwalk => ?_⟩
  rcases List.mem_append.1 hq with hq | hq
  · obtain ⟨u, hu, hwrite⟩ := List.mem_filterMap.1 hq
    obtain ⟨g, hg, heq⟩ := Option.map_eq_some_iff.1 hwrite
    cases heq
    obtain ⟨names', hplace'⟩ := hplaces u (by
      rw [hsplit]
      exact List.mem_append_right _ (List.mem_cons_of_mem t hu))
    obtain ⟨root', hroot', heq⟩ := u.eq_append_of_walk_target hplace' hwalk
    rw [hroot] at hroot'
    cases hroot'
    have hnames := List.append_cancel_left heq
    cases hnames
    exact hlast u hu (u.status_eq_fixed_iff.2 ⟨g, hg⟩) ((hplace'.inj hplace).1 rfl)
  · obtain ⟨root', name, hroot', heq, hne⟩ := ProcessedTree.eq_append_of_walk_report hq hwalk
    rw [hroot] at hroot'
    cases hroot'
    have hnames := List.append_cancel_left heq
    cases hnames
    exact hne rfl

/-- The target of a tree that was fixed leads to its place. -/
theorem resolve_fixed (ht : t ∈ o.trees) (hfixed : t.status = .fixed) :
    ∃ names root, t.relPath.MadeOf names ∧ s'.walk out = .ok root ∧
      s'.resolve (t.target (some out)) = .ok (root ++ "trees" :: names) := by
  obtain ⟨f, hf⟩ := t.status_eq_fixed_iff.1 hfixed
  obtain ⟨names, hplace⟩ := hplaces t ht
  obtain ⟨before, after, hsplit⟩ := List.append_of_mem ht
  obtain ⟨root, hroot, hresolve, -⟩ := resolve_target hs hplaces hmode hperform hsplit hf hplace
  exact ⟨names, root, hplace, hroot, hresolve⟩

/-- The targets of two trees that were fixed are one file where their places are one. -/
theorem resolve_target_eq_iff (ht : t ∈ o.trees) (hu : u ∈ o.trees) (hfixed : t.status = .fixed)
    (hfixed' : u.status = .fixed) :
    s'.resolve (t.target (some out)) = s'.resolve (u.target (some out)) ↔
      t.relPath = u.relPath := by
  obtain ⟨names, root, hplace, hroot, hresolve⟩ := resolve_fixed hs hplaces hmode hperform ht hfixed
  obtain ⟨names', root', hplace', hroot', hresolve'⟩ :=
    resolve_fixed hs hplaces hmode hperform hu hfixed'
  rw [hroot] at hroot'
  cases hroot'
  rw [hresolve, hresolve', ← hplace.inj hplace']
  simp

/-- A tree that was fixed is found at its target if no tree with the same place was
given another text. -/
theorem readText_target (ht : t ∈ o.trees) (hf : t.rewritten? = some f)
    (hsame : ∀ u ∈ o.trees, ∀ g, u.rewritten? = some g → u.relPath = t.relPath → g.text = f.text) :
    s'.readText (t.target (some out)) = .ok f.text := by
  -- The last tree with the same place is the one whose text is there.
  have hsome : ∃ u ∈ o.trees, u.status = .fixed ∧ u.relPath = t.relPath :=
    ⟨t, ht, t.status_eq_fixed_iff.2 ⟨f, hf⟩, rfl⟩
  obtain ⟨before, u, after, hsplit, ⟨hfixed, heq⟩, hlast⟩ := exists_last hsome
  have hu : u ∈ o.trees := by
    rw [hsplit]
    exact List.mem_append_right _ List.mem_cons_self
  obtain ⟨g, hg⟩ := u.status_eq_fixed_iff.1 hfixed
  obtain ⟨names, hplace⟩ := hplaces u hu
  obtain ⟨-, -, -, hread⟩ := resolve_target hs hplaces hmode hperform hsplit hg hplace
  rw [ProcessedTree.target_congr heq.symm, ← hsame u hu g hg heq]
  exact hread fun v hv hfixed' heq' => hlast v hv ⟨hfixed', heq'.trans heq⟩

end Outcome

/-- The place of every tree below a single input is another one. -/
theorem SourceTree.nodup_relPath (hs : s.WellFormed) (hload : s.load inputs exclude = .ok trees)
    (hone : inputs.length = 1) : (trees.map SourceTree.relPath).Nodup := by
  obtain ⟨input, rfl⟩ := List.length_eq_one_iff.1 hone
  obtain ⟨found, hfind, rfl⟩ := exists_of_map_eq_ok hload
  obtain ⟨-, rfl⟩ := Store.foldlM_findInput_eq_ok hfind
  obtain ⟨hcomponents, hplaces⟩ :=
    Store.offers_nodup hs (exclude.bind fun p => (s.canonicalKey p).toOption) input
  rw [List.map_map, List.flatMap_singleton]
  have hperm := Store.collect_perm hcomponents fun t _ => List.forall_mem_nil _
  rw [List.append_nil] at hperm
  exact (hperm.map FoundTree.relPath).nodup_iff.2 hplaces

end

/-! ## Two trees with one place -/

/-- A file that holds the text of a build file is read as that build file. -/
theorem Store.treeAt_text {s : Store} {p : Path} {f : File} (h : s.readText p = .ok f.text)
    (hf : f.toJson.opens ≤ File.textDepth) : s.treeAt p = .ok f := by
  have hparse := File.parse_text f
  rw [if_pos hf] at hparse
  rw [treeAt, h]
  show (File.parse f.text).mapError _ = _
  rw [hparse]
  rfl

/-- Trees that were found are loaded with what is read at their paths. -/
theorem Store.load_of_find {s : Store} {inputs : List Path} {exclude : Option Path}
    {trees : List SourceTree}
    (hfind : s.find inputs exclude = .ok (trees.map fun t => ⟨t.path, t.relPath⟩))
    (hread : ∀ t ∈ trees, s.treeAt t.path = t.content) : s.load inputs exclude = .ok trees := by
  rw [load, hfind, Except.map, List.map_map]
  refine congrArg Except.ok ((List.map_congr_left fun t ht => ?_).trans (List.map_id trees))
  exact congrArg (SourceTree.mk t.path t.relPath) (hread t ht)

/-- A build file that calls a rule it does not load. -/
def unloaded (path : String) : File := ⟨path, [.call (.literal "go_test" {}) [] false {}]⟩

/-- A store with two trees of one name in two directories. -/
def twins : Store where
  nodes := [(["a"], .dir), (["a", "BUILD.json"], .file (.text (unloaded "a").text)),
    (["b"], .dir), (["b", "BUILD.json"], .file (.text (unloaded "b").text))]

/-- The tree in a directory, as an input of its own. -/
def twin (dir : String) : SourceTree :=
  ⟨⟨dir ++ "/BUILD.json"⟩, ⟨"BUILD.json"⟩, .ok (unloaded dir)⟩

/-- The run over the two trees. -/
def twinsOutcome : Outcome where
  mode := .write
  fixers := Fixer.all
  trees := [twin "a", twin "b"].map (.of {} Fixer.all)

/-- The report of the run. -/
def twinsReport : Report := twinsOutcome.report ⟨"fix", none⟩ ⟨⟨0, 0⟩, ⟨0, 0⟩⟩

/-- The store after the run has written to the directory `out`. -/
def twinsWritten : Store :=
  (Effect.perform Store.apply twins (twinsOutcome.effects (some ⟨"out"⟩) twinsReport)).1

theorem twins_load :
    twins.load [⟨"a/BUILD.json"⟩, ⟨"b/BUILD.json"⟩] (some ⟨"out"⟩) = .ok [twin "a", twin "b"] := by
  refine Store.load_of_find (by decide +kernel) fun t ht => ?_
  rcases List.mem_pair.1 ht with rfl | rfl
  · exact Store.treeAt_text (by decide +kernel) (by decide +kernel)
  · exact Store.treeAt_text (by decide +kernel) (by decide +kernel)

theorem twins_perform :
    Effect.perform Store.apply twins (twinsOutcome.effects (some ⟨"out"⟩) twinsReport) =
      (twinsWritten, none) :=
  Prod.ext rfl (by decide +kernel)

theorem twins_run : Settings.run { outDir := some ⟨"out"⟩ } (.ok [twin "a", twin "b"]) =
    .ok twinsOutcome := rfl

end BuildFix
