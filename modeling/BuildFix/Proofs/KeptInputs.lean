import BuildFix.Proofs.Frame

/-!
# Inputs beside an output directory

An output directory is there so that the inputs are not written over.  The run leaves
out what it finds on its way in the output directory, but an input that lies in there
itself is taken all the same, and then its trees may be at the very places that the run
writes to.

So a file that was loaded as a tree is kept if no input lies in the output directory
(`IsApart`), as long as that directory was found before the run or was not there yet.
Otherwise it is kept unless it is at one of the places in `WritesTo`, and these hold
what the run wrote, if nothing was refused (`Program.fix_keeps_loaded`).
-/

namespace BuildFix

open Program (Prepared)

variable {s s' : Store} {a : FixRequest} {p : Prepared} {span : Span} {reply : Reply}
  {t : ProcessedTree} {out : Path} {root key : Key}
  {step : Store → Effect → Store × Option WriteError}

/-- No input lies in the output directory, which was found or was not there yet. -/
structure Store.IsApart (s : Store) (inputs : List Path) (out : Path) (root : Key) : Prop where
  /-- The directory was found, or there was none. -/
  found : s.canonicalKey out = .ok root ∨ s.isDirAt root = false
  /-- The inputs lie elsewhere. -/
  inputs : ∀ input ∈ inputs, ∀ dir, s.resolve input = .ok dir → ¬root <+: dir

/-! ## Loaded trees in the output directory -/

/-- A loaded tree in a directory that was left out comes from an input in there. -/
theorem Store.exists_input_of_load {inputs : List Path} {trees : List SourceTree}
    {tree : SourceTree} (hs : s.WellFormed) (hload : s.load inputs (some out) = .ok trees)
    (hroot : s.canonicalKey out = .ok root) (htree : tree ∈ trees)
    (hwalk : s.walk tree.path = .ok key) (hunder : root <+: key) (hne : root ≠ key) :
    ∃ input ∈ inputs, ∃ dir, s.resolve input = .ok dir ∧ root <+: dir ∧ dir <+: key := by
  have hlead := (leadTo_load hs hload).iff.1 ⟨_, List.mem_map_of_mem htree, hwalk⟩
  rw [bind_canonicalKey hroot] at hlead
  obtain ⟨u, hu, huwalk⟩ := hlead
  obtain ⟨input, hinput, hu⟩ := List.mem_flatMap.1 hu
  obtain ⟨dir, hdir, ⟨-, -, hfile⟩ | ⟨-, names, hreaches, -, hbelow⟩⟩ := walk_of_mem_offers hs hu
  · rw [huwalk] at hfile
    cases hfile
    exact ⟨input, hinput, key, hdir, hunder, List.prefix_refl key⟩
  · rw [huwalk] at hbelow
    cases hbelow
    refine ⟨input, hinput, dir, hdir, ?_, List.prefix_append dir names⟩
    -- Otherwise the walk would have gone through the excluded directory.
    by_contra hnot
    obtain ⟨front, back, hnames, hfront, hback, rfl⟩ := on_the_way hunder hnot hne
    have hspared := ((reaches_iff hs).1 hreaches).2.2 front back hnames hfront hback
    have hlength := checkLength_eq_ok_iff.1 (walk_of_canonicalKey hroot).2
    have hlong := isExcluded_eq_false_iff.1 hspared (List.prefix_refl _)
    omega

namespace Program

/-- A key that a run writes to lies below the output directory. -/
theorem Prepared.WritesTo.exists_append (h : p.WritesTo root key) :
    ∃ names, names ≠ [] ∧ key = root ++ names := by
  rcases h with rfl | rfl | ⟨-, t, -, -, names, -, rfl⟩ <;> exact ⟨_, List.cons_ne_nil _ _, rfl⟩

/-- A loaded tree at a place that the run writes to comes from an input in the output
directory. -/
theorem exists_input_of_writesTo (hs : s.WellFormed) (hp : p.Ready s a)
    (hout : a.outDir = some out) (hfound : s.canonicalKey out = .ok root ∨ s.isDirAt root = false)
    (ht : t ∈ p.outcome.trees) (hwalk : s.walk t.path = .ok key) (hwrites : p.WritesTo root key) :
    ∃ input ∈ a.inputs, ∃ dir, s.resolve input = .ok dir ∧ root <+: dir ∧ dir <+: key := by
  obtain ⟨names, hnames, rfl⟩ := hwrites.exists_append
  rcases hfound with hroot | hnone
  · obtain ⟨trees, hload, htrees⟩ := hp.trees
    rw [hout] at hload
    rw [htrees] at ht
    obtain ⟨tree, htree, rfl⟩ := List.mem_map.1 ht
    exact Store.exists_input_of_load hs hload hroot htree hwalk (List.prefix_append root names)
      (by simpa using hnames)
  · have hdir := hs.isDirAt_append (hs.isSome_of_walk hwalk) hnames
    rw [hnone] at hdir
    cases hdir

/-! ## What is written over -/

/-- If nothing was refused, a key that the run writes to holds what was written there. -/
theorem exists_fileAt?_of_writesTo (hs : s.WellFormed) (hp : p.Ready s a)
    (hout : a.outDir = some out)
    (hperform : Effect.perform Store.apply s (p.effects span) = (s', none))
    (hroot : s'.walk out = .ok root) (hwrites : p.WritesTo root key) :
    ∃ q text, .write q text ∈ p.effects span ∧ s'.walk q = .ok key ∧
      s'.fileAt? key = some (.text text) := by
  have hwritten {q : Path} {text : String} (hmem : .write q text ∈ p.effects span)
      (hkey : ∀ key', s'.walk q = .ok key' → key' = key) :
      ∃ q text, .write q text ∈ p.effects span ∧ s'.walk q = .ok key ∧
        s'.fileAt? key = some (.text text) := by
    obtain ⟨key', q', text', hwalk, hmem', hwalk', hfile⟩ :=
      Store.exists_fileAt?_of_perform hs hperform hmem
    obtain rfl := hkey key' hwalk
    exact ⟨q', text', hmem', hwalk', hfile⟩
  have hreport {name : String} (hname : IsName name) (key' : Key)
      (hwalk : s'.walk (out.join ⟨name⟩) = .ok key') : key' = root ++ [name] := by
    obtain ⟨root', hroot', rfl⟩ := Store.eq_append_of_walk_join (Path.madeOf_name hname) hwalk
    rw [hroot] at hroot'
    cases hroot'
    rfl
  rcases hwrites with rfl | rfl | ⟨hmode, t, ht, hfixed, names, hplace, rfl⟩
  · exact hwritten (hp.report_mem_effects hout (List.mem_cons_of_mem _ List.mem_cons_self))
      (hreport (by decide))
  · exact hwritten (hp.report_mem_effects hout
      (List.mem_cons_of_mem _ (List.mem_cons_of_mem _ List.mem_cons_self))) (hreport (by decide))
  · obtain ⟨f, hf⟩ := t.status_eq_fixed_iff.1 hfixed
    have hcheck : a.check = false := by
      rw [hp.mode] at hmode
      cases hc : a.check with
      | false => rfl
      | true =>
          rw [hc] at hmode
          cases hmode
    refine hwritten (hp.target_mem_effects hcheck ht hf) fun key' hwalk => ?_
    rw [hout] at hwalk
    obtain ⟨root', hroot', rfl⟩ := ProcessedTree.eq_append_of_walk_target hplace hwalk
    rw [hroot] at hroot'
    cases hroot'
    rfl

/-- With an output directory every file that was loaded as a tree is kept if no input
lies in the directory, and none is at a place that the run writes to.  In any case only
loaded files at such places change, and they do so because of an input in the output
directory, if that was found before the run.  If nothing was refused, all these places
hold what the run wrote. -/
theorem fix_keeps_loaded (hs : s.WellFormed) (hstep : Store.Cautious step)
    (hprepare : prepare s a = .ok p) (hout : a.outDir = some out)
    (hfix : fixWith step s span a = (reply, s')) :
    (∀ root, s'.walk out = .ok root → s.IsApart a.inputs out root →
      ∀ t ∈ p.outcome.trees, ∀ key, s.walk t.path = .ok key →
        ¬p.WritesTo root key ∧ s'.fileAt? key = s.fileAt? key) ∧
    (∀ t ∈ p.outcome.trees, ∀ key, s.walk t.path = .ok key → s'.fileAt? key ≠ s.fileAt? key →
      ∃ root, s'.walk out = .ok root ∧ p.WritesTo root key ∧
        (s.canonicalKey out = .ok root → ∃ input ∈ a.inputs, ∃ dir, s.resolve input = .ok dir ∧
          root <+: dir ∧ dir <+: key)) ∧
    ((Effect.perform step s (p.effects span)).2 = none →
      ∀ root key, s'.walk out = .ok root → p.WritesTo root key →
        ∃ q text, .write q text ∈ p.effects span ∧ s'.walk q = .ok key ∧
          s'.fileAt? key = some (.text text)) := by
  have hp := prepare_eq_ok hprepare
  have hstate : s' = (Effect.perform step s (p.effects span)).1 := by
    rw [fixWith_of_prepare hprepare] at hfix
    exact (congrArg Prod.snd hfix).symm
  have hperform := Prod.mk.eta (p := Effect.perform step s (p.effects span))
  rw [← hstate] at hperform
  have hperformed := hstep.performed hs hperform.symm
  have hwritten {key : Key} (hne : s'.fileAt? key ≠ s.fileAt? key) :=
    writesTo_of_changed hs hp hout hperformed hne
  refine ⟨fun root hroot hapart t ht key hwalk => ?_, fun t ht key hwalk hne => ?_, ?_⟩
  · have hnot : ¬p.WritesTo root key := by
      intro hwrites
      obtain ⟨input, hinput, dir, hdir, hin, -⟩ :=
        exists_input_of_writesTo hs hp hout hapart.found ht hwalk hwrites
      exact hapart.inputs input hinput dir hdir hin
    refine ⟨hnot, ?_⟩
    by_contra hne
    obtain ⟨root', hroot', hwrites⟩ := hwritten hne
    rw [hroot] at hroot'
    cases hroot'
    exact hnot hwrites
  · obtain ⟨root, hroot, hwrites⟩ := hwritten hne
    exact ⟨root, hroot, hwrites, fun hfound =>
      exists_input_of_writesTo hs hp hout (.inl hfound) ht hwalk hwrites⟩
  · intro hnone root key hroot hwrites
    rw [hnone] at hperform
    exact exists_fileAt?_of_writesTo hs hp hout (hstep.perform_apply hperform.symm) hroot hwrites

end Program

/-! ## A second run -/

/-- Build files that differ have texts that differ, if one of them can be read back. -/
theorem File.text_ne {f g : File} (hf : f.toJson.opens ≤ File.textDepth) (hne : f ≠ g) :
    f.text ≠ g.text := by
  intro heq
  have hparse := File.parse_text g
  rw [← heq, File.parse_text f, if_pos hf] at hparse
  split at hparse
  · exact hne (Except.ok.inj hparse)
  · cases hparse

/-- A store with a tree and what an earlier run wrote for it to the directory `out`. -/
def refixed : Store where
  nodes := [(["BUILD.json"], .file (.text (unloaded "a").text)), (["out"], .dir),
    (["out", "trees"], .dir), (["out", "trees", "BUILD.json"], .file (.text (unloaded "a").text))]

/-- The command that fixes what is in a directory, with `out` as the output directory. -/
def fixInto (input : String) : FixRequest := { inputs := [⟨input⟩], outDir := some ⟨"out"⟩ }

/-- The tree of a directory. -/
def treeIn (dir : String) : SourceTree :=
  ⟨⟨dir ++ "/BUILD.json"⟩, ⟨"BUILD.json"⟩, .ok (unloaded "a")⟩

/-- The run over the tree of a directory. -/
def refixedPrepared (dir : String) : Prepared where
  settings := { outDir := some ⟨"out"⟩ }
  outcome := ⟨.write, Fixer.all, [treeIn dir].map (.of {} Fixer.all)⟩

theorem refixed_load (dir : String) (hfind : refixed.find [⟨dir⟩] (some ⟨"out"⟩) =
      .ok [⟨⟨dir ++ "/BUILD.json"⟩, ⟨"BUILD.json"⟩⟩])
    (hread : refixed.readText ⟨dir ++ "/BUILD.json"⟩ = .ok (unloaded "a").text) :
    refixed.load [⟨dir⟩] (some ⟨"out"⟩) = .ok [treeIn dir] := by
  refine Store.load_of_find hfind fun t ht => ?_
  rw [List.mem_singleton.1 ht]
  exact Store.treeAt_text hread (by decide +kernel)

/-- From the directory above, the tree that was loaded is kept, and what the earlier run
wrote is written again. -/
theorem refixed_kept : refixed.WellFormed ∧ refixed.IsApart [⟨"."⟩] ⟨"out"⟩ ["out"] ∧
    (Program.fix refixed ⟨⟨0, 0⟩, ⟨0, 0⟩⟩ (fixInto ".")).2.fileAt? ["BUILD.json"] =
      refixed.fileAt? ["BUILD.json"] ∧
    ∃ text, (Program.fix refixed ⟨⟨0, 0⟩, ⟨0, 0⟩⟩ (fixInto ".")).2.fileAt?
      ["out", "trees", "BUILD.json"] = some (.text text) := by
  have hs : refixed.WellFormed := by decide +kernel
  have hprepare : Program.prepare refixed (fixInto ".") = .ok (refixedPrepared ".") :=
    Program.prepare_of_load (by decide +kernel) rfl (refixed_load "." (by decide +kernel) rfl)
      rfl rfl
  have hfix := Program.fixWith_of_prepare hprepare Store.apply ⟨⟨0, 0⟩, ⟨0, 0⟩⟩
  obtain ⟨hkept, -, hwritten⟩ := Program.fix_keeps_loaded hs Store.cautious_apply hprepare rfl hfix
  have hdot : refixed.resolve ⟨"."⟩ = .ok [] := by decide +kernel
  have hapart : refixed.IsApart [⟨"."⟩] ⟨"out"⟩ ["out"] := by
    refine ⟨.inl (by decide +kernel), fun input hinput dir hdir => ?_⟩
    rw [List.mem_singleton.1 hinput, hdot] at hdir
    cases hdir
    decide
  have hout : (Program.fix refixed ⟨⟨0, 0⟩, ⟨0, 0⟩⟩ (fixInto ".")).2.walk ⟨"out"⟩ =
      .ok ["out"] := by
    rw [Program.fix, hfix]
    decide +kernel
  rw [Program.fix, hfix] at hout
  rw [Program.fix, hfix]
  have hfixed : (ProcessedTree.of {} Fixer.all (treeIn ".")).status = .fixed := by decide +kernel
  obtain ⟨q, text, -, -, htext⟩ := hwritten (by decide +kernel) ["out"] _ hout
    (.inr (.inr ⟨rfl, _, List.mem_cons_self, hfixed, _, Path.madeOf_name (by decide), rfl⟩))
  have hinput := hkept _ hout hapart _ List.mem_cons_self ["BUILD.json"] (by decide +kernel)
  exact ⟨hs, hapart, hinput.2, text, htext⟩

/-- What the earlier run wrote is rewritten if it is an input itself. -/
theorem refixed_overwritten : refixed.WellFormed ∧ ∃ p,
    Program.prepare refixed (fixInto "out/trees") = .ok p ∧ ∃ t ∈ p.outcome.trees,
      t.status = .fixed ∧ refixed.walk t.path = .ok ["out", "trees", "BUILD.json"] ∧
      t.target (some ⟨"out"⟩) = t.path ∧
      (Program.fix refixed ⟨⟨0, 0⟩, ⟨0, 0⟩⟩ (fixInto "out/trees")).2.fileAt?
        ["out", "trees", "BUILD.json"] ≠ refixed.fileAt? ["out", "trees", "BUILD.json"] := by
  have hprepare : Program.prepare refixed (fixInto "out/trees") =
      .ok (refixedPrepared "out/trees") :=
    Program.prepare_of_load (by decide +kernel) rfl
      (refixed_load "out/trees" (by decide +kernel) rfl) rfl rfl
  have hfix := Program.fixWith_of_prepare hprepare Store.apply ⟨⟨0, 0⟩, ⟨0, 0⟩⟩
  refine ⟨by decide +kernel, _, hprepare, _, List.mem_cons_self, by decide +kernel,
    by decide +kernel, by decide +kernel, ?_⟩
  have hnew : (Program.fix refixed ⟨⟨0, 0⟩, ⟨0, 0⟩⟩ (fixInto "out/trees")).2.fileAt?
      ["out", "trees", "BUILD.json"] =
        some (.text (Fixed.run {} Fixer.all (unloaded "a")).file.text) := by
    rw [Program.fix, hfix]
    rfl
  have hold : refixed.fileAt? ["out", "trees", "BUILD.json"] = some (.text (unloaded "a").text) :=
    rfl
  rw [hnew, hold]
  intro heq
  exact File.text_ne (by decide +kernel) (by decide +kernel)
    (Content.text.inj (Option.some.inj heq)).symm

end BuildFix
