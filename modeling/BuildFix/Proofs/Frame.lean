import BuildFix.Program
import BuildFix.Proofs.Store.Exclusion
import BuildFix.Proofs.Store.Files

/-!
# What the command `fix` leaves alone

The command `fix` either stops before it writes anything, or has looked at all trees
before it writes the first of them (`Ready`).

Without an output directory the trees that were fixed are written over the files they
were read from.  Two trees that were read from one file are fixed to one text, so the
order of the writes does not matter (`rewritten?_unique`).  With an output directory the
files that change are the report, the summary and the places of the trees that were
fixed, all of them below the directory (`WritesTo`).

Nothing else changes (`Program.fix_frame`).  This holds of every cautious way to carry
out the effects, so it does not matter why an effect was refused.
-/

namespace BuildFix

open Program (Prepared)

namespace Program.Prepared

/-- A build file after the fixers of a run. -/
def rewrite (p : Prepared) (f : File) : Fixed :=
  Fixed.run p.settings.conventions p.outcome.fixers f

/-- The keys below an output directory that a run writes to: the report, the summary,
and the places of the trees that were fixed. -/
def WritesTo (p : Prepared) (root key : Key) : Prop :=
  key = root ++ ["report.json"] ∨ key = root ++ ["summary.md"] ∨
    p.outcome.mode = .write ∧ ∃ t ∈ p.outcome.trees, t.status = .fixed ∧
      ∃ names, t.relPath.MadeOf names ∧ key = root ++ "trees" :: names

/-- What a run is that is ready to write. -/
structure Ready (p : Prepared) (s : Store) (a : FixRequest) : Prop where
  /-- It writes where it was asked to. -/
  outDir : p.settings.outDir = a.outDir
  /-- It writes trees unless it was asked not to. -/
  mode : p.outcome.mode = if a.check then .check else .write
  /-- Its trees are those of the inputs after the fixers. -/
  trees : ∃ trees, s.load a.inputs a.outDir = .ok trees ∧
    p.outcome.trees = trees.map (.of p.settings.conventions p.outcome.fixers)

end Program.Prepared

variable {s s' : Store} {a : FixRequest} {p : Prepared} {span : Span} {reply : Reply}
  {t u : ProcessedTree} {r : Fixed} {f g : File} {q out : Path} {key : Key} {text : String}
  {settings : Settings} {trees : List SourceTree} {o : Outcome}
  {step : Store → Effect → Store × Option WriteError}

/-! ## Getting ready -/

theorem Settings.run_eq_ok_iff {source : Except String (List SourceTree)} :
    settings.run source = .ok o ↔ (∀ key ∈ settings.disabled, (Fixer.ofKey? key).isSome = true) ∧
      ∃ trees, source = .ok trees ∧ o = ⟨settings.mode, Fixer.without Fixer.all settings.disabled,
        trees.map (.of settings.conventions (Fixer.without Fixer.all settings.disabled))⟩ := by
  unfold Settings.run
  split
  next key hkey =>
    have hunknown := List.find?_some hkey
    refine ⟨nofun, fun ⟨hknown, _⟩ => ?_⟩
    rw [Option.isNone_iff_eq_none] at hunknown
    have hsome := hknown key (List.mem_of_find?_eq_some hkey)
    rw [hunknown] at hsome
    cases hsome
  next hnone =>
    have hknown : ∀ key ∈ settings.disabled, (Fixer.ofKey? key).isSome = true := by
      simpa [Option.isSome_iff_ne_none] using hnone
    constructor
    · intro h
      split at h
      next => cases h
      next trees =>
        cases h
        exact ⟨hknown, trees, rfl, rfl⟩
    · rintro ⟨-, trees, rfl, rfl⟩
      rfl

theorem Program.prepare_eq_ok (h : prepare s a = .ok p) : p.Ready s a := by
  obtain ⟨w, -, h⟩ := exists_of_bind_eq_ok h
  obtain ⟨m, -, h⟩ := exists_of_bind_eq_ok h
  obtain ⟨o, ho, h⟩ := exists_of_bind_eq_ok h
  cases h
  obtain ⟨-, trees, hsource, rfl⟩ := Settings.run_eq_ok_iff.1 (eq_ok_of_mapError_eq_ok ho)
  exact ⟨rfl, rfl, trees, eq_ok_of_mapError_eq_ok hsource, rfl⟩

/-- The command `fix` stops before it writes anything, or carries out its effects up to
the first that is refused. -/
theorem Program.fixWith_cases (h : fixWith step s span a = (reply, s')) :
    (∃ e, prepare s a = .error e ∧ reply = e.reply ∧ s' = s) ∨
      ∃ p, prepare s a = .ok p ∧
        (Effect.perform step s (p.effects span) = (s', none) ∧ reply = p.reply ∨
          ∃ e, Effect.perform step s (p.effects span) = (s', some e) ∧
            reply = (FixError.write e).reply) := by
  unfold fixWith at h
  split at h
  next e he =>
    cases h
    exact .inl ⟨e, he, rfl, rfl⟩
  next p hp =>
    refine .inr ⟨p, hp, ?_⟩
    split at h
    next mid hmid =>
      cases h
      exact .inl ⟨hmid, rfl⟩
    next mid e hmid =>
      cases h
      exact .inr ⟨e, hmid, rfl⟩

/-! ## Trees -/

theorem Store.treeAt_eq_ok (h : s.treeAt q = .ok f) : ∃ key text, s.resolve q = .ok key ∧
    s.fileAt? key = some (.text text) ∧ File.parse text = .ok f := by
  unfold treeAt at h
  split at h
  next => cases h
  next text htext =>
    obtain ⟨key, hkey, htext⟩ := exists_of_bind_eq_ok htext
    split at htext
    next t hget =>
      cases htext
      exact ⟨key, text, hkey, fileAt?_eq_some_iff.2 hget, eq_ok_of_mapError_eq_ok h⟩
    all_goals cases htext

namespace Program.Prepared.Ready

/-- The place of a tree below the inputs is made of names. -/
theorem exists_madeOf (hs : s.WellFormed) (hp : p.Ready s a) (ht : t ∈ p.outcome.trees) :
    ∃ names, t.relPath.MadeOf names := by
  obtain ⟨trees, hload, htrees⟩ := hp.trees
  rw [htrees] at ht
  obtain ⟨tree, htree, rfl⟩ := List.mem_map.1 ht
  exact SourceTree.madeOf_of_load hs hload tree htree

/-- A tree that was rewritten is what the fixers make of the text of its file. -/
theorem exists_text (hp : p.Ready s a) (ht : t ∈ p.outcome.trees) (hg : t.rewritten? = some g) :
    ∃ key text f, s.walk t.path = .ok key ∧ s.fileAt? key = some (.text text) ∧
      File.parse text = .ok f ∧ g = (p.rewrite f).file := by
  obtain ⟨trees, hload, htrees⟩ := hp.trees
  rw [htrees] at ht
  obtain ⟨tree, htree, rfl⟩ := List.mem_map.1 ht
  obtain ⟨found, -, rfl⟩ := exists_of_map_eq_ok hload
  obtain ⟨u, -, rfl⟩ := List.mem_map.1 htree
  cases hread : s.treeAt u.path with
  | error e => simp [ProcessedTree.of, ProcessedTree.rewritten?, Except.map, hread] at hg
  | ok f =>
      obtain ⟨key, text, hkey, hfile, hparse⟩ := Store.treeAt_eq_ok hread
      refine ⟨key, text, f, (Store.resolve_eq_ok_iff.1 hkey).2, hfile, hparse, ?_⟩
      simp only [ProcessedTree.of, ProcessedTree.rewritten?, Except.map, hread] at hg
      split at hg
      · exact (Option.some.inj hg).symm
      · cases hg

/-- Trees that were read from one file are rewritten to one build file. -/
theorem rewritten?_unique (hp : p.Ready s a) (ht : t ∈ p.outcome.trees)
    (hu : u ∈ p.outcome.trees) (hf : t.rewritten? = some f) (hg : u.rewritten? = some g)
    (hsame : s.walk t.path = s.walk u.path) : f = g := by
  obtain ⟨key, text, f', hwalk, hfile, hparse, rfl⟩ := hp.exists_text ht hf
  obtain ⟨key', text', g', hwalk', hfile', hparse', rfl⟩ := hp.exists_text hu hg
  rw [hwalk, hwalk'] at hsame
  cases hsame
  rw [hfile] at hfile'
  cases hfile'
  rw [hparse] at hparse'
  cases hparse'
  rfl

/-! ## Effects -/

/-- What is written is the text of a tree that was rewritten, at its target, or a file of
the report. -/
theorem write_mem_effects (hp : p.Ready s a) (h : .write q text ∈ p.effects span) :
    (a.check = false ∧ ∃ t ∈ p.outcome.trees, ∃ f, t.rewritten? = some f ∧
        q = t.target a.outDir ∧ text = f.text) ∨
      ∃ out, a.outDir = some out ∧
        .write q text ∈ (p.outcome.report tool span).effects out := by
  simp only [Prepared.effects, Outcome.effects, hp.mode, hp.outDir] at h
  rcases List.mem_append.1 h with h | h
  · cases hcheck : a.check with
    | true =>
        rw [hcheck] at h
        cases h
    | false =>
        rw [hcheck] at h
        obtain ⟨t, ht, hwrite⟩ := List.mem_filterMap.1 h
        obtain ⟨f, hf, heq⟩ := Option.map_eq_some_iff.1 hwrite
        cases heq
        exact .inl ⟨rfl, t, ht, f, hf, rfl, rfl⟩
  · cases hout : a.outDir with
    | none =>
        rw [hout] at h
        cases h
    | some out =>
        rw [hout] at h
        exact .inr ⟨out, rfl, h⟩

theorem target_mem_effects (hp : p.Ready s a) (hcheck : a.check = false)
    (ht : t ∈ p.outcome.trees) (hf : t.rewritten? = some f) :
    .write (t.target a.outDir) f.text ∈ p.effects span := by
  simp only [Prepared.effects, Outcome.effects, hp.mode, hp.outDir, hcheck]
  refine List.mem_append_left _ (List.mem_filterMap.2 ⟨t, ht, ?_⟩)
  rw [ProcessedTree.write?, hf, Option.map_some]

theorem report_mem_effects (hp : p.Ready s a) (hout : a.outDir = some out) {e : Effect}
    (he : e ∈ (p.outcome.report tool span).effects out) : e ∈ p.effects span := by
  simp only [Prepared.effects, Outcome.effects, hp.outDir, hout]
  exact List.mem_append_right _ he

/-- Without an output directory what is written is the text of a tree that was rewritten,
over the tree. -/
theorem write_in_place (hp : p.Ready s a) (hout : a.outDir = none)
    (h : .write q text ∈ p.effects span) : a.check = false ∧
      ∃ t ∈ p.outcome.trees, ∃ f, t.rewritten? = some f ∧ q = t.path ∧ text = f.text := by
  rcases hp.write_mem_effects h with ⟨hcheck, t, ht, f, hf, rfl, rfl⟩ | ⟨out, hout', -⟩
  · rw [hout]
    exact ⟨hcheck, t, ht, f, hf, rfl, rfl⟩
  · rw [hout] at hout'
    cases hout'

end Program.Prepared.Ready

/-- A file of the report is `report.json` or `summary.md`. -/
theorem Report.write_mem_effects {r : Report} (h : .write q text ∈ r.effects out) :
    q = out.join ⟨"report.json"⟩ ∧ text = r.text ∨
      q = out.join ⟨"summary.md"⟩ ∧ text = r.summary := by
  simpa [Report.effects] using h

namespace Program

variable {refused : Option WriteError}

/-! ## Without an output directory -/

/-- A rewritten tree is written over the file it was read from, and that file holds its
new text in the end, or else its old one if some effect was refused. -/
theorem rewritten_in_place (hs : s.WellFormed) (hstep : Store.Cautious step) (hp : p.Ready s a)
    (hout : a.outDir = none) (hcheck : a.check = false)
    (hperform : Effect.perform step s (p.effects span) = (s', refused))
    (ht : t ∈ p.outcome.trees) (hg : t.rewritten? = some g) :
    ∃ key old f, s.walk t.path = .ok key ∧ s.fileAt? key = some (.text old) ∧
      File.parse old = .ok f ∧ g = (p.rewrite f).file ∧
      (s'.fileAt? key = some (.text g.text) ∨
        refused ≠ none ∧ s'.fileAt? key = some (.text old)) := by
  obtain ⟨key, old, f, hwalk, hold, hparse, hrewrite⟩ := hp.exists_text ht hg
  refine ⟨key, old, f, hwalk, hold, hparse, hrewrite, ?_⟩
  have hperformed := hstep.performed hs hperform
  -- Whichever path was written to last, it was read from the same file.
  have hsame {q : Path} {text : String} (hq : .write q text ∈ p.effects span)
      (hq' : s'.walk q = .ok key) : text = g.text := by
    obtain ⟨u, hu, g', hg', rfl, rfl⟩ := (hp.write_in_place hout hq).2
    obtain ⟨key', -, -, hwalk', -⟩ := hp.exists_text hu hg'
    have hkey := hperformed.toExtends.walk hwalk'
    rw [hq'] at hkey
    cases hkey
    rw [hp.rewritten?_unique hu ht hg' hg (hwalk'.trans hwalk.symm)]
  cases refused with
  | none =>
      have hmem : .write (t.target a.outDir) g.text ∈ p.effects span :=
        hp.target_mem_effects hcheck ht hg
      rw [hout] at hmem
      obtain ⟨key', q, text, hwalk', hq, hq', hfile⟩ :=
        Store.exists_fileAt?_of_perform hs (hstep.perform_apply hperform) hmem
      have hkey : s'.walk t.path = .ok key := hperformed.toExtends.walk hwalk
      have hkey' : s'.walk t.path = .ok key' := hwalk'
      rw [hkey] at hkey'
      cases hkey'
      rw [← hsame hq hq']
      exact .inl hfile
  | some e =>
      rcases hperformed.fileAt?_eq key with heq | ⟨q, text, hq, hq', hfile⟩
      · exact .inr ⟨Option.some_ne_none e, heq.trans hold⟩
      · rw [← hsame hq hq']
        exact .inl hfile

/-- A file that changed is that of a tree that was fixed. -/
theorem fixed_of_changed (hp : p.Ready s a) (hout : a.outDir = none)
    (hperformed : s.Performed s' (p.effects span)) (hne : s'.fileAt? key ≠ s.fileAt? key) :
    a.check = false ∧ ∃ t ∈ p.outcome.trees, t.status = .fixed ∧ s.walk t.path = .ok key := by
  obtain ⟨q, text, hq, hwalk, -⟩ := (hperformed.fileAt?_eq key).resolve_left hne
  obtain ⟨hcheck, t, ht, f, hf, rfl, rfl⟩ := hp.write_in_place hout hq
  obtain ⟨key', -, -, hwalk', -⟩ := hp.exists_text ht hf
  have hkey := hperformed.toExtends.walk hwalk'
  rw [hwalk] at hkey
  cases hkey
  exact ⟨hcheck, t, ht, t.status_eq_fixed_iff.2 ⟨f, hf⟩, hwalk'⟩

/-! ## With an output directory -/

theorem Prepared.WritesTo.isPrefix {root : Key} (h : p.WritesTo root key) : root <+: key := by
  rcases h with rfl | rfl | ⟨-, t, -, -, names, -, rfl⟩ <;> exact List.prefix_append _ _

/-- A file that changed is one of the keys below the output directory that the run writes
to. -/
theorem writesTo_of_changed (hs : s.WellFormed) (hp : p.Ready s a) (hout : a.outDir = some out)
    (hperformed : s.Performed s' (p.effects span)) (hne : s'.fileAt? key ≠ s.fileAt? key) :
    ∃ root, s'.walk out = .ok root ∧ p.WritesTo root key := by
  obtain ⟨q, text, hq, hwalk, -⟩ := (hperformed.fileAt?_eq key).resolve_left hne
  rcases hp.write_mem_effects hq with ⟨hcheck, t, ht, f, hf, rfl, rfl⟩ | ⟨out', hout', hq⟩
  · obtain ⟨names, hplace⟩ := hp.exists_madeOf hs ht
    rw [hout] at hwalk
    obtain ⟨root, hroot, rfl⟩ := ProcessedTree.eq_append_of_walk_target hplace hwalk
    have hmode : p.outcome.mode = .write := by rw [hp.mode, hcheck]; rfl
    exact ⟨root, hroot, .inr (.inr
      ⟨hmode, t, ht, t.status_eq_fixed_iff.2 ⟨f, hf⟩, names, hplace, rfl⟩)⟩
  · rw [hout] at hout'
    cases hout'
    rcases Report.write_mem_effects hq with ⟨rfl, -⟩ | ⟨rfl, -⟩
    · obtain ⟨root, hroot, rfl⟩ :=
        Store.eq_append_of_walk_join (Path.madeOf_name (by decide)) hwalk
      exact ⟨root, hroot, .inl rfl⟩
    · obtain ⟨root, hroot, rfl⟩ :=
        Store.eq_append_of_walk_join (Path.madeOf_name (by decide)) hwalk
      exact ⟨root, hroot, .inr (.inl rfl)⟩

/-! ## The command -/

/-- What the command `fix` leaves alone, even if it ends in an error, and however
cautiously its effects are carried out.  A run that only checks and has no output
directory changes no file.  A run that writes over its inputs changes the files of trees
that were fixed, and each of them holds the text of its rewritten build file in the end,
or, if a write was refused, what it held before.  A run with an output directory changes
files below that directory, and if it only checks, the report and the summary in it. -/
theorem fix_frame (hs : s.WellFormed) (hstep : Store.Cautious step)
    (hfix : fixWith step s span a = (reply, s')) :
    (a.outDir = none → a.check = true → ∀ key, s'.fileAt? key = s.fileAt? key) ∧
    (a.outDir = none → a.check = false →
      (∀ key, s'.fileAt? key ≠ s.fileAt? key → ∃ p, prepare s a = .ok p ∧
        ∃ t ∈ p.outcome.trees, t.status = .fixed ∧ s.walk t.path = .ok key) ∧
      ∀ p, prepare s a = .ok p → ∀ t ∈ p.outcome.trees, t.status = .fixed →
        ∃ key old f, s.walk t.path = .ok key ∧ s.fileAt? key = some (.text old) ∧
          File.parse old = .ok f ∧
          (s'.fileAt? key = some (.text (p.rewrite f).file.text) ∨
            s'.fileAt? key = some (.text old) ∧ ∃ e, reply = (FixError.write e).reply)) ∧
    (∀ out, a.outDir = some out → ∀ key, s'.fileAt? key ≠ s.fileAt? key →
      ∃ root, s'.walk out = .ok root ∧ root <+: key ∧
        (a.check = true → key = root ++ ["report.json"] ∨ key = root ++ ["summary.md"])) := by
  rcases fixWith_cases hfix with ⟨e, he, -, rfl⟩ | ⟨p, hprepare, hcases⟩
  · refine ⟨fun _ _ _ => rfl, fun _ _ => ⟨fun key hne => absurd rfl hne, fun p hp => ?_⟩,
      fun out _ key hne => absurd rfl hne⟩
    rw [he] at hp
    cases hp
  · have hp := prepare_eq_ok hprepare
    obtain ⟨refused, hperform, hreply⟩ : ∃ refused,
        Effect.perform step s (p.effects span) = (s', refused) ∧
          (refused ≠ none → ∃ e, reply = (FixError.write e).reply) := by
      rcases hcases with ⟨hperform, -⟩ | ⟨e, hperform, rfl⟩
      · exact ⟨none, hperform, fun hne => absurd rfl hne⟩
      · exact ⟨some e, hperform, fun _ => ⟨e, rfl⟩⟩
    have hperformed := hstep.performed hs hperform
    refine ⟨fun hout hcheck key => ?_, fun hout hcheck => ⟨fun key hne => ?_, ?_⟩,
      fun out hout key hne => ?_⟩
    · by_contra hne
      have hfalse := (fixed_of_changed hp hout hperformed hne).1
      rw [hcheck] at hfalse
      cases hfalse
    · exact ⟨p, hprepare, (fixed_of_changed hp hout hperformed hne).2⟩
    · intro p' hprepare' t ht hfixed
      rw [hprepare] at hprepare'
      cases hprepare'
      obtain ⟨g, hg⟩ := t.status_eq_fixed_iff.1 hfixed
      obtain ⟨key, old, f, hwalk, hold, hparse, rfl, hfile⟩ :=
        rewritten_in_place hs hstep hp hout hcheck hperform ht hg
      exact ⟨key, old, f, hwalk, hold, hparse,
        hfile.imp_right fun h => ⟨h.2, hreply h.1⟩⟩
    · obtain ⟨root, hroot, hwrites⟩ := writesTo_of_changed hs hp hout hperformed hne
      refine ⟨root, hroot, hwrites.isPrefix, fun hcheck => ?_⟩
      rcases hwrites with hreport | hsummary | ⟨hmode, -⟩
      · exact .inl hreport
      · exact .inr hsummary
      · rw [hp.mode, hcheck] at hmode
        cases hmode

theorem fixWith_of_prepare (h : prepare s a = .ok p)
    (step : Store → Effect → Store × Option WriteError) (span : Span) :
    fixWith step s span a =
      ((match (Effect.perform step s (p.effects span)).2 with
        | none => p.reply
        | some e => (FixError.write e).reply),
        (Effect.perform step s (p.effects span)).1) := by
  rw [fixWith, h]
  dsimp only
  generalize Effect.perform step s (p.effects span) = done
  obtain ⟨mid, _ | e⟩ := done <;> rfl

/-- Without a workspace file the usual conventions hold. -/
theorem prepare_of_load (hfile : WorkspaceFile.find? s ⟨"."⟩ = none) (hconfig : a.config = none)
    (hload : s.load a.inputs a.outDir = .ok trees)
    (hsettings : settings =
      { outDir := a.outDir, check := a.check, disabled := WorkspaceFile.addKeys [] a.disabled })
    (hrun : settings.run (.ok trees) = .ok o) : prepare s a = .ok ⟨settings, o⟩ := by
  have hworkspace : WorkspaceFile.load s a.config ⟨"."⟩ = .ok {} := by
    rw [WorkspaceFile.load, hconfig, hfile]
    rfl
  have hmerge : ({} : WorkspaceFile).merge a.disabled =
      .ok ⟨{}, WorkspaceFile.addKeys [] a.disabled⟩ := rfl
  subst hsettings
  simp only [prepare, hworkspace, hmerge, hload, Except.mapError, bind, Except.bind, hrun]
  rfl

end Program

/-! ## A locked tree -/

/-- The command that fixes two trees where they are. -/
def twinsInPlace : FixRequest := { inputs := [⟨"a/BUILD.json"⟩, ⟨"b/BUILD.json"⟩] }

/-- The second of the two trees is locked. -/
def secondLocked (e : Effect) : Option WriteError :=
  if e.path = ⟨"b/BUILD.json"⟩ then some (.file e.path .taken) else none

/-- The run that the command comes to. -/
def twinsPrepared : Prepared where
  settings := {}
  outcome := ⟨.write, Fixer.all, [twin "a", twin "b"].map (.of {} Fixer.all)⟩

theorem prepare_twinsInPlace : Program.prepare twins twinsInPlace = .ok twinsPrepared :=
  Program.prepare_of_load (by decide +kernel) rfl twins_load rfl rfl

/-- What came of the command. -/
def lockedTwins : Reply × Store :=
  Program.fixWith (Store.applyUnless secondLocked) twins ⟨⟨0, 0⟩, ⟨0, 0⟩⟩ twinsInPlace

/-- The first tree is written and the second is as it was, and no other file is
another one. -/
theorem lockedTwins_framed : twins.WellFormed ∧
    Store.Cautious (Store.applyUnless secondLocked) ∧ lockedTwins.1.exit = 1 ∧
    lockedTwins.2.fileAt? ["a", "BUILD.json"] =
      some (.text (Fixed.run {} Fixer.all (unloaded "a")).file.text) ∧
    ∀ key, lockedTwins.2.fileAt? key ≠ twins.fileAt? key → key = ["a", "BUILD.json"] := by
  have hs : twins.WellFormed := by decide +kernel
  have hfix := Program.fixWith_of_prepare prepare_twinsInPlace
    (Store.applyUnless secondLocked) ⟨⟨0, 0⟩, ⟨0, 0⟩⟩
  change lockedTwins = _ at hfix
  have hsecond : lockedTwins.2.fileAt? ["b", "BUILD.json"] =
      twins.fileAt? ["b", "BUILD.json"] := by
    rw [hfix]
    rfl
  refine ⟨hs, Store.cautious_applyUnless secondLocked, by rw [hfix]; decide +kernel,
    by rw [hfix]; rfl, fun key hne => ?_⟩
  obtain ⟨-, hinPlace, -⟩ := Program.fix_frame hs
    (Store.cautious_applyUnless secondLocked) (Prod.mk.eta (p := lockedTwins)).symm
  obtain ⟨p, hp, t, ht, -, hwalk⟩ := (hinPlace rfl rfl).1 key hne
  rw [prepare_twinsInPlace] at hp
  cases hp
  have ha : twins.walk ⟨"a/BUILD.json"⟩ = .ok ["a", "BUILD.json"] := by decide +kernel
  have hb : twins.walk ⟨"b/BUILD.json"⟩ = .ok ["b", "BUILD.json"] := by decide +kernel
  rcases List.mem_pair.1 ht with rfl | rfl
  · exact Except.ok.inj (hwalk.symm.trans ha)
  · cases Except.ok.inj (hwalk.symm.trans hb)
    exact absurd hsecond hne

end BuildFix
