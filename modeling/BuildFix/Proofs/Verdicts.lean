import BuildFix.Proofs.Changes
import BuildFix.Proofs.Frame

/-!
# Verdicts and exit codes

What became of the trees is told four times: by the entries of the report, by its counts
and its verdict, by the error of a run that only checks, and by the exit code.  Each of
them is found from the trees on its own, and a tree that could not be read goes before
one that would change.

An entry says of its tree whether it was read, and names a fixer if the tree was fixed
(`TellsOf`).  The counts number the entries.  The reply of the command `fix` has the exit
code that stands for the verdict (`exit_reply`), in both modes, and the three exit codes
differ, so each tells which verdict it was (`Settings.report_agrees`).
-/

namespace BuildFix

open Program (Prepared)

variable {cv : Conventions} {settings : Settings}

/-! ## Counts and codes -/

/-- The number of trees of a status. -/
def Counts.get (c : Counts) : TreeStatus → Nat
  | .unchanged => c.unchanged
  | .fixed => c.fixed
  | .failed => c.failed

theorem Counts.get_of (entries : List Entry) (status : TreeStatus) :
    (Counts.of entries).get status = entries.countP (·.status == status) := by
  cases status <;> rfl

/-- The exit code that stands for a verdict. -/
def Verdict.exitCode : Verdict → Nat
  | pass => 0
  | fail => 1
  | warn => 2

theorem Verdict.exitCode_injective : Function.Injective Verdict.exitCode := by
  intro v w h
  cases v <;> cases w <;> first | rfl | cases h

/-! ## Entries -/

/-- A fixer keeps the name of the build file. -/
theorem Fixer.path_rewrite {fixer : Fixer} {f g : File} (h : fixer.rewrite cv f = some g) :
    g.path = f.path := by
  cases fixer with
  | legacy =>
      obtain ⟨stmts, -, rfl⟩ := Option.map_eq_some_iff.1 h
      rfl
  | loads =>
      simp only [rewrite, SymbolTable.reconcile] at h
      split at h
      · cases h
      · cases h
        rfl

theorem Fixed.path_step (r : Fixed) (fixer : Fixer) :
    (step cv r fixer).file.path = r.file.path := by
  rw [file_step]
  cases h : fixer.rewrite cv r.file with
  | none => rfl
  | some g => exact Fixer.path_rewrite h

theorem Fixed.path_run (fixers : List Fixer) (f : File) : (run cv fixers f).file.path = f.path := by
  have hfold (r : Fixed) : (fixers.foldl (step cv) r).file.path = r.file.path := by
    induction fixers generalizing r with
    | nil => rfl
    | cons fixer fixers ih => exact (ih (step cv r fixer)).trans (r.path_step fixer)
  exact hfold { file := f }

/-- What an entry of a report says about a tree. -/
structure Entry.TellsOf (e : Entry) (tree : SourceTree) : Prop where
  /-- It says where the tree is. -/
  path : e.path = tree.path.text
  /-- It names the build file if the tree was read, and none otherwise. -/
  buildFile : e.buildFile = tree.content.toOption.map File.path
  /-- It says why the tree could not be read, and has no error otherwise. -/
  error : ∀ message, e.error = some message ↔
    ∃ cause : LoadError, tree.content = .error cause ∧ message = cause.message
  /-- The tree failed if it could not be read. -/
  failed : e.status = .failed ↔ tree.content.isOk = false
  /-- Fixers are named if the tree was fixed. -/
  applied : e.applied ≠ [] ↔ e.status = .fixed

theorem ProcessedTree.entry_tellsOf (cv : Conventions) (fixers : List Fixer) (tree : SourceTree) :
    (ProcessedTree.of cv fixers tree).entry.TellsOf tree := by
  obtain ⟨path, relPath, content⟩ := tree
  cases content with
  | error cause =>
      refine ⟨rfl, rfl, fun message => ?_, iff_of_true rfl rfl, iff_of_false (fun h => h rfl) nofun⟩
      simp [ProcessedTree.of, entry, Except.map, eq_comm]
  | ok f =>
      refine ⟨rfl, ?_, fun message => ?_, ?_, ?_⟩
      · exact congrArg some (Fixed.path_run fixers f)
      · simp [ProcessedTree.of, entry, Except.map]
      · rw [status_entry]
        simp only [ProcessedTree.of, status, Except.map, Except.isOk, Except.toBool]
        split <;> simp
      · rw [status_entry]
        simp only [ProcessedTree.of, entry, status, Except.map, Fixed.changed]
        by_cases h : (Fixed.run cv fixers f).applied = [] <;> simp [h]

theorem Outcome.entries_tell (mode : RunMode) (cv : Conventions) (fixers : List Fixer)
    (trees : List SourceTree) (tool : Tool) (span : Span) :
    List.Forall₂ Entry.TellsOf
      (Outcome.report ⟨mode, fixers, trees.map (.of cv fixers)⟩ tool span).entries trees := by
  show List.Forall₂ _ ((trees.map (ProcessedTree.of cv fixers)).map ProcessedTree.entry) trees
  rw [List.map_map, List.forall₂_map_left_iff, List.forall₂_same]
  exact fun tree _ => ProcessedTree.entry_tellsOf cv fixers tree

/-! ## Replies -/

namespace Program

/-- The exit code of the command `fix` stands for the verdict of the report. -/
theorem Prepared.exit_reply (p : Prepared) (tool : Tool) (span : Span) :
    p.reply.exit = (p.outcome.report tool span).verdict.exitCode := by
  have hverdict : (p.outcome.report tool span).verdict =
      .of p.outcome.mode (.of (p.outcome.trees.map ProcessedTree.entry)) := rfl
  rw [hverdict, Verdict.of, reply]
  by_cases hfailed : 0 < (Counts.of (p.outcome.trees.map ProcessedTree.entry)).failed
  · simp only [hfailed, if_true]
    rfl
  · by_cases hpending : p.outcome.mode = .check ∧ 0 < p.outcome.pending
    · have hcheck : p.outcome.check = .error (.pending p.outcome.pending) := if_pos hpending
      have hwarn := hpending
      rw [Outcome.pending] at hwarn
      simp only [hfailed, hwarn, hcheck, if_false, and_self, if_true]
      rfl
    · have hcheck : p.outcome.check = .ok () := if_neg hpending
      have hpass := hpending
      rw [Outcome.pending] at hpass
      simp only [hfailed, hpass, hcheck, if_false]
      rfl

end Program

/-! ## Agreement -/

/-- Where all disabled keys are known a run succeeds, whatever could be read.  Its report
has one entry for each tree, in order, and says of each what came of it.  The counts
number all trees, and each of them the entries of its status.  The exit code tells which
verdict it was, and the command `fix` replies with it once everything was written. -/
theorem Settings.report_agrees
    (hknown : ∀ key ∈ settings.disabled, (Fixer.ofKey? key).isSome = true)
    (trees : List SourceTree) :
    ∃ o, settings.run (.ok trees) = .ok o ∧ ∀ tool span,
      let report := o.report tool span
      let reply := Prepared.reply ⟨settings, o⟩
      List.Forall₂ Entry.TellsOf report.entries trees ∧
      report.counts.unchanged + report.counts.fixed + report.counts.failed = trees.length ∧
      (∀ status, report.counts.get status = report.entries.countP (·.status == status)) ∧
      (reply.exit = 1 ↔ report.verdict = .fail) ∧
      (reply.exit = 2 ↔ report.verdict = .warn) ∧
      (reply.exit = 0 ↔ report.verdict = .pass) ∧
      ∀ step s s' a, Program.prepare s a = .ok ⟨settings, o⟩ →
        Effect.perform step s (Prepared.effects ⟨settings, o⟩ span) = (s', none) →
        Program.fixWith step s span a = (reply, s') := by
  refine ⟨_, Settings.run_eq_ok_iff.2 ⟨hknown, trees, rfl, rfl⟩, fun tool span => ?_⟩
  intro report reply
  have htell : List.Forall₂ Entry.TellsOf report.entries trees := Outcome.entries_tell ..
  have hexit : reply.exit = report.verdict.exitCode := Prepared.exit_reply _ tool span
  have hcode (v : Verdict) : reply.exit = v.exitCode ↔ report.verdict = v := by
    rw [hexit, Verdict.exitCode_injective.eq_iff]
  refine ⟨htell, ?_, Counts.get_of _, hcode .fail, hcode .warn, hcode .pass, ?_⟩
  · rw [← htell.length_eq]
    exact Counts.total report.entries
  · intro step s s' a hprepare hperform
    rw [Program.fixWith_of_prepare hprepare, hperform]

/-! ## A tree that cannot be read -/

/-- A store with a tree that can be read and one that cannot. -/
def halfReadable : Store where
  nodes := [(["a.json"], .file (.text (unloaded "a").text)), (["b.json"], .file (.binary [255]))]

/-- The command that only checks the loads of the two trees. -/
def checkLoads : FixRequest :=
  { inputs := [⟨"a.json"⟩, ⟨"b.json"⟩], check := true, disabled := [Fixer.legacy.key] }

/-- The two trees. -/
def halfTrees : List SourceTree :=
  [⟨⟨"a.json"⟩, ⟨"a.json"⟩, .ok (unloaded "a")⟩,
    ⟨⟨"b.json"⟩, ⟨"b.json"⟩, .error (.io StoreError.notText.message)⟩]

/-- The run that the command comes to. -/
def halfPrepared : Prepared where
  settings := { check := true, disabled := [Fixer.legacy.key] }
  outcome := ⟨.check, [.loads], halfTrees.map (.of {} [.loads])⟩

theorem halfReadable_load : halfReadable.load checkLoads.inputs none = .ok halfTrees := by
  refine Store.load_of_find (by decide +kernel) fun t ht => ?_
  rcases List.mem_pair.1 ht with rfl | rfl
  · exact Store.treeAt_text (by decide +kernel) (by decide +kernel)
  · rfl

/-- One tree would change, but the other makes the run fail. -/
theorem halfReadable_fails :
    (∀ key ∈ halfPrepared.settings.disabled, (Fixer.ofKey? key).isSome = true) ∧
    (halfPrepared.outcome.report Program.tool ⟨⟨0, 0⟩, ⟨0, 0⟩⟩).counts = ⟨0, 1, 1⟩ ∧
    (halfPrepared.outcome.report Program.tool ⟨⟨0, 0⟩, ⟨0, 0⟩⟩).verdict = .fail ∧
    (Program.fix halfReadable ⟨⟨0, 0⟩, ⟨0, 0⟩⟩ checkLoads).1.exit = 1 := by
  have hknown : ∀ key ∈ halfPrepared.settings.disabled, (Fixer.ofKey? key).isSome = true := by
    decide +kernel
  have hrun : halfPrepared.settings.run (.ok halfTrees) = .ok halfPrepared.outcome := by rfl
  have hprepare : Program.prepare halfReadable checkLoads = .ok halfPrepared :=
    Program.prepare_of_load (by decide +kernel) rfl halfReadable_load rfl hrun
  obtain ⟨o, ho, hagrees⟩ := Settings.report_agrees hknown halfTrees
  rw [hrun] at ho
  cases ho
  obtain ⟨-, -, -, hfail, -, -, hfix⟩ := hagrees Program.tool ⟨⟨0, 0⟩, ⟨0, 0⟩⟩
  have hverdict : (halfPrepared.outcome.report Program.tool ⟨⟨0, 0⟩, ⟨0, 0⟩⟩).verdict = .fail := by
    decide +kernel
  refine ⟨hknown, by decide +kernel, hverdict, ?_⟩
  rw [Program.fix, hfix Store.apply halfReadable halfReadable checkLoads hprepare rfl]
  exact hfail.2 hverdict

end BuildFix
