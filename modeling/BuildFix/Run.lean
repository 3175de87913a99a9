import BuildFix.Fixer
import BuildFix.Path
import BuildFix.Report
import BuildFix.Tree.Encode

/-!
# Runs

A run takes trees from a source, runs the enabled fixers over each, and knows
what is to be written.  A tree that could not be read is noted and the run goes
on.  A fixer that does not exist, or a source that yields no trees at all, stops
the run.

What a run writes is a list of effects (`Outcome.effects`): the trees that changed, each
at its target, and then, if there is an output directory, the report and the
summary in it.  A run that only checks writes no trees.  Effects are carried out
in order until one is refused (`Effect.perform`).
-/

namespace BuildFix

/-! ## Trees -/

/-- Why a tree could not be read. -/
inductive LoadError where
  /-- The file could not be read. -/
  | io (message : String)
  /-- The text of the file is no tree. -/
  | json (message : String)
deriving DecidableEq, Repr

/-- What an error says. -/
def LoadError.message : LoadError → String
  | io message => "io error: " ++ message
  | json message => "invalid tree json: " ++ message

/-- A tree handed over by a source. -/
structure SourceTree where
  /-- Where the tree is. -/
  path : Path
  /-- Where the tree is below the input it was found under. -/
  relPath : Path
  /-- The tree, or why it could not be read. -/
  content : Except LoadError File

/-- The trees of a list in the order of their paths. -/
def SourceTree.sorted (trees : List SourceTree) : List SourceTree := Path.sort path trees

/-- Build files as trees, each named after its own path. -/
def SourceTree.ofFiles (files : List File) : List SourceTree :=
  sorted (files.map fun f => ⟨⟨f.path ++ ".json"⟩, ⟨f.path ++ ".json"⟩, .ok f⟩)

/-- What a run is told. -/
structure Settings where
  /-- Where trees and the report are written, if not over the inputs. -/
  outDir : Option Path := none
  /-- Write no trees. -/
  check : Bool := false
  /-- The keys of the fixers to leave out. -/
  disabled : List String := []
  /-- The conventions of the workspace. -/
  conventions : Conventions := {}

/-! ## Errors -/

/-- Why a run stops. -/
inductive RunError where
  /-- A key names no fixer. -/
  | unknownFixer (key : String)
  /-- The source yields no trees. -/
  | load (message : String)
  /-- Trees would change in a run that only checks. -/
  | pending (count : Nat)
deriving DecidableEq, Repr

/-- What an error says. -/
def RunError.message : RunError → String
  | unknownFixer key =>
      "unknown fixer key `" ++ key ++ "` (known: " ++
        Report.keyList (Fixer.all.map Fixer.key) ++ ")"
  | load message => "load trees: " ++ message
  | pending count => toString count ++ " file(s) would be changed"

/-- The exit code that tells of an error. -/
def RunError.exitCode : RunError → Nat
  | unknownFixer _ | load _ => 1
  | pending _ => 2

/-! ## Outcomes -/

/-- What became of a tree. -/
structure ProcessedTree where
  /-- Where the tree is. -/
  path : Path
  /-- Where the tree is below the input it was found under. -/
  relPath : Path
  /-- The tree after the fixers, or why it could not be read. -/
  result : Except LoadError Fixed

namespace ProcessedTree

/-- A tree after the fixers. -/
def of (cv : Conventions) (fixers : List Fixer) (t : SourceTree) : ProcessedTree :=
  ⟨t.path, t.relPath, t.content.map (Fixed.run cv fixers)⟩

/-- The rewritten build file, if a fixer changed it. -/
def rewritten? (t : ProcessedTree) : Option File :=
  match t.result with
  | .ok r => if r.changed then some r.file else none
  | .error _ => none

/-- The status of a tree. -/
def status (t : ProcessedTree) : TreeStatus :=
  match t.result with
  | .ok r => if r.changed then .fixed else .unchanged
  | .error _ => .failed

/-- What the report says about a tree. -/
def entry (t : ProcessedTree) : Entry :=
  match t.result with
  | .ok r =>
      { path := t.path.text, buildFile := some r.file.path, status := t.status
        applied := r.applied.map Fixer.key }
  | .error e => { path := t.path.text, status := t.status, error := some e.message }

/-- The warnings about a tree. -/
def warnings (t : ProcessedTree) : List String :=
  match t.result with
  | .ok r => r.surplus.map Surplus.message
  | .error _ => ["failed to load tree"]

/-- Where a tree is written. -/
def target (outDir : Option Path) (t : ProcessedTree) : Path :=
  match outDir with
  | some dir => (dir.join ⟨"trees"⟩).join t.relPath
  | none => t.path

end ProcessedTree

/-- What came of a run. -/
structure Outcome where
  /-- What the run was allowed to do. -/
  mode : RunMode
  /-- The fixers of the run. -/
  fixers : List Fixer
  /-- The trees, in order. -/
  trees : List ProcessedTree

namespace Outcome

/-- The number of trees that changed. -/
def pending (o : Outcome) : Nat := (Counts.of (o.trees.map ProcessedTree.entry)).fixed

/-- The error of a run that only checks and finds trees that would change. -/
def check (o : Outcome) : Except RunError Unit :=
  if o.mode = .check ∧ 0 < o.pending then .error (.pending o.pending) else .ok ()

/-- The report of a run. -/
def report (o : Outcome) (tool : Tool) (span : Span) : Report where
  tool
  span
  mode := o.mode
  fixers := o.fixers.map Fixer.key
  entries := o.trees.map ProcessedTree.entry

end Outcome

/-- The mode that settings ask for. -/
def Settings.mode (s : Settings) : RunMode := if s.check then .check else .write

/-- The run over the trees of a source, which may have failed with a message. -/
def Settings.run (s : Settings) (source : Except String (List SourceTree)) :
    Except RunError Outcome :=
  match s.disabled.find? fun key => (Fixer.ofKey? key).isNone with
  | some key => .error (.unknownFixer key)
  | none =>
      match source with
      | .error message => .error (.load message)
      | .ok trees =>
          let fixers := Fixer.without Fixer.all s.disabled
          .ok ⟨s.mode, fixers, trees.map (ProcessedTree.of s.conventions fixers)⟩

/-! ## Effects -/

/-- A change to the file system. -/
inductive Effect where
  /-- Write a file, with the directories above it. -/
  | write (path : Path) (text : String)
  /-- Make a directory, with the directories above it. -/
  | makeDir (path : Path)
deriving DecidableEq, Repr

/-- The path that an effect is about. -/
def Effect.path : Effect → Path
  | write path _ | makeDir path => path

/-- The effect that writes a tree, if it changed. -/
def ProcessedTree.write? (outDir : Option Path) (t : ProcessedTree) : Option Effect :=
  t.rewritten?.map fun f => .write (t.target outDir) f.text

/-- The effects that write the report. -/
def Report.effects (r : Report) (dir : Path) : List Effect :=
  [.makeDir dir, .write (dir.join ⟨"report.json"⟩) r.text,
    .write (dir.join ⟨"summary.md"⟩) r.summary]

/-- The effects of a run, in order. -/
def Outcome.effects (o : Outcome) (outDir : Option Path) (r : Report) : List Effect :=
  (if o.mode = .check then [] else o.trees.filterMap (ProcessedTree.write? outDir)) ++
    match outDir with
    | some dir => r.effects dir
    | none => []

/-- Carry out effects on a state until one is refused.  An effect that is refused
may have changed the state before. -/
def Effect.perform {σ ε : Type} (step : σ → Effect → σ × Option ε) (state : σ) :
    List Effect → σ × Option ε
  | [] => (state, none)
  | e :: es =>
      match step state e with
      | (state, none) => perform step state es
      | (state, some error) => (state, some error)

end BuildFix
