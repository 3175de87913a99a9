import BuildFix.CommandLine
import BuildFix.Manual
import BuildFix.Store.Settings
import BuildFix.Store.Trees
import BuildFix.Store.Write

/-!
# The program

What the program does with a command line and a file store.  Its reply is an exit
code, what it prints, and for its log what stopped it.

The command `fix` loads the workspace file, finds the trees, runs the fixers and
writes.  It says what became of every tree, but only after everything was
written.  The exit code is 1 if the program could not do its work or could not
read a tree, and 2 if trees would change in a run that only checks.  A command
line that makes no sense has the exit code 2 as well, and then nothing is
printed.

`Program.respond` is the whole program.  Its parts `Program.prepare`,
`Prepared.effects` and `Prepared.reply` are there for those who carry out the
effects elsewhere.
-/

namespace BuildFix

/-- What the program tells those who run it. -/
structure Reply where
  /-- The exit code. -/
  exit : Nat
  /-- What is printed. -/
  output : String := ""
  /-- The lines of the error output. -/
  errors : List String := []
  /-- What stopped the program. -/
  failure : Option String := none
deriving DecidableEq, Repr, Inhabited

namespace Program

/-- The program, as reports name it. -/
def tool : Tool := ⟨"bzlfix", some "0.1.0"⟩

/-- Lines as a text. -/
def lines (ls : List String) : String := String.join (ls.map (· ++ "\n"))

/-- A word with blanks behind it, up to a width. -/
def padRight (width : Nat) (word : String) : String :=
  word.pushn ' ' (width - word.length)

/-! ## The command `fix` -/

/-- A run that is ready to write. -/
structure Prepared where
  /-- The settings of the run. -/
  settings : Settings
  /-- What came of the run. -/
  outcome : Outcome

/-- Why the command `fix` could not do its work. -/
inductive FixError where
  /-- The workspace file could not be loaded. -/
  | settings (e : SettingsError)
  /-- The workspace file is refused. -/
  | merge (e : MergeError)
  /-- The run stopped. -/
  | run (e : RunError)
  /-- Something could not be written. -/
  | write (e : WriteError)
  /-- Trees could not be read. -/
  | unread (count : Nat)
deriving DecidableEq, Repr

/-- What an error says. -/
def FixError.message : FixError → String
  | settings e => "load bzlfix.toml config: " ++ e.message
  | merge e => "merge config: " ++ e.message
  | run e => e.message
  | write e => "write artifacts: " ++ e.message
  | unread count => toString count ++ " input(s) could not be loaded"

/-- The reply of a program that could not do its work. -/
def FixError.reply (e : FixError) : Reply := { exit := 1, failure := some e.message }

/-- The run that the command `fix` asks for. -/
def prepare (s : Store) (a : FixRequest) : Except FixError Prepared := do
  let w ← (WorkspaceFile.load s a.config ⟨"."⟩).mapError FixError.settings
  let m ← (w.merge a.disabled).mapError FixError.merge
  let settings : Settings :=
    { outDir := a.outDir, check := a.check, disabled := m.disabled, conventions := m.conventions }
  let source := (s.load a.inputs a.outDir).mapError InputError.message
  let outcome ← (settings.run source).mapError FixError.run
  return ⟨settings, outcome⟩

/-- The effects of a run that took some time. -/
def Prepared.effects (p : Prepared) (span : Span) : List Effect :=
  p.outcome.effects p.settings.outDir (p.outcome.report tool span)

/-- The word for what became of a tree. -/
def label (check : Bool) : TreeStatus → String
  | .unchanged => "unchanged"
  | .fixed => if check then "would fix" else "fixed"
  | .failed => "failed"

/-- The line on a tree. -/
def treeLine (check : Bool) (e : Entry) : String :=
  padRight 10 (label check e.status) ++ " " ++ e.path ++
    if e.applied.isEmpty then "" else " (" ++ Report.keyList e.applied ++ ")"

/-- The reply after everything was written. -/
def Prepared.reply (p : Prepared) : Reply :=
  let entries := p.outcome.trees.map ProcessedTree.entry
  let output := lines (entries.map (treeLine p.settings.check))
  let failed := (Counts.of entries).failed
  if 0 < failed then { (FixError.unread failed).reply with output }
  else match p.outcome.check with
    | .ok _ => { exit := 0, output }
    | .error e => { exit := e.exitCode, output, errors := ["bzlfix: " ++ e.message] }

/-- The command `fix`, where each effect is carried out by `step`. -/
def fixWith (step : Store → Effect → Store × Option WriteError) (s : Store) (span : Span)
    (a : FixRequest) : Reply × Store :=
  match prepare s a with
  | .error e => (e.reply, s)
  | .ok p =>
      match Effect.perform step s (p.effects span) with
      | (s, none) => (p.reply, s)
      | (s, some e) => ((FixError.write e).reply, s)

/-- The command `fix`. -/
def fix (s : Store) (span : Span) (a : FixRequest) : Reply × Store := fixWith Store.apply s span a

/-! ## The manual -/

/-- A line across the page. -/
def rule (c : Char) : String := "".pushn c 80

/-- A page of the manual. -/
def page (m : ManualEntry) : String :=
  lines ([rule '=', "FIX: " ++ m.title, rule '=', "", "Key:     " ++ m.fixer.key, "",
    "DESCRIPTION", rule '-', m.description, "", "TRIGGERS", rule '-'] ++
    m.triggers.map ("  - " ++ ·) ++
    ["", "REMEDIATION GUIDANCE", rule '-', m.remediation, ""])

/-- All fixers as a table. -/
def fixerTable : String :=
  let row (key title : String) := "  " ++ padRight 16 key ++ " " ++ title
  lines (["Available fixes:", "", row "KEY" "TITLE", row "---" "-----"] ++
    manual.map (fun m => row m.fixer.key m.title) ++
    ["", "Use 'bzlfix explain <key>' for details."])

/-- All fixers as JSON. -/
def fixerJson : Json :=
  .array (manual.map fun m =>
    .object [("description", .string m.description), ("key", .string m.fixer.key),
      ("title", .string m.title), ("triggers", .strings m.triggers)])

/-! ## All commands -/

/-- How the program is used. -/
def usage : String :=
  lines ["Upgrades previously generated Bazel build files and keeps their loads in sync.", "",
    "Usage: bzlfix <COMMAND>", "", "Commands:",
    "  fix         Fix parsed build file trees (JSON), in place or into an output directory",
    "  explain     Explain what a fixer does and how to make the change by hand",
    "  list-fixes  List all available fixers"]

/-- What is said about a key that names no fixer. -/
def unknownKey (query : String) : String :=
  "Unknown fix key: '" ++ query ++ "'\n\nAvailable fixes: " ++
    Report.keyList (Fixer.all.map Fixer.key)

/-- The reply to a command line that makes no sense. -/
def misuse : Reply := { exit := 2, failure := some usage }

/-- The reply to a command that has nothing to do with files. -/
def replyTo? : Command → Option Reply
  | .fix _ => none
  | .explain query =>
      match lookUp? query with
      | some m => some { exit := 0, output := page m }
      | none => some { exit := 1, failure := some (unknownKey query) }
  | .listFixes .text => some { exit := 0, output := fixerTable }
  | .listFixes .json => some { exit := 0, output := fixerJson.pretty ++ "\n" }
  | .version => some { exit := 0, output := "bzlfix 0.1.0\n" }
  | .help => some { exit := 0, output := usage }

/-- The reply to a command line. -/
def respond (s : Store) (span : Span) (args : List String) : Reply × Store :=
  match CommandLine.parse? args with
  | none => (misuse, s)
  | some (.fix a) => fix s span a
  | some c => ((replyTo? c).getD misuse, s)

end Program

end BuildFix
