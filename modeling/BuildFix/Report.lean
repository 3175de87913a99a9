import BuildFix.Instant
import BuildFix.Json.Printer

/-!
# Reports

A report says what a run made of each tree.  The counts and the verdict are
computed from the entries.  A tree that could not be read fails the run.  When
the run only checks, a tree that would change is a warning.

A report is written twice, as JSON and as a summary for people.
-/

namespace BuildFix

/-- What a run may do. -/
inductive RunMode where
  /-- Write the trees that change. -/
  | write
  /-- Only say which trees would change. -/
  | check
deriving DecidableEq, Repr, Inhabited

/-- What became of a tree. -/
inductive TreeStatus where
  /-- Nothing had to be done. -/
  | unchanged
  /-- It was rewritten. -/
  | fixed
  /-- It could not be read. -/
  | failed
deriving DecidableEq, Repr

/-- What a run comes to. -/
inductive Verdict where
  | pass
  | warn
  | fail
deriving DecidableEq, Repr

/-- The word for a mode. -/
def RunMode.word : RunMode → String
  | write => "write"
  | check => "check"

/-- The word for a status. -/
def TreeStatus.word : TreeStatus → String
  | unchanged => "unchanged"
  | fixed => "fixed"
  | failed => "failed"

/-- The word for a verdict. -/
def Verdict.word : Verdict → String
  | pass => "pass"
  | warn => "warn"
  | fail => "fail"

/-- The program that made a report. -/
structure Tool where
  /-- Its name. -/
  name : String
  /-- Its version, if it is told. -/
  version : Option String := none
deriving DecidableEq, Repr, Inhabited

/-- The time a run took. -/
structure Span where
  /-- When the run started. -/
  start : Instant
  /-- When the run ended. -/
  stop : Instant
deriving DecidableEq, Repr, Inhabited

/-- The milliseconds a run took, which are none if the clock went back. -/
def Span.millis (s : Span) : Nat := s.start.millisUntil s.stop

/-- What a report says about a tree. -/
structure Entry where
  /-- The path of the tree. -/
  path : String
  /-- The build file that the tree describes, if it was read. -/
  buildFile : Option String := none
  /-- What became of the tree. -/
  status : TreeStatus
  /-- The keys of the fixers that rewrote it. -/
  applied : List String := []
  /-- Why it could not be read. -/
  error : Option String := none
deriving DecidableEq, Repr

/-- How many trees there are of each status. -/
structure Counts where
  /-- The trees left alone. -/
  unchanged : Nat
  /-- The trees rewritten. -/
  fixed : Nat
  /-- The trees that could not be read. -/
  failed : Nat
deriving DecidableEq, Repr

/-- A report. -/
structure Report where
  /-- The program that made it. -/
  tool : Tool
  /-- The time the run took. -/
  span : Span
  /-- What the run was allowed to do. -/
  mode : RunMode
  /-- The keys of the fixers of the run. -/
  fixers : List String
  /-- The trees, in order. -/
  entries : List Entry
deriving DecidableEq, Repr

/-- The number of entries of each status. -/
def Counts.of (entries : List Entry) : Counts where
  unchanged := entries.countP (·.status == .unchanged)
  fixed := entries.countP (·.status == .fixed)
  failed := entries.countP (·.status == .failed)

/-- What counts come to in a mode. -/
def Verdict.of (mode : RunMode) (c : Counts) : Verdict :=
  if 0 < c.failed then fail
  else if mode = .check ∧ 0 < c.fixed then warn
  else pass

namespace Report

/-- The counts of a report. -/
def counts (r : Report) : Counts := .of r.entries

/-- The verdict of a report. -/
def verdict (r : Report) : Verdict := .of r.mode r.counts

/-! ## JSON -/

/-- A member for a text that may be missing. -/
def textMember (key : String) : Option String → List (String × Json)
  | some s => [(key, .string s)]
  | none => []

end Report

/-- A tool as JSON. -/
def Tool.toJson (t : Tool) : Json :=
  .object (("name", .string t.name) :: Report.textMember "version" t.version)

/-- A span as JSON. -/
def Span.toJson (s : Span) : Json :=
  .object [("started_at", .string s.start.text), ("ended_at", .string s.stop.text),
    ("duration_ms", .nat s.millis)]

/-- Counts as JSON. -/
def Counts.toJson (c : Counts) : Json :=
  .object [("unchanged", .nat c.unchanged), ("fixed", .nat c.fixed), ("failed", .nat c.failed)]

/-- An entry as JSON. -/
def Entry.toJson (e : Entry) : Json :=
  .object (("path", .string e.path) :: Report.textMember "build_file" e.buildFile ++
    ("status", .string e.status.word) ::
    (if e.applied.isEmpty then [] else [("applied", .strings e.applied)]) ++
    Report.textMember "error" e.error)

namespace Report

/-- The name of the form in which reports are written. -/
def schema : String := "bzlfix.report.v1"

/-- A report as JSON. -/
def toJson (r : Report) : Json :=
  .object [("schema", .string schema), ("tool", r.tool.toJson), ("run", r.span.toJson),
    ("mode", .string r.mode.word), ("fixers", .strings r.fixers),
    ("verdict", .object [("status", .string r.verdict.word), ("counts", r.counts.toJson)]),
    ("files", .array (r.entries.map Entry.toJson))]

/-- The text written for a report. -/
def text (r : Report) : String := r.toJson.pretty ++ "\n"

/-! ## The summary -/

/-- Keys as a list in a text. -/
def keyList (keys : List String) : String := ", ".intercalate keys

/-- The line of a summary on a tree. -/
def entryLine (e : Entry) : String :=
  "- `" ++ e.path ++ "` `" ++ e.status.word ++ "`" ++
    (if e.applied.isEmpty then "" else " (" ++ keyList e.applied ++ ")") ++
    (match e.error with
      | some error => ": " ++ error
      | none => "") ++ "\n"

/-- The summary of a report. -/
def summary (r : Report) : String :=
  "# bzlfix summary\n\n" ++
    "- Mode: `" ++ r.mode.word ++ "`\n" ++
    "- Status: `" ++ r.verdict.word ++ "`\n" ++
    s!"- Files: {r.entries.length} (fixed {r.counts.fixed}, unchanged {r.counts.unchanged}, " ++
    s!"failed {r.counts.failed})\n" ++
    "- Fixers: " ++ (if r.fixers.isEmpty then "_none enabled_" else keyList r.fixers) ++ "\n\n" ++
    "## Files\n\n" ++
    (if r.entries.isEmpty then "_No inputs._\n" else String.join (r.entries.map entryLine))

end Report

theorem Counts.total (entries : List Entry) :
    (Counts.of entries).unchanged + (Counts.of entries).fixed + (Counts.of entries).failed =
      entries.length := by
  induction entries with
  | nil => rfl
  | cons e es ih =>
      simp only [Counts.of, List.countP_cons, List.length_cons] at ih ⊢
      cases e.status <;> simp <;> omega

end BuildFix
