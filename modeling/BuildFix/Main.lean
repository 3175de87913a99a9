import BuildFix.Program
import Std.Time.DateTime.Timestamp

/-!
# The command `bzlfix`

The program over the files of a computer.  It decides nothing: it takes a picture
of the files that a command line is about, hands it to `Program.prepare`, and
carries out the effects.

The picture is a file store.  It has what the arguments name and what is above
that.  What is below a directory cannot be listed here, so the files there are
named on the standard input, one path a line, as in
`find pkg -name '*.json' | bzlfix fix pkg`.  It is read only if an input is a
directory.
-/

namespace BuildFix

/-! ## The picture of the files -/

/-- The key of what a component names, seen from a key. -/
def Component.keyFrom (key : Key) : Component → Key
  | .root => []
  | .here => key
  | .up => key.dropLast
  | .name s => key ++ [s]

/-- The key of what a path names, if there are no links. -/
def Store.keyOf (s : Store) (p : Path) : Key := p.components.foldl Component.keyFrom s.cwd

/-- The store of a working directory, with nothing else in it. -/
def Store.ofCwd (cwd : Path) : Store :=
  let key := Store.keyOf {} cwd
  { cwd := key, nodes := (List.range key.length).map fun n => (key.take (n + 1), .dir) }

/-- What a path leads to.  A file that is there and cannot be read is taken for
one without a text. -/
def look (p : Path) : IO (Option Node) := do
  try
    let bytes ← IO.FS.readBinFile p.text
    return some (.file (.ofBytes (bytes.toList.map UInt8.toNat)))
  catch
    | .noFileOrDirectory .. => return none
    | .inappropriateType .. => return some .dir
    | _ => return some (.file (.binary []))

/-- The picture with what a path names and what is above it. -/
def addPath (s : Store) (p : Path) : IO Store :=
  (p.ancestors ++ [p]).foldlM (fun s p => do
    match ← look p with
    | some node => return s.set (s.keyOf p) node
    | none => return s) s

/-- The picture of the files that arguments of the command `fix` are about. -/
def picture (a : FixRequest) : IO Store := do
  let cwd := Store.ofCwd ⟨(← IO.getEnv "PWD").getD "/"⟩
  let config := a.config.getD (Path.join ⟨"."⟩ ⟨WorkspaceFile.usualName⟩)
  let s ← ([config] ++ a.outDir.toList ++ a.inputs).foldlM addPath cwd
  if a.inputs.any s.isDir then
    let below ← IO.FS.lines "/dev/stdin"
    below.toList.foldlM (fun s line => addPath s ⟨line⟩) s
  else return s

/-! ## Effects -/

/-- Make a directory with the directories above it. -/
def makeDirs (p : Path) : IO Unit := do
  if p.text != "" then IO.FS.createDirAll p.text

/-- Carry out an effect. -/
def Effect.carryOut : Effect → IO Unit
  | .makeDir p => makeDirs p
  | .write p text => do
      if let some dir := p.parent? then makeDirs dir
      IO.FS.writeFile p.text text

/-! ## The program -/

/-- The time by the clock of the computer. -/
def now : IO Instant := do
  let t ← Std.Time.Timestamp.now
  return ⟨t.val.second.val, t.val.nano.val.toNat⟩

/-- Print a reply and hand over its exit code. -/
def Reply.print (r : Reply) : IO UInt32 := do
  IO.print r.output
  r.errors.forM fun line => IO.eprintln line
  r.failure.toList.forM fun text => IO.eprintln text
  return UInt32.ofNat r.exit

/-- Run the command `fix` over the files of the computer. -/
def fixFiles (a : FixRequest) : IO UInt32 := do
  let start ← now
  match Program.prepare (← picture a) a with
  | .error e => e.reply.print
  | .ok p =>
      (p.effects ⟨start, ← now⟩).forM Effect.carryOut
      p.reply.print

end BuildFix

open BuildFix in
/-- Runs the program. -/
def main (args : List String) : IO UInt32 := do
  match CommandLine.parse? args with
  | some (.fix a) =>
      try fixFiles a
      catch e => Reply.print { exit := 1, failure := some (toString e) }
  | some c => ((Program.replyTo? c).getD Program.misuse).print
  | none => Program.misuse.print
