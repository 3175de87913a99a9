import BuildFix.Path

/-!
# The command line

The command line is a command and its arguments.  An argument that starts with
two hyphens is an option, and its value is the next argument or what follows an
equals sign.  A value that is the next argument may not start with a hyphen,
unless it is a single one.  Behind the argument `--` nothing is an option.

An option that takes one value is given once, and so is an option without a
value.  A command line of any other form is no command.
-/

namespace BuildFix

/-- What the command `fix` is told. -/
structure FixRequest where
  /-- The files and directories to look through. -/
  inputs : List Path := []
  /-- The workspace file. -/
  config : Option Path := none
  /-- Where to write, if not over the inputs. -/
  outDir : Option Path := none
  /-- Write no trees. -/
  check : Bool := false
  /-- The keys of fixers to leave out. -/
  disabled : List String := []
deriving DecidableEq, Repr, Inhabited

/-- A form of output. -/
inductive ListingFormat where
  | text
  | json
deriving DecidableEq, Repr

/-- What a command line asks for. -/
inductive Command where
  /-- Fix trees. -/
  | fix (args : FixRequest)
  /-- Show what the manual says about a fixer. -/
  | explain (query : String)
  /-- Show all fixers. -/
  | listFixes (format : ListingFormat)
  /-- Show the version. -/
  | version
  /-- Show how the program is used. -/
  | help
deriving DecidableEq, Repr

namespace CommandLine

/-! ## Arguments -/

/-- Decide whether an argument may be a value of its own. -/
def isValue (arg : String) : Bool := arg = "-" || arg.toList.head? != some '-'

/-- An argument, as far as it can be told without knowing the options. -/
inductive Arg where
  /-- A value. -/
  | value (s : String)
  /-- The argument behind which nothing is an option. -/
  | rest
  /-- An option of one letter, or several of them. -/
  | short (letters : List Char)
  /-- An option of a word, which may come with its value. -/
  | long (name : String) (attached : Option String)
deriving DecidableEq, Repr

/-- What an argument is. -/
def Arg.of (arg : String) : Arg :=
  match arg.toList with
  | ['-', '-'] => rest
  | '-' :: '-' :: cs =>
      let name := cs.takeWhile (· ≠ '=')
      long (String.ofList name)
        (if name.length < cs.length then some (String.ofList (cs.drop (name.length + 1))) else none)
  | ['-'] => value arg
  | '-' :: cs => short cs
  | _ => value arg

/-- The value of an option and the arguments behind it. -/
def optionValue? (attached : Option String) (args : List String) : Option (String × List String) :=
  match attached, args with
  | some v, _ => some (v, args)
  | none, v :: args => if isValue v then some (v, args) else none
  | none, [] => none

/-- Decide whether an option asks for help. -/
def asksHelp : Arg → Bool
  | .short ('h' :: _) => true
  | .long "help" none => true
  | _ => false

/-! ## The command `fix` -/

/-- An option of the command `fix` with its value. -/
def FixRequest.option? (a : FixRequest) (name value : String) : Option FixRequest :=
  match name with
  | "config" => if a.config.isNone then some { a with config := some ⟨value⟩ } else none
  | "out-dir" => if a.outDir.isNone then some { a with outDir := some ⟨value⟩ } else none
  | "disable" => some { a with disabled := a.disabled ++ [value] }
  | _ => none

/-- What arguments add to those of the command `fix` read before.  The number
bounds the arguments. -/
def fixRequest? : Nat → FixRequest → List String → Option Command
  | _, a, [] => if a.inputs.isEmpty then none else some (.fix a)
  | 0, _, _ :: _ => none
  | bound + 1, a, arg :: args =>
      let arg := Arg.of arg
      if asksHelp arg then some .help
      else match arg with
        | .value v => fixRequest? bound { a with inputs := a.inputs ++ [⟨v⟩] } args
        | .rest => fixRequest? 0 { a with inputs := a.inputs ++ args.map Path.mk } []
        | .short _ => none
        | .long "check" attached =>
            if a.check || attached.isSome then none
            else fixRequest? bound { a with check := true } args
        | .long name attached => do
            let (value, args) ← optionValue? attached args
            fixRequest? bound (← FixRequest.option? a name value) args

/-! ## The other commands -/

/-- What arguments make of the command `explain`. -/
def explainArgs? (query : Option String) : List String → Option Command
  | [] => query.map .explain
  | arg :: args =>
      let arg := Arg.of arg
      if asksHelp arg then some .help
      else match arg, query with
        | .value v, none => explainArgs? (some v) args
        | .rest, _ =>
            match query.toList ++ args with
            | [query] => some (.explain query)
            | _ => none
        | _, _ => none

/-- The form of output that a word names. -/
def format? : String → Option ListingFormat
  | "text" => some .text
  | "json" => some .json
  | _ => none

/-- What arguments make of the command `list-fixes`. -/
def listArgs? (format : Option ListingFormat) : List String → Option Command
  | [] => some (.listFixes (format.getD .text))
  | arg :: args =>
      let arg := Arg.of arg
      if asksHelp arg then some .help
      else match arg, format, args with
        | .rest, _, [] => some (.listFixes (format.getD .text))
        | .long "format" (some v), none, args => (format? v).bind fun f => listArgs? (some f) args
        | .long "format" none, none, v :: args => (format? v).bind fun f => listArgs? (some f) args
        | _, _, _ => none

/-- The command of the arguments behind its name. -/
def commandOf? : String → List String → Option Command
  | "fix", args => fixRequest? args.length {} args
  | "explain", args => explainArgs? none args
  | "list-fixes", args => listArgs? none args
  | "help", [] => some .help
  | "help", [name] => if name ∈ ["fix", "explain", "list-fixes", "help"] then some .help else none
  | _, _ => none

/-- The command that a command line asks for. -/
def parse? : List String → Option Command
  | [] => none
  | arg :: args =>
      let first := Arg.of arg
      if asksHelp first then some .help
      else match first with
        | .short ('V' :: _) | .long "version" none => some .version
        | .value name => commandOf? name args
        | _ => none

example : parse? ["fix", "--out-dir=o", "a", "--check", "--", "-b"] =
    some (.fix { inputs := [⟨"a"⟩, ⟨"-b"⟩], outDir := some ⟨"o"⟩, check := true }) := by
  decide +kernel
example : parse? ["fix", "a", "--config", "--check"] = none := by decide +kernel

end CommandLine

end BuildFix
