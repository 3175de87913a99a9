import BuildFix.Legacy
import BuildFix.Loads.Reconcile

/-!
# Fixers

A fixer rewrites a build file, or says that there is nothing to do.  There are
two.  Folding changes which rules a file calls, so it runs before loads are
reconciled.

Fixers run one after the other, each on what the one before left, and the ones
that rewrote the file are noted (`Fixed.applied`).
-/

namespace BuildFix

/-- A rewriting of build files. -/
inductive Fixer where
  /-- Fold the first legacy rule into the library. -/
  | legacy
  /-- Reconcile the loads. -/
  | loads
deriving DecidableEq, Repr

namespace Fixer

/-- The key that names a fixer. -/
def key : Fixer → String
  | legacy => "cgo-library"
  | loads => "loads"

/-- All fixers, in the order in which they run. -/
def all : List Fixer := [legacy, loads]

/-- The fixer with a key. -/
def ofKey? (key : String) : Option Fixer := all.find? (·.key == key)

/-- The fixers of a list that are not disabled. -/
def without (fixers : List Fixer) (disabled : List String) : List Fixer :=
  fixers.filter fun fixer => !disabled.contains fixer.key

/-- The rewritten build file, unless there is nothing to do. -/
def rewrite (cv : Conventions) : Fixer → File → Option File
  | legacy, f => Legacy.fold cv f
  | loads, f => cv.symbols.reconcile f

/-- The rules that a fixer passes over. -/
def surplus (cv : Conventions) : Fixer → File → List Surplus
  | legacy, f => Legacy.surplus cv f
  | loads, _ => []

end Fixer

/-- A build file after some fixers. -/
structure Fixed where
  /-- The build file. -/
  file : File
  /-- The fixers that rewrote it, in order. -/
  applied : List Fixer := []
  /-- The rules that were passed over, in order. -/
  surplus : List Surplus := []
deriving DecidableEq, Repr, Inhabited

namespace Fixed

/-- Decide whether a fixer rewrote the file. -/
def changed (r : Fixed) : Bool := !r.applied.isEmpty

/-- One fixer more. -/
def step (cv : Conventions) (r : Fixed) (fixer : Fixer) : Fixed :=
  let surplus := r.surplus ++ fixer.surplus cv r.file
  match fixer.rewrite cv r.file with
  | some file => ⟨file, r.applied ++ [fixer], surplus⟩
  | none => { r with surplus }

/-- The build file after the fixers of a list. -/
def run (cv : Conventions) (fixers : List Fixer) (f : File) : Fixed :=
  fixers.foldl (step cv) { file := f }

end Fixed

end BuildFix
