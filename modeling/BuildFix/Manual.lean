import BuildFix.Fixer

/-!
# The manual

What each fixer does, in words for the people who run it: a title, a
description, what sets it off, and how to make the change by hand or keep a rule
out of it.  The entries stand in the order in which the fixers run.

A fixer is looked up by its key.  Case does not matter, and an underscore stands
for a hyphen.
-/

namespace BuildFix

/-- What the manual says about a fixer. -/
structure ManualEntry where
  /-- The fixer. -/
  fixer : Fixer
  /-- What it does, in a few words. -/
  title : String
  /-- What it does, in full. -/
  description : String
  /-- What sets it off. -/
  triggers : List String
  /-- How to make the change by hand. -/
  remediation : String
deriving DecidableEq, Repr

namespace ManualEntry

/-- The manual on folding legacy rules. -/
def legacy : ManualEntry where
  fixer := .legacy
  title := "Fold cgo_library into go_library"
  description :=
    "Removes the default-named cgo_library rule and squashes its sources, dependencies and " ++
    "compiler options into the default go_library, which is marked cgo = True. A go_library is " ++
    "created if none exists. If the go_library carries a keep comment, the cgo_library is only " ++
    "deleted."
  triggers := ["cgo_library(name = <default cgo library name>) without a keep comment"]
  remediation := "\n".intercalate
    ["To apply this fix manually, move the srcs, deps, data, copts, clinkopts, cdeps and",
      "gc_goopts of the cgo_library into the go_library of the same package, delete the",
      "`library = \":cgo_default_library\"` attribute, and add `cgo = True`:",
      "",
      "    go_library(",
      "        name = \"go_default_library\",",
      "        srcs = [\"pure.go\", \"cgo.go\"],",
      "        cgo = True,",
      "    )",
      "",
      "To keep a hand-written go_library untouched, put a `# keep` comment on it. The",
      "cgo_library is still deleted."]

/-- The manual on reconciling loads. -/
def loads : ManualEntry where
  fixer := .loads
  title := "Reconcile load statements"
  description :=
    "Adds loads for known rule symbols that are used but not loaded, removes known symbols " ++
    "that are no longer used, and deletes loads left without symbols. Symbols and arguments " ++
    "the generator does not manage are kept. New loads go at the top of the file in registry " ++
    "order; managed symbols are sorted."
  triggers :=
    ["a known rule kind is called but not loaded", "a known symbol is loaded but not called",
      "a load statement with no symbols"]
  remediation := "\n".intercalate
    ["To apply this fix manually, make every rule kind called in the file appear in a load",
      "of the file that defines it, and drop symbols nobody calls:",
      "",
      "    load(\"@io_bazel_rules_go//go:def.bzl\", \"go_library\", \"go_test\")",
      "",
      "Symbols loaded from files the registry does not know are left alone, and a kind",
      "loaded from such a file is never loaded again from a registry file."]

end ManualEntry

/-- The entry of a fixer. -/
def Fixer.manual : Fixer → ManualEntry
  | legacy => .legacy
  | loads => .loads

/-- All entries, in the order in which the fixers run. -/
def manual : List ManualEntry := Fixer.all.map Fixer.manual

/-- The key that a query asks for.  Only letters of ASCII have to be folded,
since keys have no others. -/
def queryKey (query : String) : String :=
  query.map fun c => if c = '_' then '-' else c.toLower

/-- The entry that a query asks for. -/
def lookUp? (query : String) : Option ManualEntry :=
  (Fixer.ofKey? (queryKey query)).map Fixer.manual

theorem manual_fixer (f : Fixer) : f.manual.fixer = f := by
  cases f <;> rfl

end BuildFix
