import BuildFix.Loads.SymbolTable

/-!
# Conventions

The names and the table that a workspace goes by.  Every fixer is given them and
nothing about a workspace is known otherwise.
-/

namespace BuildFix

/-- What the fixers have to know about a workspace. -/
structure Conventions where
  /-- The name of the library of a package. -/
  libraryName : String := "go_default_library"
  /-- The name that the legacy half of a package had. -/
  legacyName : String := "cgo_default_library"
  /-- The directive that protects a rule. -/
  keepWord : String := "keep"
  /-- The files whose loads are managed. -/
  symbols : SymbolTable := .standard

end BuildFix
