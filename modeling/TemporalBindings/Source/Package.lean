/-!
# TemporalBindings.Source.Package

Packages of the generated language and the identifiers they declare. A package is
known by its import path; its name is what other files refer to it by, unless they
have to give it another one.
-/

namespace TemporalBindings.Source

/-- A package: its import path and its name. -/
structure Package where
  path : String
  name : String
  deriving DecidableEq

/-- An identifier and the package that declares it. -/
structure Ident where
  name : String
  package : Package
  deriving DecidableEq

/-- The identifier of a given name in a package. -/
def Package.ident (p : Package) (name : String) : Ident :=
  ⟨name, p⟩

end TemporalBindings.Source
