import TemporalBindings.Bindings.Declaration
import TemporalBindings.Error

/-!
# TemporalBindings.Bindings.Uniqueness

Generated files with the same import path are compiled as one package, so no name
may be declared twice in all of them. Declarations of different import paths have
nothing to do with each other.
-/

namespace TemporalBindings.Bindings

/-- A declaration: the import path it belongs to, the file it stands in, its name. -/
structure Declaration where
  package : String
  file : String
  name : String
  deriving DecidableEq

/-- The declarations of a file in order. -/
def File.declared (f : File) : List Declaration :=
  f.declarations.map fun name => ⟨f.package.path, f.path, name⟩

/-- The first declaration whose name has been declared before in its package, either
in `seen` or further up in the list. -/
def firstRepeated (seen : List (String × String)) : List Declaration → Option Declaration
  | [] => none
  | d :: rest =>
    if (d.package, d.name) ∈ seen then some d
    else firstRepeated ((d.package, d.name) :: seen) rest

/-- Refuses a name that is declared twice in one package. -/
def checkUnique (files : List File) : Except Error Unit :=
  match firstRepeated [] (files.flatMap File.declared) with
  | some d => .error (.duplicateDeclaration d.file d.name)
  | none => .ok ()

end TemporalBindings.Bindings
