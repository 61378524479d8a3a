import TemporalBindings.Bindings.Bootstrap
import TemporalBindings.Bindings.Client
import TemporalBindings.Bindings.Header
import TemporalBindings.Source.File

/-!
# TemporalBindings.Bindings.Output

The generated files. Each file with services becomes one source file; files are
written independently of each other and in the order they were asked for.
-/

namespace TemporalBindings.Bindings

open Source

/-- The ending of the names of generated files. -/
def fileEnding : String :=
  "_temporal.pb.go"

/-- The declarations of a service. -/
def Service.decls (s : Service) (sdk : Sdk) : List Decl :=
  s.bootstrap sdk ++ s.client sdk

/-- The declarations of a file. -/
def File.decls (f : File) (sdk : Sdk) : List Decl :=
  f.services.flatMap (·.decls sdk)

/-- What is written for a file. -/
def File.items (f : File) (sdk : Sdk) (compiler : String) : List Item :=
  f.header compiler ++ (f.decls sdk).flatMap Decl.items

/-- The source file of a file. -/
def File.source (f : File) (sdk : Sdk) (compiler : String) : Source.File :=
  (Source.File.empty (f.stem ++ fileEnding) f.package.path).writeAll (f.items sdk compiler)

/-- The names and texts of the generated files. -/
def output (files : List File) (sdk : Sdk) (compiler : String) : List (String × String) :=
  (files.filter (·.services ≠ [])).map fun f =>
    let source := f.source sdk compiler
    (source.name, source.content)

end TemporalBindings.Bindings
