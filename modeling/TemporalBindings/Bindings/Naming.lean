import TemporalBindings.Bindings.Basic
import TemporalBindings.Plugin.Parameter
import TemporalBindings.Schema.Pool
import TemporalBindings.Source.Name

/-!
# TemporalBindings.Bindings.Naming

What generated code is called and where it goes: the package of a file, the name of
the generated file, and the identifiers of messages.

The package of a file is given by the parameter, or else by the file's own
`go_package` option, as an import path that may have a semicolon and a package name
behind it. Without a name the package is called after the last element of the path.
-/

namespace TemporalBindings.Bindings

open Plugin Schema Source Text

/-! ## Packages -/

/-- The package that a text like `example.com/foo;foo` describes; `none` if its path
is empty. -/
def parsePackage (text : List Char) : Option Package :=
  let (path, given) := (cut? ';' text).getD (text, [])
  let name := if given = [] then sanitize (afterLast '/' path) else sanitize given
  if path = [] then none else some ⟨String.ofList path, String.ofList name⟩

/-- The value of a file's `go_package` option. -/
def packageOption (d : FileDescriptor) : Option String :=
  (d.options.set? "go_package").bind Value.string?

/-- The package of a file of a given name and option. -/
def packageFor (p : Parameter) (file : String) (option : Option String) : Except Error Package :=
  match ((p.importMap.lookup file).or option).bind fun text => parsePackage text.toList with
  | some package => .ok package
  | none => .error (.missingImportPath file)

/-- The package of a file. -/
def packageOf (p : Parameter) (d : FileDescriptor) : Except Error Package :=
  packageFor p d.name (packageOption d)

/-! ## Generated files -/

/-- The name of a file without its ending. -/
def withoutEnding (file : String) : List Char :=
  (stripEnd? ".proto".toList file.toList).getD file.toList

/-- The name of the file generated for a file of a package, without its ending. -/
def stemFor (p : Parameter) (file : String) (package : Package) : Except Error String :=
  match p.placement with
  | .besideSource => .ok (String.ofList (withoutEnding file))
  | .importPath =>
    let path := package.path.toList ++ '/' :: afterLast '/' (withoutEnding file)
    match p.moduleRoot with
    | none => .ok (String.ofList path)
    | some root =>
      match stripStart? (root.toList ++ ['/']) path with
      | some rest => .ok (String.ofList rest)
      | none => .error (.moduleMismatch (String.ofList path) root)

/-! ## Messages -/

/-- The name of a message inside its package. -/
def relativeName (package name : String) : String :=
  if package = "" then name
  else
    match stripStart? (package.toList ++ ['.']) name.toList with
    | some rest => String.ofList rest
    | none => name

/-- The identifier of a message, in the package of the file that declares it. -/
def messageIdent (p : Parameter) (m : MessageRef) : Except Error Ident := do
  let package ← packageOf p m.file
  .ok (package.ident (camelCase (relativeName m.file.package m.name)))

end TemporalBindings.Bindings
