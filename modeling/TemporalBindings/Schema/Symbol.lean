import TemporalBindings.Schema.Descriptor
import TemporalBindings.Schema.Name

/-!
# TemporalBindings.Schema.Symbol

The names that files declare, and what a name means at a place. A name with a dot in
front is a full name. Any other is looked up from the inside out, starting at the
full name of the element that uses it:

* a simple name means the first visible element of the wanted sort;
* a dotted name is looked up in the first scope in which its first component names
  something that can have members, whether or not the whole name is found there.

An element whose own full name is empty has nothing around it, and all names that it uses
are full names.

Visible is what is declared in the same file, in an imported one, or in one that an
imported one imports publicly. Public imports of public imports come into sight only by
way of files that are in sight already.
-/

namespace TemporalBindings.Schema

/-! ## Elements of a file -/

mutual

/-- The messages of a tree, each with the scope it is declared in. -/
def MessageTree.flatten (scope : String) : MessageTree → List (String × MessageDescriptor)
  | .node d nested => (scope, d) :: flattenAll (qualify scope d.name) nested

/-- The messages of several trees. -/
def flattenAll (scope : String) : List MessageTree → List (String × MessageDescriptor)
  | [] => []
  | t :: ts => t.flatten scope ++ flattenAll scope ts

end

mutual

/-- The extensions declared in a tree, each with its scope: those of a message come
after those of the messages in it. -/
def MessageTree.extensions (scope : String) : MessageTree → List (String × FieldDescriptor)
  | .node d nested =>
    extensionsOfAll (qualify scope d.name) nested ++ d.extensions.map (qualify scope d.name, ·)

/-- The extensions declared in several trees. -/
def extensionsOfAll (scope : String) : List MessageTree → List (String × FieldDescriptor)
  | [] => []
  | t :: ts => t.extensions scope ++ extensionsOfAll scope ts

end

namespace FileDescriptor

/-- All messages of a file with their scopes. -/
def allMessages (d : FileDescriptor) : List (String × MessageDescriptor) :=
  flattenAll d.package d.messages

/-- All enums of a file with their scopes. -/
def allEnums (d : FileDescriptor) : List (String × EnumDescriptor) :=
  (d.allMessages.flatMap fun (scope, m) => m.enums.map (qualify scope m.name, ·)) ++
    d.enums.map (d.package, ·)

/-- All extensions of a file with their scopes. Where two extensions claim one number,
the first of them has it. -/
def allExtensions (d : FileDescriptor) : List (String × FieldDescriptor) :=
  extensionsOfAll d.package d.messages ++ d.extensions.map (d.package, ·)

end FileDescriptor

/-! ## Symbols -/

/-- What a full name stands for, as far as it matters for looking up names. -/
inductive SymbolKind
  | package
  /-- A message, which may be what the entries of a map are. -/
  | message (isEntry : Bool)
  | enum (values : List (String × Int32))
  | service
  | other
  deriving DecidableEq

/-- A full name and the file that declares it. -/
structure Symbol where
  name : String
  kind : SymbolKind
  file : String
  deriving DecidableEq

namespace FileDescriptor

/-- The elements that a file declares. The values of an enum are declared beside the
enum and not inside it. -/
def elements (d : FileDescriptor) : List Symbol :=
  let symbol (kind : SymbolKind) (scope name : String) : Symbol :=
    ⟨qualify scope name, kind, d.name⟩
  (d.allMessages.flatMap fun (scope, m) =>
    symbol (.message (m.options.isSet "map_entry")) scope m.name ::
      (m.fields.map (symbol .other (qualify scope m.name) ·.name) ++
        m.oneofs.map (symbol .other (qualify scope m.name) ·.name))) ++
  (d.allEnums.flatMap fun (scope, e) =>
    symbol (.enum (e.values.map fun v => (v.name, v.number))) scope e.name ::
      e.values.map (symbol .other scope ·.name)) ++
  (d.allExtensions.map fun (scope, x) => symbol .other scope x.name) ++
  (d.services.flatMap fun s =>
    symbol .service d.package s.name ::
      s.methods.map (symbol .other (qualify d.package s.name) ·.name))

/-- The package that a file belongs to and those around it: whatever stands before a dot
in the name of a package is a package too, even if it is empty. -/
def packages (d : FileDescriptor) : List String :=
  if d.package = "" then [] else (scopesOf d.package).dropLast

/-- All symbols of a file. -/
def symbols (d : FileDescriptor) : List Symbol :=
  d.elements ++ d.packages.map (⟨·, .package, d.name⟩)

end FileDescriptor

/-! ## Visibility -/

/-- The imports of a file that are public, in the order of the imports. A file that is
imported more than once counts as often as its imports are public. -/
def FileDescriptor.importedPublicly (d : FileDescriptor) : List String :=
  (d.imports.zipIdx.filter fun (_, i) => d.publicImports.any (·.toInt = i)).map (·.1)

/-- The files that a file of a given name imports publicly. -/
def publicImportsOf (files : List FileDescriptor) (name : String) : List String :=
  ((files.find? (·.name = name)).map FileDescriptor.importedPublicly).getD []

/-- The files in sight after a look at the public imports of the file `name`. A file
that comes into sight there is added without a look at its own public imports; they are
looked at only if the file is in sight already. Unless files import each other in a
circle, a chain of files to look at is no longer than there are files, which is the
`fuel`. -/
def lookThrough (files : List FileDescriptor) : Nat → List String → String → List String
  | 0, sight, _ => sight
  | fuel + 1, sight, name =>
    (publicImportsOf files name).foldl
      (fun sight imported =>
        if imported ∈ sight then lookThrough files fuel sight imported else sight ++ [imported])
      sight

/-- The files whose elements can be used in a file: itself, and, import by import, the
imported file and what comes into sight through it. -/
def visibleFrom (files : List FileDescriptor) (d : FileDescriptor) : List String :=
  d.imports.foldl
    (fun sight imported =>
      let sight := if imported ∈ sight then sight else sight ++ [imported]
      lookThrough files files.length sight imported)
    [d.name]

/-! ## Looking up names -/

/-- What can be referred to from a file: the symbols of all files, and the files that
are visible. -/
structure Scope where
  symbols : List Symbol
  visible : List String

namespace Scope

/-- The visible element of a given full name, if it is of the wanted sort. -/
def element? (s : Scope) (wanted : SymbolKind → Bool) (name : String) : Option Symbol :=
  s.symbols.find? fun x => x.name = name && wanted x.kind && s.visible.contains x.file

/-- Whether a full name stands for something that can have members. -/
def hasMembers (s : Scope) (name : String) : Bool :=
  s.symbols.any fun x => x.name = name && x.kind ≠ .other

/-- What a name without a dot in front means when the element called `user` uses it. -/
def resolveRelative? (s : Scope) (wanted : SymbolKind → Bool) (user name : String) :
    Option Symbol :=
  match Text.cut? '.' name.toList with
  | none => (scopesOf user).findSome? fun scope => s.element? wanted (qualify scope name)
  | some (first, _) =>
    ((scopesOf user).find? fun scope => s.hasMembers (qualify scope (String.ofList first))).bind
      fun scope => s.element? wanted (qualify scope name)

/-- What `name` means when the element called `user` uses it. -/
def resolve? (s : Scope) (wanted : SymbolKind → Bool) (user name : String) : Option Symbol :=
  match name.toList with
  | '.' :: full => s.element? wanted (String.ofList full)
  | _ => if user = "" then s.element? wanted name else s.resolveRelative? wanted user name

end Scope

end TemporalBindings.Schema
