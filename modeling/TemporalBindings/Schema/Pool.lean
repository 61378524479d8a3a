import TemporalBindings.Schema.Settled
import TemporalBindings.Schema.Types.Declared

/-!
# TemporalBindings.Schema.Pool

A set of file descriptors, checked and linked: names are resolved, types are known,
and options are settled with the extensions of all files. The order of the descriptors
does not matter. Which of several flaws is reported is not determined by the
language; it is the first that is found.
-/

namespace TemporalBindings.Schema

/-! ## Linked descriptors -/

/-- A message type as methods refer to it: its full name and the file that declares
it. -/
structure MessageRef where
  name : String
  file : FileDescriptor

/-- A method with its types and its options. -/
structure Method where
  descriptor : MethodDescriptor
  name : String
  input : MessageRef
  output : MessageRef
  options : Message

/-- A service with its methods and its options. -/
structure Service where
  descriptor : ServiceDescriptor
  name : String
  options : Message
  methods : List Method

/-- A file with its services. -/
structure File where
  descriptor : FileDescriptor
  services : List Service

/-- A set of files, and the types that all of them declare together. -/
structure Pool where
  files : List File
  types : Types

namespace Pool

/-- The file of a given name. -/
def file? (p : Pool) (name : String) : Option File :=
  p.files.find? (·.descriptor.name = name)

/-- The extension of a given full name. -/
def extension? (p : Pool) (name : String) : Option Extension :=
  p.types.extensions.find? (·.name = name)

end Pool

/-! ## Linking -/

/-- The message that a method's type name means. -/
def Scope.messageRef (s : Scope) (files : List FileDescriptor) (user name : String) :
    Except Flaw MessageRef := do
  let x ← s.resolve SymbolKind.isMessage user name
  match files.find? (·.name = x.file) with
  | some file => .ok ⟨x.name, file⟩
  | none => .error (.unresolved name user)

namespace Pool

/-- The services of a file, one of several files. -/
def linkServices (files : List FileDescriptor) (types : Types) (d : FileDescriptor) :
    Except Flaw (List Service) :=
  let scope := d.scopeIn files
  d.services.mapM fun s => do
    let name := qualify d.package s.name
    let options ← types.readOptions name s.options
    let methods ← s.methods.mapM fun m => do
      let methodName := qualify name m.name
      let input ← scope.messageRef files methodName m.input
      let output ← scope.messageRef files methodName m.output
      let options ← types.readOptions methodName m.options
      .ok { descriptor := m, name := methodName, input, output, options : Method }
    .ok { descriptor := s, name, options, methods : Service }

/-- Checks files. -/
def check (files : List FileDescriptor) : Except Flaw Unit := do
  refuse (firstDuplicate (files.map (·.name))) .duplicateFile
  files.forM fun d => d.checkImports files
  checkNames files
  files.forM FileDescriptor.check

/-- Checks and links files. The types are declared anew by the settled files: what a
message is for, as its options say it, may only now be known. -/
def link (files : List FileDescriptor) : Except Flaw Pool := do
  check files
  let types ← declaredTypes files
  let files ← files.mapM (·.settled types)
  let types ← declaredTypes files
  let linked ← files.mapM fun d => do
    let services ← linkServices files types d
    .ok { descriptor := d, services : File }
  .ok ⟨linked, types⟩

/-- Reads, checks and links descriptors. -/
def read (descriptors : List (List UInt8)) : Except Flaw Pool :=
  match descriptors.mapM FileDescriptor.read with
  | some files => link files
  | none => .error .malformedFile

end Pool

end TemporalBindings.Schema
