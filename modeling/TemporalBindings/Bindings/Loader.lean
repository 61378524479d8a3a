import TemporalBindings.Bindings.Naming
import TemporalBindings.Plugin.Request
import TemporalBindings.Worker.Extension

/-!
# TemporalBindings.Bindings.Loader

From linked descriptors to what bindings are generated from. Files are loaded in the
order in which they are asked for, and everything in them in the order of the
descriptors; the first thing that is wrong is the error.

A method is a workflow iff it carries the workflow extension, and a service has a
worker iff it carries the worker extension. The two are found by their full names,
wherever they are declared; if they are not declared, nothing carries them.
-/

namespace TemporalBindings.Bindings

open Plugin Schema Source

/-! ## Extensions -/

/-- The extension that makes a method a workflow. -/
def workflowExtension : String :=
  "temporal.workflow"

/-- The extension that gives a service a worker. -/
def workerExtension : String :=
  "temporal.worker"

/-- The value of an extension, if it is present in an options message. -/
def extensionValue? (x : Option Extension) (options : Message) : Option (Extension × Value) := do
  let x ← x
  let v ← options.stored.lookup x.field.number
  if x.field.presentWith v then some (x, v) else none

/-- The role of a method with given options. -/
def roleOf (p : Pool) (options : Message) : Role :=
  match extensionValue? (p.extension? workflowExtension) options with
  | some _ => .workflow
  | none => .activity

/-- An error about a field of the worker extension. -/
def workerError {α : Type} (element field : String) (problem : Worker.Problem) : Report α :=
  Report.ofExcept (.error (.malformedExtension workerExtension element field problem))

/-- The task queue in a worker message. -/
def taskQueue (element : String) (m : Message) : Report String :=
  match m.get? "task_queue" with
  | none => pure ""
  | some v =>
    match v.string? with
    | some s => pure s
    | none => workerError element "task_queue" .notString

/-- The options in a worker message. -/
def workerOptions (element : String) (m : Message) : Report Worker.Options :=
  match m.get? "options" with
  | none => pure {}
  | some v =>
    match v.message? with
    | some m => Worker.Options.ofMessage workerExtension element m
    | none => workerError element "options" .notMessage

/-- The worker of a service with given options. -/
def workerOf (p : Pool) (element : String) (options : Message) : Report (Option WorkerConfig) :=
  match extensionValue? (p.extension? workerExtension) options with
  | none => pure none
  | some (x, v) =>
    match v.message? with
    | none => workerError element x.field.name .extensionNotMessage
    | some m => do
      let queue ← taskQueue element m
      let o ← workerOptions element m
      pure (some ⟨queue, o⟩)

/-! ## Comments -/

/-- The comments at a location. -/
def Location.comments (l : Location) : Comments :=
  ⟨l.detached, l.leading.getD "", l.trailing.getD ""⟩

/-- The comments at a path: those of the first location with exactly this path. -/
def commentsAt (locations : List Location) (path : List Int32) : Comments :=
  ((locations.find? (·.path = path)).map Location.comments).getD {}

/-- The path of the name of the syntax of a file. -/
def syntaxPath : List Int32 := [12]

/-- The path of the package of a file. -/
def packagePath : List Int32 := [2]

/-- The path of a service. -/
def servicePath (service : Nat) : List Int32 :=
  [6, Int32.ofNat service]

/-- The path of a method. -/
def methodPath (service method : Nat) : List Int32 :=
  servicePath service ++ [2, Int32.ofNat method]

/-! ## Loading -/

/-- Loads a method. -/
def loadMethod (p : Pool) (parameter : Parameter) (comments : Comments) (m : Schema.Method) :
    Report Method := do
  let input ← messageIdent parameter m.input
  let output ← messageIdent parameter m.output
  pure
    { name := camelCase m.descriptor.name
      input, output
      role := roleOf p m.options
      deprecated := m.descriptor.options.isSet "deprecated"
      comments }

/-- Loads a service, which is the one of a given index in its file. -/
def loadService (p : Pool) (parameter : Parameter) (locations : List Location)
    (s : Schema.Service) (index : Nat) : Report Service := do
  let worker ← workerOf p s.name s.options
  let methods ← s.methods.zipIdx.mapM fun (m, i) =>
    loadMethod p parameter (commentsAt locations (methodPath index i)) m
  pure
    { fullName := s.name
      name := camelCase s.descriptor.name
      deprecated := s.descriptor.options.isSet "deprecated"
      comments := commentsAt locations (servicePath index)
      worker, methods }

/-- Loads a file. -/
def loadFile (p : Pool) (parameter : Parameter) (f : Schema.File) : Report File := do
  let d := f.descriptor
  let package ← packageOf parameter d
  let stem ← stemFor parameter d.name package
  let services ← f.services.zipIdx.mapM fun (s, i) => loadService p parameter d.locations s i
  pure
    { path := d.name
      deprecated := d.options.isSet "deprecated"
      package, stem
      syntaxComments := commentsAt d.locations syntaxPath
      packageComments := commentsAt d.locations packagePath
      services }

/-- Loads the file of a given name. -/
def loadNamed (p : Pool) (parameter : Parameter) (name : String) : Report File :=
  match p.file? name with
  | some f => loadFile p parameter f
  | none => Report.ofExcept (.error (.unknownFile name))

/-- Loads the files of given names. -/
def loadFiles (p : Pool) (parameter : Parameter) (names : List String) : Report (List File) :=
  names.mapM (loadNamed p parameter)

/-- The linked descriptors of a request. -/
def poolOf (r : Request) : Except Error Pool :=
  match Pool.read r.descriptors with
  | .ok p => .ok p
  | .error flaw => .error (.invalidDescriptors flaw)

/-- Loads what a request asks for. -/
def load (r : Request) (parameter : Parameter) : Report (List File) := do
  let p ← poolOf r
  loadFiles p parameter r.files

end TemporalBindings.Bindings
