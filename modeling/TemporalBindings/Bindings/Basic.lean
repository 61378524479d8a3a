import TemporalBindings.Source.Package
import TemporalBindings.Worker.Options

/-!
# TemporalBindings.Bindings.Basic

What bindings are generated from: files, their services and the methods of these.
Names are identifiers of the generated source already, comments and deprecation are
attached to what they belong to, and nothing refers back to descriptors.
-/

namespace TemporalBindings.Bindings

open Source

/-- The comments around an element of a file. Texts are kept as they are, with the
blank behind the comment mark and the newline at the end. -/
structure Comments where
  detached : List String := []
  leading : String := ""
  trailing : String := ""
  deriving DecidableEq

/-- What a method is run as. -/
inductive Role
  | workflow
  | activity
  deriving DecidableEq

/-- A method of a service. -/
structure Method where
  name : String
  input : Ident
  output : Ident
  role : Role
  deprecated : Bool
  comments : Comments
  deriving DecidableEq

/-- The worker of a service: the task queue it listens on and its options. -/
structure WorkerConfig where
  taskQueue : String
  options : Worker.Options
  deriving DecidableEq

/-- A service and its methods in order. -/
structure Service where
  fullName : String
  name : String
  deprecated : Bool
  comments : Comments
  worker : Option WorkerConfig
  methods : List Method
  deriving DecidableEq

/-- The worker that is started for a service: one without a task queue is not. -/
def Service.startedWorker (s : Service) : Option WorkerConfig :=
  s.worker.filter (·.taskQueue ≠ "")

/-- A file that bindings are asked for: its path, the package of the generated file,
and the name of the generated file without its ending. -/
structure File where
  path : String
  deprecated : Bool
  package : Package
  stem : String
  syntaxComments : Comments
  packageComments : Comments
  services : List Service
  deriving DecidableEq

end TemporalBindings.Bindings
