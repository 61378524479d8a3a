import TemporalBindings.Bindings.Basic
import TemporalBindings.Text.LowerCase

/-!
# TemporalBindings.Bindings.Declaration

The names that generated files declare. A service declares the function that starts
its worker, if it has one, its client's interface, structure and constructor, and
four helpers per method. A helper is named by its verb, the service and the method.
-/

namespace TemporalBindings.Bindings

open Text

/-! ## Verbs -/

/-- What a helper calls. -/
inductive Target
  | workflow
  | childWorkflow
  | activity
  | localActivity
  deriving DecidableEq

/-- Whether a helper returns at once or waits for the result. -/
inductive Mode
  | start
  | execute
  deriving DecidableEq

/-- A way of calling a method. -/
structure Verb where
  mode : Mode
  target : Target
  deriving DecidableEq

/-- The target in names. -/
def Target.name : Target → String
  | .workflow => "Workflow"
  | .childWorkflow => "ChildWorkflow"
  | .activity => "Activity"
  | .localActivity => "LocalActivity"

/-- The mode in names. -/
def Mode.name : Mode → String
  | .start => "Start"
  | .execute => "Execute"

/-- The verb in names. -/
def Verb.name (v : Verb) : String :=
  v.mode.name ++ v.target.name

/-- What methods of a role are called as. -/
def Role.targets : Role → List Target
  | .workflow => [.workflow, .childWorkflow]
  | .activity => [.activity, .localActivity]

/-- The verbs for methods of a role, in the order of their helpers. -/
def Role.verbs (r : Role) : List Verb :=
  r.targets.flatMap fun t => [⟨.start, t⟩, ⟨.execute, t⟩]

/-! ## Names -/

/-- The helper for a method. -/
def Verb.helperName (v : Verb) (service method : String) : String :=
  v.name ++ service ++ method

namespace Service

/-- The function that starts the worker. -/
def workerName (s : Service) : String :=
  "StartWorker" ++ s.name

/-- The client's interface. -/
def interfaceName (s : Service) : String :=
  s.name ++ "TemporalClient"

/-- The client's structure: the name of the interface, made private. -/
def structName (s : Service) : String :=
  String.ofList (lowerFirst s.interfaceName.toList)

/-- The client's constructor. -/
def constructorName (s : Service) : String :=
  "New" ++ s.interfaceName

/-- The helpers for one method. -/
def helperNames (s : Service) (m : Method) : List String :=
  m.role.verbs.map fun v => v.helperName s.name m.name

/-- The names a service declares, in the order of the generated file. -/
def declarations (s : Service) : List String :=
  (match s.startedWorker with
    | some _ => [s.workerName]
    | none => []) ++
  [s.interfaceName, s.structName, s.constructorName] ++ s.methods.flatMap s.helperNames

end Service

/-- The names a file declares, in the order of the generated file. -/
def File.declarations (f : File) : List String :=
  f.services.flatMap Service.declarations

end TemporalBindings.Bindings
