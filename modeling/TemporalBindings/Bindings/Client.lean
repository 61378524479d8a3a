import TemporalBindings.Bindings.Declaration
import TemporalBindings.Bindings.Sdk
import TemporalBindings.Source.Syntax

/-!
# TemporalBindings.Bindings.Client

The client of a service: an exported interface with every method, a private
structure around a client of the workflow engine, a constructor, and the helpers
that call the methods.
-/

namespace TemporalBindings.Bindings

open Source

/-! ## Documentation -/

/-- The documentation of a service. -/
def Service.doc (s : Service) : Doc where
  leading := s.comments.leading
  deprecated := s.deprecated

/-- The documentation of a method or of one of its helpers. -/
def Method.doc (m : Method) (paragraph : List String) : Doc where
  leading := m.comments.leading
  paragraph := paragraph
  deprecated := m.deprecated

/-! ## Interface, structure and constructor -/

/-- The package whose contexts methods of a role run in. -/
def Role.contextPackage (sdk : Sdk) : Role → Package
  | .workflow => sdk.workflow
  | .activity => sdk.context

/-- What a method takes: a context of a package, and its input. -/
def Method.params (m : Method) (context : Package) : List Param :=
  [⟨"ctx", [context.ident "Context"]⟩, ⟨"in", ["*", m.input]⟩]

/-- What a method returns: its output or an error. -/
def Method.result (m : Method) : Code :=
  ["(*", m.output, ", ", .name "error", ")"]

/-- A method of the interface. -/
def Method.member (m : Method) (sdk : Sdk) : Member where
  doc := m.doc []
  signature := ⟨m.name, m.params (m.role.contextPackage sdk), m.result⟩
  trailing := m.comments.trailing

/-- The interface of a client. -/
def Service.interface (s : Service) (sdk : Sdk) : Decl :=
  .interface s.doc s.interfaceName s.comments.trailing (s.methods.map (·.member sdk))

/-- The structure of a client. -/
def Service.struct (s : Service) (sdk : Sdk) : Decl :=
  .struct s.structName [⟨"t", [sdk.client.ident "Client"]⟩]

/-- The constructor of a client. -/
def Service.constructor (s : Service) (sdk : Sdk) : Decl :=
  .func {
    doc := s.doc
    signature := ⟨s.constructorName, [⟨"c", [sdk.client.ident "Client"]⟩], [s.interfaceName]⟩
    body := [.code [] ["return &", s.structName, "\x7b", .name "c", "\x7d"]] }

/-! ## Helpers -/

namespace Verb

/-- What the documentation of a helper says about its verb. -/
def paragraph : Verb → List String
  | ⟨.start, .workflow⟩ =>
    ["This method starts the workflow with pre-configured options, and returns a",
     "WorkflowRun to interact with it until completion. For more information, see",
     "https://docs.temporal.io/dev-guide/go/foundations#start-workflow-execution."]
  | ⟨.execute, .workflow⟩ =>
    ["This method executes the workflow with pre-configured options, blocks until",
     "completion, and returns the output/error results. For more information, see",
     "https://docs.temporal.io/dev-guide/go/foundations#start-workflow-execution."]
  | ⟨.start, .childWorkflow⟩ =>
    ["This method starts the workflow (as a child) with pre-configured options,",
     "and returns a Future to interact with it until completion. For more info,",
     "see https://docs.temporal.io/dev-guide/go/foundations#start-workflow-execution",
     "and https://docs.temporal.io/workflows#child-workflow."]
  | ⟨.execute, .childWorkflow⟩ =>
    ["This method executes the workflow (as a child) with pre-configured options,",
     "blocks until completion, and returns the output/error. For more information,",
     "see https://docs.temporal.io/dev-guide/go/foundations#start-workflow-execution",
     "and https://docs.temporal.io/workflows#child-workflow."]
  | ⟨.start, .activity⟩ =>
    ["This method starts the activity with pre-configured options, and returns a",
     "Future to interact with it until completion. For more information, see",
     "https://docs.temporal.io/dev-guide/go/foundations#activity-execution."]
  | ⟨.execute, .activity⟩ =>
    ["This method executes the activity with pre-configured options, blocks until",
     "completion, and returns the output/error results. For more information, see",
     "https://docs.temporal.io/dev-guide/go/foundations#activity-execution."]
  | ⟨.start, .localActivity⟩ =>
    ["This method starts the activity (locally) with pre-configured options, and",
     "returns a Future to interact with it until completion. For more information,",
     "see https://docs.temporal.io/dev-guide/go/foundations#activity-execution",
     "and https://docs.temporal.io/activities#local-activity."]
  | ⟨.execute, .localActivity⟩ =>
    ["This method executes the activity (locally) with pre-configured options,",
     "blocks until completion, and returns the output/error. For more information,",
     "see https://docs.temporal.io/dev-guide/go/foundations#activity-execution",
     "and https://docs.temporal.io/activities#local-activity."]

end Verb

namespace Target

/-- The package whose contexts helpers for a target take. Only a workflow can be
called from outside of one. -/
def contextPackage (sdk : Sdk) : Target → Package
  | .workflow => sdk.context
  | .childWorkflow | .activity | .localActivity => sdk.workflow

/-- The options of a call. None of their fields can be set from a descriptor. -/
def options (sdk : Sdk) : Target → Literal
  | .workflow => ⟨sdk.client.ident "StartWorkflowOptions", []⟩
  | .childWorkflow => ⟨sdk.workflow.ident "ChildWorkflowOptions", []⟩
  | .activity => ⟨sdk.workflow.ident "ActivityOptions", []⟩
  | .localActivity => ⟨sdk.workflow.ident "LocalActivityOptions", []⟩

/-- The statement that puts the options of a call into effect: a workflow is given
them, any other call finds them in its context. -/
def configure (sdk : Sdk) (t : Target) : Stmt :=
  match t with
  | .workflow => .literal ["opts"] [] (t.options sdk) ""
  | .childWorkflow => inContext "WithChildOptions"
  | .activity => inContext "WithActivityOptions"
  | .localActivity => inContext "WithLocalActivityOptions"
where
  /-- Replaces the context by one that carries the options. -/
  inContext (function : String) : Stmt :=
    .literal [] [.name "ctx", " = ", sdk.workflow.ident function, "(", .name "ctx", ", "]
      (t.options sdk) ")"

end Target

namespace Verb

/-- What a helper returns. -/
def result (sdk : Sdk) (m : Method) : Verb → Code
  | ⟨.start, .workflow⟩ => ["(", sdk.client.ident "WorkflowRun", ", ", .name "error", ")"]
  | ⟨.start, .childWorkflow⟩ => [sdk.workflow.ident "ChildWorkflowFuture"]
  | ⟨.start, .activity⟩ | ⟨.start, .localActivity⟩ => [sdk.workflow.ident "Future"]
  | ⟨.execute, _⟩ => m.result

/-- The function of the workflow package that a helper calls. Starting a local
activity calls the function for activities in a context for local ones. -/
def function : Verb → String
  | ⟨_, .workflow⟩ => "ExecuteWorkflow"
  | ⟨_, .childWorkflow⟩ => "ExecuteChildWorkflow"
  | ⟨_, .activity⟩ | ⟨.start, .localActivity⟩ => "ExecuteActivity"
  | ⟨.execute, .localActivity⟩ => "ExecuteLocalActivity"

/-- The call of a helper: a workflow is called through the client and given its
options. -/
def invocation (sdk : Sdk) (m : Method) (v : Verb) : Code :=
  match v.target with
  | .workflow =>
    [.name "c", ".t.ExecuteWorkflow(", .name "ctx", ", ", .name "opts", ", ", .name "c", ".",
     m.name, ", ", .name "in", ")"]
  | _ =>
    [sdk.workflow.ident v.function, "(", .name "ctx", ", ", .name "c", ".", m.name, ", ",
     .name "in", ")"]

/-- The statements of a helper behind its options. -/
def call (sdk : Sdk) (m : Method) (v : Verb) : List Stmt :=
  match v.mode, v.target with
  | .start, _ => [.code [] ("return " :: v.invocation sdk m)]
  | .execute, .workflow =>
    [.code ["run", "err"] (v.invocation sdk m),
     .branch none [.name "err", " != ", .name "nil"]
       [["return ", .name "nil", ", ", .name "err"]],
     .declare "out" ["*", m.output],
     .code [] [.name "err", " = ", .name "run", ".Get(", .name "ctx", ", &", .name "out", ")"],
     .code [] ["return ", .name "out", ", ", .name "err"]]
  | .execute, _ =>
    [.declare "out" ["*", m.output],
     .code ["err"]
       (v.invocation sdk m ++ ([".Get(", .name "ctx", ", &", .name "out", ")"] : Code)),
     .code [] ["return ", .name "out", ", ", .name "err"]]

end Verb

/-- A helper for a method of a service. -/
def Service.helper (s : Service) (sdk : Sdk) (m : Method) (v : Verb) : Decl :=
  .func {
    doc := m.doc v.paragraph
    receiver := some ⟨"c", ["*", s.structName]⟩
    signature :=
      ⟨v.helperName s.name m.name, m.params (v.target.contextPackage sdk), v.result sdk m⟩
    trailing := m.comments.trailing
    body := v.target.configure sdk :: v.call sdk m }

/-- The client of a service. -/
def Service.client (s : Service) (sdk : Sdk) : List Decl :=
  [s.interface sdk, s.struct sdk, s.constructor sdk] ++
    s.methods.flatMap fun m => m.role.verbs.map (s.helper sdk m)

end TemporalBindings.Bindings
