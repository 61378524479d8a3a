import TemporalBindings.Bindings.Declaration
import TemporalBindings.Bindings.Sdk
import TemporalBindings.Source.Numeral
import TemporalBindings.Source.Quoted
import TemporalBindings.Source.Syntax

/-!
# TemporalBindings.Bindings.Bootstrap

The function that starts the worker of a service. It registers every method on a
worker for the service's task queue and runs the worker until it is interrupted.
-/

namespace TemporalBindings.Bindings

open Source Worker

/-! ## Options -/

/-- An option's value as an expression. A duration is its number of seconds times a
second; the product is computed on doubles. -/
def valueCode (sdk : Sdk) : OptionValue → Code
  | .bool b => [.name (if b then "true" else "false")]
  | .int n => [.text (String.ofList (intText n.toInt))]
  | .float d => [.text (String.ofList (floatText d))]
  | .string s => [.text (quote s)]
  | .duration d =>
    let seconds := (d.map Duration.inSeconds).getD .zero
    [sdk.time.ident "Duration", .text ("(" ++ String.ofList (floatText seconds) ++ " * "),
     .name "float64", "(", sdk.time.ident "Second", "))"]

/-- The literal of a worker's options: those that differ from their zero value. -/
def optionsLiteral (sdk : Sdk) (o : Options) : Literal where
  type := sdk.worker.ident "Options"
  fields := o.nonZero.map fun (s, v) => (s.name, valueCode sdk v)

/-! ## The function -/

/-- The registration of a method. -/
def Method.registration (m : Method) : Stmt :=
  match m.role with
  | .workflow => .code [] [.name "w", ".RegisterWorkflow(", m.name, ")"]
  | .activity => .code [] [.name "w", ".RegisterActivity(", m.name, ")"]

/-- The statements that make a worker, register the methods and run it. -/
def Service.bootstrapBody (s : Service) (sdk : Sdk) (worker : WorkerConfig) : List Stmt :=
  [.code ["taskQueue"] [quote worker.taskQueue],
   .literal ["opts"] [] (optionsLiteral sdk worker.options) "",
   .code ["w"]
     [sdk.worker.ident "New", "(", .name "c", ", ", .name "taskQueue", ", ", .name "opts", ")"],
   .blank] ++
  s.methods.map Method.registration ++
  [.blank,
   .branch (some ("err", [.name "w", ".Run(", sdk.worker.ident "InterruptCh", "())"]))
     [.name "err", " != ", .name "nil"]
     [[sdk.log.ident "Fatalln", "(\"Failed to start Temporal worker:\", ", .name "err", ")"]]]

/-- The function that starts a service's worker; nothing if it has none to
start. -/
def Service.bootstrap (s : Service) (sdk : Sdk) : List Decl :=
  match s.startedWorker with
  | none => []
  | some worker =>
    [.func {
      signature := ⟨s.workerName, [⟨"c", [sdk.client.ident "Client"]⟩], []⟩
      body := s.bootstrapBody sdk worker }]

end TemporalBindings.Bindings
