import TemporalBindings.Proofs.Written

/-!
# TemporalBindings.Proofs.Mentions

The identifiers of other packages that declarations mention. Names, field names and
documentation mention none, so only types, values and conditions count. What a service
refers to is told by a table of its own, which follows its description and not the code
that is emitted for it:

```
bootstrap       the client, the options and what their durations take, the worker and its run
interface       for every method a context, its input and its output
structure       the client
constructor     the client
helper          as the interface, the options of the call, the call, and what waits for it
```

The identifiers that the declarations mention are those of the table, in its order. They are of
the packages of the workflow engine and of the standard library, or the input or the output of a
method.
-/

namespace TemporalBindings.Source

/-! ## Signatures -/

/-- A separator that is text mentions nothing. -/
theorem codeIdents_intercalate (sep : String) (cs : List Code) :
    codeIdents (List.intercalate [.text sep] cs) = cs.flatMap codeIdents := by
  induction cs with
  | nil => rfl
  | cons c cs ih =>
    cases cs with
    | nil => simp
    | cons c' cs => simp [List.intercalate_cons_cons, ih]

/-- A parameter mentions what its type does. -/
@[simp] theorem codeIdents_param (p : Param) : codeIdents p.code = codeIdents p.type := rfl

/-- A signature mentions what its parameters and its result do. -/
@[simp] theorem codeIdents_signature (s : Signature) :
    codeIdents s.code = s.params.flatMap (codeIdents ·.type) ++ codeIdents s.result := by
  unfold Signature.code
  split
  · next h => simp [codeIdents_intercalate, List.flatMap_map, h]
  · simp [codeIdents_intercalate, List.flatMap_map]

/-- A method of an interface mentions what its signature does. -/
theorem idents_member (m : Member) :
    m.items.flatMap Item.idents = codeIdents m.signature.code := by
  have hdoc : m.doc.items.flatMap Item.idents = [] :=
    List.flatMap_eq_nil_iff.2 fun item h => Doc.idents_of_mem_items h
  simp [Member.items, hdoc, Item.idents]

/-! ## Statements -/

/-- The names of variables are not identifiers of packages. -/
@[simp] theorem codeIdents_defining (names : List String) : codeIdents (defining names) = [] := by
  cases names <;> rfl

/-- A literal mentions its type and what its values do, on whatever lines these stand. -/
theorem idents_literal (l : Literal) (before : Code) (after : String) :
    (l.items before after).flatMap Item.idents =
      codeIdents before ++ l.type :: l.fields.flatMap (codeIdents ·.2) := by
  unfold Literal.items
  split
  · next h => simp [line, Item.idents, h]
  · simp [line, Item.idents, List.flatMap_map]

/-- The identifiers in a statement. -/
def Stmt.idents : Stmt → List Ident
  | .code _ value => codeIdents value
  | .literal _ before l _ => codeIdents before ++ l.type :: l.fields.flatMap (codeIdents ·.2)
  | .declare _ type => codeIdents type
  | .branch start condition body =>
    codeIdents ((start.map (·.2)).getD []) ++ codeIdents condition ++ body.flatMap codeIdents
  | .blank => []

/-- The lines of a statement mention what it does. -/
theorem idents_stmt (s : Stmt) : s.items.flatMap Item.idents = s.idents := by
  cases s with
  | code names value => simp [Stmt.items, line, Item.idents, Stmt.idents]
  | literal names before l after => simp [Stmt.items, idents_literal, Stmt.idents]
  | declare name type => simp [Stmt.items, line, Item.idents, Stmt.idents]
  | branch start condition body =>
    cases start with
    | none => simp [Stmt.items, line, Item.idents, Stmt.idents, branchStart, List.flatMap_map]
    | some p => simp [Stmt.items, line, Item.idents, Stmt.idents, branchStart, List.flatMap_map]
  | blank => rfl

/-! ## Declarations -/

/-- An interface mentions what its methods do. -/
theorem idents_interface (doc : Doc) (name trailing : String) (members : List Member) :
    (Decl.interface doc name trailing members).idents =
      members.flatMap fun m => codeIdents m.signature.code := by
  rw [Decl.idents_eq, Decl.head, Decl.inside, List.flatMap_assoc]
  simp [idents_member]

/-- A structure mentions what the types of its fields do. -/
theorem idents_struct (name : String) (fields : List Param) :
    (Decl.struct name fields).idents = fields.flatMap (codeIdents ·.type) := by
  rw [Decl.idents_eq, Decl.head, Decl.inside]
  simp [List.flatMap_map, line, Item.idents]

/-- A function mentions what its receiver, its signature and its body do. -/
theorem idents_func (f : Func) :
    (Decl.func f).idents =
      ((f.receiver.map (codeIdents ·.type)).getD [] ++ codeIdents f.signature.code) ++
        f.body.flatMap Stmt.idents := by
  rw [Decl.idents_eq, Decl.head, Decl.inside, List.flatMap_assoc]
  cases h : f.receiver <;> simp [receiverCode, idents_stmt]

end TemporalBindings.Source

namespace TemporalBindings.Bindings

open Source Worker

/-! ## References -/

/-- What generated code refers to: an identifier of a package, or a member of a variable. -/
inductive Reference
  | ident (i : Ident)
  | member (x name : String)
  deriving DecidableEq

instance : Coe Ident Reference :=
  ⟨.ident⟩

/-- The identifier that is referred to, unless it is a member of a variable. -/
def Reference.ident? : Reference → Option Ident
  | .ident i => some i
  | .member _ _ => none

/-- What the value of an option refers to: a duration is a multiple of a second. -/
def valueReferences (sdk : Sdk) : OptionValue → List Reference
  | .duration _ => [sdk.time.ident "Duration", sdk.time.ident "Second"]
  | _ => []

/-- The member of the worker that registers a method. -/
def Method.registrar (m : Method) : String :=
  match m.role with
  | .workflow => "RegisterWorkflow"
  | .activity => "RegisterActivity"

/-- What the parameters of a method refer to. -/
def Method.paramReferences (m : Method) (context : Package) : List Reference :=
  [context.ident "Context", m.input]

/-- What a helper refers to behind its parameters: its result, the options of the call and how
they are passed on, the call with the method that is called, and what waits for the result. -/
def Verb.references (sdk : Sdk) (m : Method) : Verb → List Reference
  | ⟨.start, .workflow⟩ =>
    [sdk.client.ident "WorkflowRun", sdk.client.ident "StartWorkflowOptions",
      .member "c" "t.ExecuteWorkflow", .member "c" m.name]
  | ⟨.execute, .workflow⟩ =>
    [m.output, sdk.client.ident "StartWorkflowOptions", .member "c" "t.ExecuteWorkflow",
      .member "c" m.name, m.output, .member "run" "Get"]
  | ⟨.start, .childWorkflow⟩ =>
    [sdk.workflow.ident "ChildWorkflowFuture", sdk.workflow.ident "WithChildOptions",
      sdk.workflow.ident "ChildWorkflowOptions", sdk.workflow.ident "ExecuteChildWorkflow",
      .member "c" m.name]
  | ⟨.execute, .childWorkflow⟩ =>
    [m.output, sdk.workflow.ident "WithChildOptions", sdk.workflow.ident "ChildWorkflowOptions",
      m.output, sdk.workflow.ident "ExecuteChildWorkflow", .member "c" m.name]
  | ⟨.start, .activity⟩ =>
    [sdk.workflow.ident "Future", sdk.workflow.ident "WithActivityOptions",
      sdk.workflow.ident "ActivityOptions", sdk.workflow.ident "ExecuteActivity",
      .member "c" m.name]
  | ⟨.execute, .activity⟩ =>
    [m.output, sdk.workflow.ident "WithActivityOptions", sdk.workflow.ident "ActivityOptions",
      m.output, sdk.workflow.ident "ExecuteActivity", .member "c" m.name]
  | ⟨.start, .localActivity⟩ =>
    [sdk.workflow.ident "Future", sdk.workflow.ident "WithLocalActivityOptions",
      sdk.workflow.ident "LocalActivityOptions", sdk.workflow.ident "ExecuteActivity",
      .member "c" m.name]
  | ⟨.execute, .localActivity⟩ =>
    [m.output, sdk.workflow.ident "WithLocalActivityOptions",
      sdk.workflow.ident "LocalActivityOptions", m.output,
      sdk.workflow.ident "ExecuteLocalActivity", .member "c" m.name]

/-- What the function refers to that starts a service's worker. -/
def Service.bootstrapReferences (s : Service) (sdk : Sdk) : List Reference :=
  match s.startedWorker with
  | none => []
  | some worker =>
    ([sdk.client.ident "Client", sdk.worker.ident "Options"] : List Reference) ++
      worker.options.nonZero.flatMap (fun e => valueReferences sdk e.2) ++
      ([sdk.worker.ident "New"] : List Reference) ++
      s.methods.map (fun m => Reference.member "w" m.registrar) ++
      ([.member "w" "Run", sdk.worker.ident "InterruptCh", sdk.log.ident "Fatalln"] :
        List Reference)

/-- What a method of an interface refers to. -/
def Method.memberReferences (m : Method) (sdk : Sdk) : List Reference :=
  m.paramReferences (m.role.contextPackage sdk) ++ [.ident m.output]

/-- What a helper refers to. -/
def Method.helperReferences (m : Method) (sdk : Sdk) (v : Verb) : List Reference :=
  m.paramReferences (v.target.contextPackage sdk) ++ v.references sdk m

/-- What a service refers to. The structure and the constructor of its client refer to the
client of the engine, one after the other. -/
def Service.references (s : Service) (sdk : Sdk) : List Reference :=
  s.bootstrapReferences sdk ++ s.methods.flatMap (fun m => m.memberReferences sdk) ++
    ([sdk.client.ident "Client", sdk.client.ident "Client"] : List Reference) ++
    s.methods.flatMap fun m => m.role.verbs.flatMap (m.helperReferences sdk)

/-- What a file refers to on its lines of code, in the order of the text. -/
def File.references (f : File) (sdk : Sdk) : List Reference :=
  f.services.flatMap fun s => s.references sdk

/-! ## Services -/

variable {s : Service} {sdk : Sdk}

/-- The identifiers of a value are those of the table. -/
theorem codeIdents_valueCode (v : OptionValue) :
    codeIdents (valueCode sdk v) = (valueReferences sdk v).filterMap Reference.ident? := by
  cases v <;> rfl

/-- The bootstrap mentions the identifiers of the table; methods are registered by their names. -/
theorem Service.idents_bootstrap :
    (s.bootstrap sdk).flatMap Decl.idents =
      (s.bootstrapReferences sdk).filterMap Reference.ident? := by
  have hregistrations :
      (s.methods.map Method.registration).flatMap Stmt.idents = [] ∧
        (s.methods.map fun m => Reference.member "w" m.registrar).filterMap
          Reference.ident? = [] := by
    rw [List.flatMap_map, List.filterMap_map, List.flatMap_eq_nil_iff, List.filterMap_eq_nil_iff]
    refine ⟨fun m _ => ?_, fun m _ => rfl⟩
    unfold Method.registration
    split <;> rfl
  have hvalues (worker : WorkerConfig) :
      (optionsLiteral sdk worker.options).fields.flatMap (codeIdents ·.2) =
        (worker.options.nonZero.flatMap fun e => valueReferences sdk e.2).filterMap
          Reference.ident? := by
    simp [optionsLiteral, List.flatMap_map, List.filterMap_flatMap, codeIdents_valueCode]
  unfold Service.bootstrap Service.bootstrapReferences
  cases s.startedWorker with
  | none => rfl
  | some worker =>
    simp only [List.flatMap_singleton, idents_func, Service.bootstrapBody, List.flatMap_append,
      List.filterMap_append, hregistrations, ← hvalues]
    simp [Stmt.idents, Reference.ident?, optionsLiteral, List.filterMap_cons]

/-- The interface mentions the contexts, the inputs and the outputs of the methods. -/
theorem Service.idents_interface :
    (s.interface sdk).idents =
      (s.methods.flatMap fun m => m.memberReferences sdk).filterMap Reference.ident? := by
  rw [Service.interface, Source.idents_interface, List.flatMap_map, List.filterMap_flatMap]
  simp [Method.member, Method.params, Method.result, Method.memberReferences,
    Method.paramReferences, Reference.ident?]

/-- A helper mentions the identifiers of the table, for each of the eight verbs. -/
theorem Service.idents_helper (m : Method) (v : Verb) :
    (s.helper sdk m v).idents = (m.helperReferences sdk v).filterMap Reference.ident? := by
  rw [Service.helper, idents_func]
  obtain ⟨mode, target⟩ := v
  cases mode <;> cases target <;> rfl

/-- The declarations of a service mention the identifiers of the table, in its order. -/
theorem Service.idents_decls :
    (s.decls sdk).flatMap Decl.idents = (s.references sdk).filterMap Reference.ident? := by
  have hstruct : (s.struct sdk).idents = [sdk.client.ident "Client"] := by
    simp [Service.struct, idents_struct]
  have hconstructor : (s.constructor sdk).idents = [sdk.client.ident "Client"] := by
    simp [Service.constructor, idents_func, Stmt.idents]
  have hhelpers : (s.methods.flatMap fun m => m.role.verbs.map (s.helper sdk m)).flatMap
      Decl.idents = (s.methods.flatMap fun m =>
        m.role.verbs.flatMap (m.helperReferences sdk)).filterMap Reference.ident? := by
    simp [List.flatMap_assoc, List.flatMap_map, List.filterMap_flatMap, idents_helper]
  simp [Service.decls, Service.client, idents_bootstrap, idents_interface, hstruct, hconstructor,
    hhelpers, Service.references, Reference.ident?]

/-! ## What can be referred to -/

/-- The packages that generated code refers to besides those of messages. -/
def Sdk.packages (sdk : Sdk) : List Package :=
  [sdk.context, sdk.log, sdk.time, sdk.client, sdk.worker, sdk.workflow]

/-- The names that generated code has of these packages. -/
def engineNames : List String :=
  ["Client", "Options", "Duration", "Second", "New", "InterruptCh", "Fatalln", "Context",
    "WorkflowRun", "ChildWorkflowFuture", "Future", "StartWorkflowOptions", "ChildWorkflowOptions",
    "ActivityOptions", "LocalActivityOptions", "WithChildOptions", "WithActivityOptions",
    "WithLocalActivityOptions", "ExecuteChildWorkflow", "ExecuteActivity", "ExecuteLocalActivity"]

/-- The members that generated code uses besides the methods. -/
def engineMembers : List (String × String) :=
  [("w", "RegisterWorkflow"), ("w", "RegisterActivity"), ("w", "Run"), ("c", "t.ExecuteWorkflow"),
    ("run", "Get")]

/-- What holds of the names of the engine and of the methods holds of all references. -/
theorem Service.forall_references {P : Reference → Prop}
    (hpackages : ∀ p ∈ sdk.packages, ∀ name ∈ engineNames, P (p.ident name))
    (hmembers : ∀ e ∈ engineMembers, P (.member e.1 e.2))
    (hmethods : ∀ m ∈ s.methods, P m.input ∧ P m.output ∧ P (.member "c" m.name)) :
    ∀ r ∈ s.references sdk, P r := by
  simp only [Sdk.packages, engineNames, engineMembers, List.forall_mem_cons, List.not_mem_nil,
    false_implies, implies_true, and_true] at hpackages hmembers
  obtain ⟨hcontext, hlog, htime, hclient, hworker, hworkflow⟩ := hpackages
  have hparams {m : Method} (hm : m ∈ s.methods) :
      (∀ r : Role, ∀ x ∈ m.paramReferences (r.contextPackage sdk), P x) ∧
        ∀ t : Target, ∀ x ∈ m.paramReferences (t.contextPackage sdk), P x := by
    constructor
    · intro r
      cases r <;>
        simp [Method.paramReferences, Role.contextPackage, hcontext, hworkflow, hmethods m hm]
    · intro t
      cases t <;>
        simp [Method.paramReferences, Target.contextPackage, hcontext, hworkflow, hmethods m hm]
  have hverb {m : Method} (hm : m ∈ s.methods) (v : Verb) : ∀ x ∈ v.references sdk m, P x := by
    obtain ⟨mode, target⟩ := v
    cases mode <;> cases target <;>
      simp [Verb.references, hclient, hworkflow, hmembers, hmethods m hm]
  have hvalue (v : OptionValue) : ∀ x ∈ valueReferences sdk v, P x := by
    cases v <;> simp [valueReferences, htime]
  have hbootstrap : ∀ x ∈ s.bootstrapReferences sdk, P x := by
    unfold Service.bootstrapReferences
    split
    · simp
    · have hregistrar (m : Method) : P (.member "w" m.registrar) := by
        unfold Method.registrar
        split <;> simp only [hmembers]
      simp only [List.forall_mem_append, List.forall_mem_cons, List.forall_mem_flatMap,
        List.forall_mem_map, List.not_mem_nil, false_implies, implies_true, and_true]
      exact ⟨⟨⟨⟨⟨hclient.1, hworker.2.1⟩, fun e _ => hvalue e.2⟩, by simp [hworker]⟩,
        fun m _ => hregistrar m⟩, by simp [hmembers, hworker, hlog]⟩
  simp only [Service.references, List.forall_mem_append, List.forall_mem_flatMap,
    Method.memberReferences, Method.helperReferences, List.forall_mem_singleton,
    List.forall_mem_cons]
  exact ⟨⟨⟨hbootstrap, fun m hm => ⟨(hparams hm).1 m.role, (hmethods m hm).2.1⟩⟩,
    by simp [hclient]⟩, fun m hm v _ => ⟨(hparams hm).2 v.target, hverb hm v⟩⟩

/-- What a service may mention. -/
def Service.Mentions (s : Service) (sdk : Sdk) (i : Ident) : Prop :=
  i.package ∈ sdk.packages ∨ ∃ m ∈ s.methods, i = m.input ∨ i = m.output

/-- A service refers to nothing else. -/
theorem Service.mentions_of_mem_references {i : Ident} (h : Reference.ident i ∈ s.references sdk) :
    s.Mentions sdk i := by
  have hall : ∀ r ∈ s.references sdk, ∀ i, r.ident? = some i → s.Mentions sdk i := by
    refine forall_references (fun p hp name _ i hi => ?_) (fun x _ i hi => ?_) fun m hm => ?_
    · obtain rfl := Option.some.inj hi
      exact .inl hp
    · cases hi
    · refine ⟨fun i hi => ?_, fun i hi => ?_, fun i hi => ?_⟩
      · exact .inr ⟨m, hm, .inl (Option.some.inj hi).symm⟩
      · exact .inr ⟨m, hm, .inr (Option.some.inj hi).symm⟩
      · cases hi
  exact hall _ h i rfl

/-- An identifier is mentioned by a service iff it is referred to. -/
theorem Service.mem_idents_decls_iff {i : Ident} :
    i ∈ (s.decls sdk).flatMap Decl.idents ↔ Reference.ident i ∈ s.references sdk := by
  rw [idents_decls, List.mem_filterMap]
  constructor
  · rintro ⟨r, hr, hi⟩
    cases r with
    | ident j =>
      obtain rfl := Option.some.inj hi
      exact hr
    | member x name => cases hi
  · exact fun h => ⟨_, h, rfl⟩

/-- A service mentions nothing else. -/
theorem Service.mentions_of_mem_decls {i : Ident} {d : Decl} (hd : d ∈ s.decls sdk)
    (h : i ∈ d.idents) : s.Mentions sdk i :=
  mentions_of_mem_references (mem_idents_decls_iff.1 (List.mem_flatMap.2 ⟨d, hd, h⟩))

end TemporalBindings.Bindings
