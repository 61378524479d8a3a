import TemporalBindings.Proofs.Laid
import TemporalBindings.Proofs.Mentions

/-!
# TemporalBindings.Proofs.Emitted

The declarations that are emitted for a file whose names are identifiers. Each of
them is laid out as one block under the imports of the file, whatever comments,
options and task queue it has. This is shown once for every piece of code that is
emitted:

```
fixed texts                          by reading them
names of services and methods        because they are words
spellings of identifiers             because aliases are words
the task queue, values of options    because they are literals or numerals
```

Only the documentation and the comments behind lines are free text, and they are
comments. So code and comments are told apart in every line, and the layout, which looks
at the ends of lines only, sees all brackets there are.
-/

namespace TemporalBindings.Source

/-- Whether an identifier and the name of its package are identifiers of the language. -/
def Ident.WellNamed (i : Ident) : Prop :=
  IsIdentifier i.name ∧ IsIdentifier i.package.name

instance (i : Ident) : Decidable i.WellNamed :=
  inferInstanceAs (Decidable (_ ∧ _))

end TemporalBindings.Source

namespace TemporalBindings.Bindings

open Number Source Text Worker

/-! ## Names -/

/-- Whether the names of a method and of its messages are identifiers. -/
def Method.WellNamed (m : Method) : Prop :=
  IsIdentifier m.name ∧ m.input.WellNamed ∧ m.output.WellNamed

/-- Whether the names of a service and of its methods are identifiers. -/
def Service.WellNamed (s : Service) : Prop :=
  IsIdentifier s.name ∧ ∀ m ∈ s.methods, m.WellNamed

/-- Whether the names in a file are identifiers. -/
def File.WellNamed (f : File) : Prop :=
  IsIdentifier f.package.name ∧ ∀ s ∈ f.services, s.WellNamed

/-- Whether the packages besides those of messages have identifiers for names. -/
def Sdk.WellNamed (sdk : Sdk) : Prop :=
  ∀ p ∈ sdk.packages, IsIdentifier p.name

instance (m : Method) : Decidable m.WellNamed :=
  inferInstanceAs (Decidable (_ ∧ _ ∧ _))

instance (s : Service) : Decidable s.WellNamed :=
  inferInstanceAs (Decidable (_ ∧ _))

instance (f : File) : Decidable f.WellNamed :=
  inferInstanceAs (Decidable (_ ∧ _))

instance (sdk : Sdk) : Decidable sdk.WellNamed :=
  inferInstanceAs (Decidable (∀ p ∈ _, _))

/-- The packages of the workflow engine and of the standard library are well named. -/
theorem Sdk.wellNamed_default : ({} : Sdk).WellNamed := by
  decide +kernel

/-- The derived names of a service are names too. -/
theorem Service.isName_interfaceName {s : Service} (h : s.WellNamed) : IsName s.interfaceName :=
  h.1.isName.append (show IsName "TemporalClient" by decide).2

theorem Service.isName_structName {s : Service} (h : s.WellNamed) : IsName s.structName :=
  (Service.isName_interfaceName h).lowerFirst

theorem Service.isName_constructorName {s : Service} (h : s.WellNamed) :
    IsName s.constructorName :=
  IsName.append (s := "New") (by decide) (Service.isName_interfaceName h).2

theorem Service.isName_workerName {s : Service} (h : s.WellNamed) : IsName s.workerName :=
  IsName.append (s := "StartWorker") (by decide) h.1.isName.2

/-- The name of a verb is two words without a blank between them. -/
theorem Verb.isName_name (v : Verb) : IsName v.name := by
  obtain ⟨mode, target⟩ := v
  cases mode <;> cases target <;> decide

/-- So is the name of a helper, which is those of the verb, the service and the method. -/
theorem Verb.isName_helperName (v : Verb) {service method : String} (hs : IsName service)
    (hm : IsName method) : IsName (v.helperName service method) :=
  (v.isName_name.append hs.2).append hm.2

/-! ## Code of methods -/

variable {t : Imports} {sdk : Sdk} {s : Service} {m : Method}

/-- An identifier of the engine or of the standard library is spelled as one word. -/
theorem isWord_spelling_ident (ht : t.HasWords) (p : Package) (name : String)
    (h : IsWord name) : IsWord (t.spelling (p.ident name)) :=
  ht.spelling h

/-- The parameters of a method: the context and the input. -/
theorem Method.isSound_params (ht : t.HasWords) (hm : m.WellNamed) (context : Package) :
    ∀ p ∈ m.params context, p.IsSound t := by
  have hcontext := isWord_spelling_ident ht context "Context" (by decide)
  have hinput := ht.spelling hm.2.1.1.isWord
  have hnames : IsWord "ctx" ∧ IsWord "in" := by decide
  intro p hp
  obtain rfl | rfl : p = _ ∨ p = _ := by simpa [params] using hp
  · exact ⟨hnames.1, Imports.isSound_ident hcontext⟩
  · exact ⟨hnames.2, (Imports.isSound_ident hinput).cons_text fun _ => rfl⟩

theorem Method.isSound_result (ht : t.HasWords) (hm : m.WellNamed) : t.IsSound m.result := by
  have houtput := ht.spelling hm.2.2.1.isWord
  intro opened
  simp only [result, Imports.openAfter?, Imports.pieceText, houtput.openAfter?, Option.bind_some]
  rfl

/-- A method of the interface is one flat line. -/
theorem Method.isFlatLine_member (ht : t.HasWords) (hm : m.WellNamed) :
    t.IsFlatLine (m.member sdk).signature.code := by
  have hends : t.Ends (.text " " :: m.result) := by
    simp +decide [Method.result]
  exact ⟨Signature.isSound_code hm.1.isWord (Method.isSound_params ht hm _)
    (Method.isSound_result ht hm), Imports.begins_cons.2 hm.1.isWord.startsPlain,
    hends.append_left _⟩

/-- What a helper returns, for each of the eight verbs. -/
theorem Verb.isSound_result (ht : t.HasWords) (hm : m.WellNamed) (v : Verb) :
    t.IsSound (v.result sdk m) := by
  have hrun := isWord_spelling_ident ht sdk.client "WorkflowRun" (by decide)
  have hchild := isWord_spelling_ident ht sdk.workflow "ChildWorkflowFuture" (by decide)
  have hfuture := isWord_spelling_ident ht sdk.workflow "Future" (by decide)
  unfold Verb.result
  split
  · intro opened
    simp only [Imports.openAfter?, Imports.pieceText, hrun.openAfter?, Option.bind_some]
    rfl
  · exact Imports.isSound_ident hchild
  · exact Imports.isSound_ident hfuture
  · exact Imports.isSound_ident hfuture
  · exact Method.isSound_result ht hm

theorem Verb.isName_function (v : Verb) : IsName v.function := by
  obtain ⟨mode, target⟩ := v
  cases mode <;> cases target <;> decide

/-- The call of a helper, for each of the two ways of calling. -/
theorem Verb.isSound_invocation (ht : t.HasWords) (hm : m.WellNamed) (v : Verb) :
    t.IsSound (v.invocation sdk m) := by
  have hname := hm.1.isWord
  have hfunction := isWord_spelling_ident ht sdk.workflow _ v.isName_function.isWord
  unfold Verb.invocation
  split
  · intro opened
    simp only [Imports.openAfter?, Imports.pieceText, hname.openAfter?, Option.bind_some]
    rfl
  · intro opened
    simp only [Imports.openAfter?, Imports.pieceText, hname.openAfter?, hfunction.openAfter?,
      Option.bind_some]
    rfl

/-- A call ends with its parenthesis. -/
theorem Verb.ends_invocation (v : Verb) : t.Ends (v.invocation sdk m) := by
  unfold invocation
  split <;> simp +decide

/-! ## Statements of helpers -/

/-- The options of a call have no fields, and a name for their type. -/
theorem Target.options_spec (target : Target) (sdk : Sdk) :
    (target.options sdk).fields = [] ∧ IsName (target.options sdk).type.name := by
  have hnames : IsName "StartWorkflowOptions" ∧ IsName "ChildWorkflowOptions" ∧
      IsName "ActivityOptions" ∧ IsName "LocalActivityOptions" := by decide
  cases target with
  | workflow => exact ⟨rfl, hnames.1⟩
  | childWorkflow => exact ⟨rfl, hnames.2.1⟩
  | activity => exact ⟨rfl, hnames.2.2.1⟩
  | localActivity => exact ⟨rfl, hnames.2.2.2⟩

theorem Target.isWord_type (target : Target) (ht : t.HasWords) (sdk : Sdk) :
    IsWord (t.spelling (target.options sdk).type) :=
  ht.spelling (target.options_spec sdk).2.isWord

/-- The line that replaces the context by one that carries the options. -/
theorem Target.isFlatLine_inContext (ht : t.HasWords) (target : Target) {function : String}
    (h : IsWord function) :
    t.IsFlatLine (([.name "ctx", " = ", sdk.workflow.ident function, "(", .name "ctx",
      ", "] : Code) ++ [.ident (target.options sdk).type, Piece.text ("\x7b\x7d" ++ ")")]) := by
  have hfunction := isWord_spelling_ident ht sdk.workflow _ h
  have htype := target.isWord_type ht sdk
  refine ⟨?_, by simp +decide, by simp +decide⟩
  intro opened
  simp only [List.cons_append, List.nil_append, Imports.openAfter?, Imports.pieceText,
    hfunction.openAfter?, htype.openAfter?, Option.bind_some]
  rfl

/-- The line that defines the options of a workflow. -/
theorem Target.isFlatLine_define (ht : t.HasWords) (target : Target) :
    t.IsFlatLine (defining ["opts"] ++ [] ++
      [Piece.ident (target.options sdk).type, .text ("\x7b\x7d" ++ "")]) := by
  have htype := target.isWord_type ht sdk
  refine ⟨?_, by simp +decide [defining], by simp +decide [defining]⟩
  intro opened
  simp only [defining, List.cons_append, List.nil_append, Imports.openAfter?, Imports.pieceText,
    htype.openAfter?, Option.bind_some]
  rfl

/-- The options of a call are one line, because the records have no fields. -/
theorem Target.laid_configure (ht : t.HasWords) (target : Target) :
    Laid t (target.configure sdk).items := by
  have hfields := (target.options_spec sdk).1
  cases target with
  | workflow => exact Literal.laid_of_nil hfields (Target.isFlatLine_define ht _)
  | childWorkflow => exact Literal.laid_of_nil hfields (isFlatLine_inContext ht _ (by decide))
  | activity => exact Literal.laid_of_nil hfields (isFlatLine_inContext ht _ (by decide))
  | localActivity => exact Literal.laid_of_nil hfields (isFlatLine_inContext ht _ (by decide))

/-- The call of a helper behind some word and before some more code. -/
theorem Verb.isFlatLine_invocation (ht : t.HasWords) (hm : m.WellNamed) (v : Verb)
    {before : String} (hbefore : StartsPlain before ∧ ∀ o, openAfter? o before = some o)
    {after : Code} (hafter : t.IsSound after ∧ (after = [] ∨ t.Ends after)) :
    t.IsFlatLine (.text before :: (v.invocation sdk m ++ after)) := by
  refine ⟨((v.isSound_invocation ht hm).append hafter.1).cons_text hbefore.2,
    Imports.begins_cons.2 hbefore.1, ?_⟩
  obtain rfl | hends := hafter.2
  · rw [List.append_nil]
    exact v.ends_invocation.append_left [.text before]
  · exact (hends.append_left _).append_left [.text before]

theorem isFlatLine_return {x : String} (hx : IsWord x) :
    t.IsFlatLine ["return ", .name x, ", ", .name "err"] := by
  refine ⟨?_, by simp +decide, by simp +decide⟩
  intro opened
  simp only [Imports.openAfter?, Imports.pieceText, hx.openAfter?, Option.bind_some]
  rfl

/-- The declaration of the variable for the output. -/
theorem Method.isFlatLine_declare_out (ht : t.HasWords) (hm : m.WellNamed) :
    t.IsFlatLine (.text ("var " ++ "out" ++ " ") :: ["*", m.output]) := by
  have houtput := ht.spelling hm.2.2.1.isWord
  refine ⟨?_, by simp +decide, by simp [houtput.endsFlat]⟩
  intro opened
  simp only [Imports.openAfter?, Imports.pieceText, houtput.openAfter?, Option.bind_some]
  rfl

/-- The line that waits for a workflow. -/
theorem isFlatLine_get :
    t.IsFlatLine
      [.name "err", " = ", .name "run", ".Get(", .name "ctx", ", &", .name "out", ")"] := by
  refine ⟨?_, by simp +decide, by simp +decide⟩
  intro opened
  simp only [Imports.openAfter?, Imports.pieceText]
  rfl

theorem isSound_ifErr : t.IsSound [.name "err", " != ", .name "nil"] := by
  intro opened
  simp only [Imports.openAfter?, Imports.pieceText]
  rfl

/-- What stands behind a call that is waited for. -/
theorem isSound_getOut :
    t.IsSound [".Get(", .name "ctx", ", &", .name "out", ")"] ∧
      t.Ends [".Get(", .name "ctx", ", &", .name "out", ")"] := by
  refine ⟨?_, by simp +decide⟩
  intro opened
  simp only [Imports.openAfter?, Imports.pieceText]
  rfl

/-- What follows the options of a helper, for each of the three ways of calling. -/
theorem Verb.laid_call (ht : t.HasWords) (hm : m.WellNamed) (v : Verb) :
    Laid t ((v.call sdk m).flatMap Stmt.items) := by
  have hinvocation {before : String}
      (hbefore : StartsPlain before ∧ ∀ o, openAfter? o before = some o) :
      t.IsFlatLine (.text before :: v.invocation sdk m) := by
    rw [← List.append_nil (v.invocation sdk m)]
    exact v.isFlatLine_invocation ht hm hbefore ⟨Imports.isSound_nil, .inl rfl⟩
  have hdeclare := Stmt.laid_declare (Method.isFlatLine_declare_out ht hm)
  have hreturn : Laid t (Stmt.code [] ["return ", .name "out", ", ", .name "err"]).items :=
    Stmt.laid_code (isFlatLine_return (by decide))
  refine .flatMap fun st hst => ?_
  unfold call at hst
  split at hst
  · rw [List.mem_singleton.1 hst]
    exact Stmt.laid_code (hinvocation ⟨by decide, fun _ => rfl⟩)
  · simp only [List.mem_cons, List.not_mem_nil, or_false] at hst
    obtain rfl | rfl | rfl | rfl | rfl := hst
    · exact Stmt.laid_code (hinvocation ⟨by decide, fun _ => rfl⟩)
    · refine Stmt.laid_branch isSound_ifErr fun c hc => ?_
      rw [List.mem_singleton.1 hc]
      exact isFlatLine_return (by decide)
    · exact hdeclare
    · exact Stmt.laid_code isFlatLine_get
    · exact hreturn
  · simp only [List.mem_cons, List.not_mem_nil, or_false] at hst
    obtain rfl | rfl | rfl := hst
    · exact hdeclare
    · exact Stmt.laid_code (v.isFlatLine_invocation ht hm ⟨by decide, fun _ => rfl⟩
        ⟨isSound_getOut.1, .inr isSound_getOut.2⟩)
    · exact hreturn

/-! ## Statements of the bootstrap -/

theorem isName_settingName (x : Setting) : IsName x.name := by
  cases x <;> exact isName_ofList (by simp) (by decide)

/-- The value of an option, whatever it is, is a numeral, a literal or code of these. -/
theorem isSound_valueCode (ht : t.HasWords) (v : OptionValue) : t.IsSound (valueCode sdk v) := by
  have hfloat (d : Double) (opened : List Char) :
      openAfter? opened (String.ofList (floatText d)) = some opened :=
    openAfter?_numeral (fun c hc => isNumeralChar_of_mem_floatText hc) opened
  cases v with
  | bool b =>
    have hword : IsWord (if b then "true" else "false") := by cases b <;> decide
    exact Imports.isSound_text hword.openAfter?
  | int n =>
    exact Imports.isSound_text (openAfter?_numeral fun c hc => isNumeralChar_of_mem_intText hc)
  | float d => exact Imports.isSound_text (hfloat d)
  | string x => exact Imports.isSound_text (openAfter?_quote x)
  | duration d =>
    have hduration := isWord_spelling_ident ht sdk.time "Duration" (by decide)
    have hsecond := isWord_spelling_ident ht sdk.time "Second" (by decide)
    have hproduct (d) (opened : List Char) :
        openAfter? opened ("(" ++ String.ofList (floatText d) ++ " * ") = some (')' :: opened) :=
      openAfter?_append (openAfter?_append rfl (hfloat d _)) rfl
    intro opened
    simp only [valueCode, Imports.openAfter?, Imports.pieceText, hduration.openAfter?,
      hsecond.openAfter?, hproduct, Option.bind_some]
    rfl

/-- The fields of the literal of options are single lines. -/
theorem isSound_of_mem_optionsLiteral (ht : t.HasWords) (o : Options) :
    ∀ f ∈ (optionsLiteral sdk o).fields, IsWord f.1 ∧ t.IsSound f.2 := by
  intro f hf
  obtain ⟨⟨x, v⟩, -, rfl⟩ := List.mem_map.1 hf
  exact ⟨(isName_settingName x).isWord, isSound_valueCode ht v⟩

/-- The task queue may say anything: it is written as a literal. -/
theorem Service.isFlatLine_taskQueue (queue : String) :
    t.IsFlatLine (defining ["taskQueue"] ++ [Piece.text (quote queue)]) := by
  have hquote : EndsFlat (quote queue) := by
    rw [EndsFlat, quote, String.toList_ofList, List.getLast?_concat]
    decide
  refine ⟨?_, by simp +decide [defining], by simp [defining, hquote]⟩
  intro opened
  simp only [defining, List.cons_append, List.nil_append, Imports.openAfter?, Imports.pieceText,
    openAfter?_quote, Option.bind_some]
  rfl

/-- The line that makes the worker. -/
theorem Sdk.isFlatLine_new (ht : t.HasWords) :
    t.IsFlatLine (defining ["w"] ++ ([sdk.worker.ident "New", "(", .name "c", ", ",
      .name "taskQueue", ", ", .name "opts", ")"] : Code)) := by
  have hnew := isWord_spelling_ident ht sdk.worker "New" (by decide)
  refine ⟨?_, by simp +decide [defining], by simp +decide [defining]⟩
  intro opened
  simp only [defining, List.cons_append, List.nil_append, Imports.openAfter?, Imports.pieceText,
    hnew.openAfter?, Option.bind_some]
  rfl

/-- A method is registered on a line of its own, by one of two calls. -/
theorem Method.isFlatLine_register (hm : m.WellNamed) {call : String}
    (hcall : ∀ o, openAfter? o call = some (')' :: o)) :
    t.IsFlatLine [.name "w", call, m.name, ")"] := by
  have hname := hm.1.isWord
  refine ⟨?_, by simp +decide, by simp +decide⟩
  intro opened
  simp only [Imports.openAfter?, Imports.pieceText, hcall, hname.openAfter?, Option.bind_some]
  rfl

theorem Method.laid_registration (hm : m.WellNamed) : Laid t m.registration.items := by
  unfold Method.registration
  split <;> exact Stmt.laid_code (Method.isFlatLine_register hm fun _ => rfl)

/-- The line that runs the worker until it is interrupted. -/
theorem Sdk.isSound_run (ht : t.HasWords) :
    t.IsSound (branchStart (some ("err", [.name "w", ".Run(", sdk.worker.ident "InterruptCh",
      "())"])) ++ ([.name "err", " != ", .name "nil"] : Code)) := by
  have hinterrupt := isWord_spelling_ident ht sdk.worker "InterruptCh" (by decide)
  intro opened
  simp only [branchStart, defining, List.cons_append, List.nil_append, Imports.openAfter?,
    Imports.pieceText, hinterrupt.openAfter?, Option.bind_some]
  rfl

/-- The line that reports a failure, with a message of its own. -/
theorem Sdk.isFlatLine_fatal (ht : t.HasWords) :
    t.IsFlatLine [sdk.log.ident "Fatalln", "(\"Failed to start Temporal worker:\", ", .name "err",
      ")"] := by
  have hfatal := isWord_spelling_ident ht sdk.log "Fatalln" (by decide)
  have hsplit : "(\"Failed to start Temporal worker:\", " =
      "(" ++ quote "Failed to start Temporal worker:" ++ ", " := by
    rw [← String.toList_inj, String.toList_append, String.toList_append, toList_quote]
    rfl
  have hmessage (opened : List Char) :
      openAfter? opened "(\"Failed to start Temporal worker:\", " = some (')' :: opened) := by
    rw [hsplit]
    exact openAfter?_append (openAfter?_append rfl (openAfter?_quote _ _)) rfl
  refine ⟨?_, by simp [hfatal.startsPlain], by simp +decide⟩
  intro opened
  simp only [Imports.openAfter?, Imports.pieceText, hfatal.openAfter?, hmessage, Option.bind_some]
  rfl

/-- The code before the options of a worker. -/
theorem isSound_options (ht : t.HasWords) (o : Options) :
    t.IsSound (defining ["opts"] ++ [] ++ [Piece.ident (optionsLiteral sdk o).type]) := by
  have hoptions := isWord_spelling_ident ht sdk.worker "Options" (by decide)
  exact (Imports.isSound_ident hoptions).cons_text fun _ => rfl

/-- The body of a bootstrap: flat lines, the literal of the options, and the branch that runs. -/
theorem Service.laid_bootstrapBody (ht : t.HasWords) (hs : s.WellNamed) (worker : WorkerConfig) :
    Laid t ((s.bootstrapBody sdk worker).flatMap Stmt.items) := by
  refine .flatMap fun st hst => ?_
  simp only [bootstrapBody, List.mem_append, List.mem_cons, List.not_mem_nil, or_false,
    List.mem_map] at hst
  obtain ((rfl | rfl | rfl | rfl) | ⟨m, hm, rfl⟩) | rfl | rfl := hst
  · exact Stmt.laid_code (Service.isFlatLine_taskQueue _)
  · exact Literal.laid_items (isSound_options ht _) (by simp +decide [defining])
      (isSound_of_mem_optionsLiteral ht _)
  · exact Stmt.laid_code (Sdk.isFlatLine_new ht)
  · exact Stmt.laid_blank
  · exact Method.laid_registration (hs.2 m hm)
  · exact Stmt.laid_blank
  · refine Stmt.laid_branch (Sdk.isSound_run ht) fun c hc => ?_
    rw [List.mem_singleton.1 hc]
    exact Sdk.isFlatLine_fatal ht

/-! ## Declarations -/

/-- The client as a parameter or a field. -/
theorem Sdk.isSound_client (ht : t.HasWords) : t.IsSound [sdk.client.ident "Client"] :=
  Imports.isSound_ident (isWord_spelling_ident ht sdk.client "Client" (by decide))

theorem Sdk.isSound_clientParam (ht : t.HasWords) :
    ∀ p ∈ [(⟨"c", [sdk.client.ident "Client"]⟩ : Param)], p.IsSound t :=
  List.forall_mem_singleton.2 ⟨show IsWord "c" by decide, Sdk.isSound_client ht⟩

/-- The function that starts a worker is laid out, if there is one. -/
theorem Service.isLaid_bootstrap (ht : t.HasWords) (hs : s.WellNamed) {d : Decl}
    (hd : d ∈ s.bootstrap sdk) : d.IsLaid t := by
  unfold bootstrap at hd
  split at hd
  · simp at hd
  · next worker _ =>
    rw [List.mem_singleton.1 hd]
    exact ⟨by simp [Decl.doc], Func.isOpeningLine_head (by simp)
      (Signature.isSound_code (isName_workerName hs).isWord (Sdk.isSound_clientParam ht)
        Imports.isSound_nil), laid_bootstrapBody ht hs worker⟩

/-- A method of the interface is comments and its line. -/
theorem Method.laid_member (ht : t.HasWords) (hm : m.WellNamed) : Laid t (m.member sdk).items := by
  have hdoc : Laid t (m.member sdk).doc.items :=
    .of_isRemark fun _ => Doc.isRemark_of_mem_items (by simp [Method.member, Method.doc])
  exact hdoc.append (.flat (Method.isFlatLine_member ht hm) .nil)

/-- The interface has one flat line for each method. -/
theorem Service.isLaid_interface (ht : t.HasWords) (hs : s.WellNamed) :
    (s.interface sdk).IsLaid t := by
  refine ⟨by simp [interface, Decl.doc, Service.doc],
    isOpeningLine_type (isName_interfaceName hs).isWord (by decide), ?_⟩
  rw [interface, Decl.inside, List.flatMap_map]
  exact .flatMap fun m hm => Method.laid_member ht (hs.2 m hm)

theorem Sdk.isFlatLine_field (ht : t.HasWords) :
    t.IsFlatLine (Param.code ⟨"t", [sdk.client.ident "Client"]⟩) := by
  have hclient := isWord_spelling_ident ht sdk.client "Client" (by decide)
  exact ⟨Param.isSound_code ⟨show IsWord "t" by decide, Sdk.isSound_client ht⟩,
    by simp +decide [Param.code], by simp [Param.code, hclient.endsFlat]⟩

/-- The structure has one line. -/
theorem Service.isLaid_struct (ht : t.HasWords) (hs : s.WellNamed) :
    (s.struct sdk).IsLaid t :=
  ⟨by simp [struct, Decl.doc], isOpeningLine_type (isName_structName hs).isWord (by decide),
    .line (Sdk.isFlatLine_field ht)⟩

/-- The line that returns a client. -/
theorem Service.isFlatLine_client (hs : s.WellNamed) :
    t.IsFlatLine ["return &", s.structName, "\x7b", .name "c", "\x7d"] := by
  have hname := (isName_structName hs).isWord
  refine ⟨?_, by simp +decide, by simp +decide⟩
  intro opened
  simp only [Imports.openAfter?, Imports.pieceText,
    hname.openAfter?, Option.bind_some]
  rfl

theorem Service.isLaid_constructor (ht : t.HasWords) (hs : s.WellNamed) :
    (s.constructor sdk).IsLaid t := by
  refine ⟨by simp [constructor, Decl.doc, Service.doc], Func.isOpeningLine_head (by simp) ?_,
    Stmt.laid_code (Service.isFlatLine_client hs)⟩
  exact Signature.isSound_code (isName_constructorName hs).isWord (Sdk.isSound_clientParam ht)
    (Imports.isSound_text (isName_interfaceName hs).isWord.openAfter?)

/-- The documentation of helpers has been broken into lines already. -/
theorem Verb.isSingleLine_of_mem_paragraph (v : Verb) : ∀ l ∈ v.paragraph, IsSingleLine l := by
  obtain ⟨mode, target⟩ := v
  cases mode <;> cases target <;>
    simp only [Verb.paragraph, List.forall_mem_cons, List.not_mem_nil, false_implies,
      implies_true, and_true] <;>
    and_intros <;>
    exact isSingleLine_ofList (by decide)

/-- A helper is laid out: its first line, the options and the call. -/
theorem Service.isLaid_helper (ht : t.HasWords) (hs : s.WellNamed) (hm : m.WellNamed)
    (v : Verb) : (s.helper sdk m v).IsLaid t := by
  refine ⟨v.isSingleLine_of_mem_paragraph, Func.isOpeningLine_head (fun r hr => ?_) ?_, ?_⟩
  · obtain rfl := Option.mem_some.1 hr
    exact ⟨show IsWord "c" by decide, Imports.IsSound.cons_text (fun _ => rfl)
      (Imports.isSound_text (isName_structName hs).isWord.openAfter?)⟩
  · exact Signature.isSound_code (v.isName_helperName hs.1.isName hm.1.isName).isWord
      (Method.isSound_params ht hm _) (v.isSound_result ht hm)
  · exact (v.target.laid_configure ht).append (v.laid_call ht hm)

/-- Every declaration of a service is laid out as one block. -/
theorem Service.isLaid_of_mem_decls (ht : t.HasWords) (hs : s.WellNamed) {d : Decl}
    (hd : d ∈ s.decls sdk) : d.IsLaid t := by
  simp only [Service.decls, Service.client, List.mem_append, List.mem_cons, List.not_mem_nil,
    or_false, List.mem_flatMap, List.mem_map] at hd
  obtain hd | (rfl | rfl | rfl) | ⟨m, hm, v, -, rfl⟩ := hd
  · exact isLaid_bootstrap ht hs hd
  · exact isLaid_interface ht hs
  · exact isLaid_struct ht hs
  · exact isLaid_constructor ht hs
  · exact isLaid_helper ht hs (hs.2 m hm) v

/-! ## Files -/

/-- The imports of a file whose names are identifiers have identifiers for aliases. -/
theorem File.hasIdentifiers_imports {f : File} (hf : f.WellNamed) (hsdk : sdk.WellNamed) :
    (f.imports sdk).HasIdentifiers := by
  refine Imports.hasIdentifiers_requireAll fun i hi => ?_
  obtain ⟨d, hd, hi⟩ := List.mem_flatMap.1 hi
  obtain ⟨s, hs, hd⟩ := List.mem_flatMap.1 hd
  obtain hp | ⟨m, hm, rfl | rfl⟩ := Service.mentions_of_mem_decls hd hi
  · exact hsdk _ hp
  · exact ((hf.2 s hs).2 m hm).2.1.2
  · exact ((hf.2 s hs).2 m hm).2.2.2

theorem File.hasWords_imports {f : File} (hf : f.WellNamed) (hsdk : sdk.WellNamed) :
    (f.imports sdk).HasWords :=
  (File.hasIdentifiers_imports hf hsdk).hasWords

/-- Every declaration of such a file is laid out under its imports. -/
theorem File.isLaid_of_mem_decls {f : File} (hf : f.WellNamed) (hsdk : sdk.WellNamed) {d : Decl}
    (hd : d ∈ f.decls sdk) : d.IsLaid (f.imports sdk) := by
  obtain ⟨s, hs, hd⟩ := List.mem_flatMap.1 hd
  exact Service.isLaid_of_mem_decls (File.hasWords_imports hf hsdk) (hf.2 s hs) hd

end TemporalBindings.Bindings
