import TemporalBindings.Proofs.Declared
import TemporalBindings.Proofs.Printed

/-!
# TemporalBindings.Proofs.Roles

The role of a method in a generated file. It is looked at three times while a file is
written, and the three places of the text agree on it:

```
                 workflow                            activity
interface        M(ctx workflow.Context, ...)        M(ctx context.Context, ...)
bootstrap        w.RegisterWorkflow(M)               w.RegisterActivity(M)
helpers          StartWorkflow, ExecuteWorkflow,     StartActivity, ExecuteActivity,
                 StartChildWorkflow, ...             StartLocalActivity, ...
```

Each is read from the code in the text alone. That code is a list of blocks, one for each
declaration; those of a service stand together, and services and methods are in order.
-/

namespace TemporalBindings.Bindings

open Source Text

variable {t : Imports} {sdk : Sdk} {s : Service} {m : Method}

/-! ## Reading lines -/

/-- Whether a line of a bootstrap calls a method of the worker. -/
def callsWorker (l : List Char) : Bool :=
  (stripStart? "\tw.".toList l).isSome

/-- The method of `c` that a line of a helper passes on along with the input. It stands right
before the input, which is the last of the arguments. -/
def passed? (l : List Char) : Option String := do
  let (_, rest) ← cut? '(' l
  let (arguments, _) ← cut? ')' rest
  let others ← stripEnd? ", in".toList arguments
  let method ← stripStart? "c.".toList (afterLast ' ' others)
  some (String.ofList method)

/-- The type of what a line of a helper declares for the output. -/
def output? (l : List Char) : Option String :=
  (stripStart? "\tvar out *".toList l).map String.ofList

example : passed? "\trun, err := c.t.ExecuteWorkflow(ctx, opts, c.Hello, in)".toList =
    some "Hello" := by decide

/-! ## What is expected -/

/-- The context that the implementation of a method of a role runs in. -/
def contextIdent (sdk : Sdk) : Role → Ident
  | .workflow => sdk.workflow.ident "Context"
  | .activity => sdk.context.ident "Context"

/-- The line of a method in an interface. -/
def memberLine (t : Imports) (sdk : Sdk) (m : Method) : List Char :=
  ("\t" ++ m.name ++ "(ctx " ++ t.spelling (contextIdent sdk m.role) ++ ", in *" ++
    t.spelling m.input ++ ") (*" ++ t.spelling m.output ++ ", error)").toList

/-- The line that registers a method. -/
def registrationLine (m : Method) : List Char :=
  ("\tw." ++ (match m.role with
    | .workflow => "RegisterWorkflow"
    | .activity => "RegisterActivity") ++ "(" ++ m.name ++ ")").toList

/-- The words that the names of the helpers for a method of a role begin with, and whether a
helper waits for the output. -/
def helperWords : Role → List (String × Bool)
  | .workflow =>
    [("StartWorkflow", false), ("ExecuteWorkflow", true), ("StartChildWorkflow", false),
      ("ExecuteChildWorkflow", true)]
  | .activity =>
    [("StartActivity", false), ("ExecuteActivity", true), ("StartLocalActivity", false),
      ("ExecuteLocalActivity", true)]

/-- A helper of a kind for a method: it takes the input of the method and passes it on to the
method once. If it waits for the output, that is of the type of the method's output. -/
structure IsHelper (t : Imports) (s : Service) (m : Method) (kind : String × Bool) (b : Block) :
    Prop where
  name : introduced? b.head = some (kind.1 ++ s.name ++ m.name)
  head : ∃ context result, b.head =
      ("func (c *" ++ s.structName ++ ") " ++ (kind.1 ++ s.name ++ m.name) ++ "(ctx " ++ context ++
        ", in *" ++ t.spelling m.input ++ ") " ++ result ++ " \x7b").toList ∧ IsWord context ∧
      (kind.2 = true → result = "(*" ++ t.spelling m.output ++ ", error)")
  passes : b.inside.filterMap passed? = [m.name]
  output : b.inside.filterMap output? = if kind.2 then [t.spelling m.output] else []

/-- The helpers for a method: one of each kind, in order, and none of a kind for methods of
another role. -/
structure AreHelpers (t : Imports) (s : Service) (m : Method) (bs : List Block) : Prop where
  kinds : List.Forall₂ (IsHelper t s m) (helperWords m.role) bs
  noOther : ∀ role ≠ m.role, ∀ kind ∈ helperWords role, ∀ b ∈ bs,
    introduced? b.head ≠ some (kind.1 ++ s.name ++ m.name)

/-- The bootstrap of a service: all that it does to the worker before it is run is to register
the methods, in order. -/
structure IsBootstrap (s : Service) (b : Block) : Prop where
  name : introduced? b.head = some ("StartWorker" ++ s.name)
  registers : b.inside.filter callsWorker = s.methods.map registrationLine

/-- Whether the declarations of a service agree on the roles of its methods. There is a
bootstrap iff the service has a worker with a task queue. -/
def Service.RolesAgree (t : Imports) (sdk : Sdk) (s : Service) (bs : List Block) : Prop :=
  ∃ (bootstraps : List Block) (interface struct constructor : Block) (helpers : List (List Block)),
    bs = bootstraps ++ [interface, struct, constructor] ++ helpers.flatten ∧
      (∀ w, s.worker = some w → w.taskQueue ≠ "" → ∃ b, bootstraps = [b] ∧ IsBootstrap s b) ∧
      ((∀ w, s.worker = some w → w.taskQueue = "") → bootstraps = []) ∧
      introduced? interface.head = some s.interfaceName ∧
      interface.inside = s.methods.map (memberLine t sdk) ∧
      introduced? struct.head = some s.structName ∧
      introduced? constructor.head = some s.constructorName ∧
      List.Forall₂ (AreHelpers t s) s.methods helpers

/-- Whether a generated file agrees on the roles of all methods. The text behind the imports is
read as code, and its blocks are those of the services, in order. -/
def File.RolesAgree (f : File) (sdk : Sdk) (compiler : String) : Prop :=
  ∃ body groups, textLines (f.source sdk compiler).content =
      (indent 0 (f.source sdk compiler).preamble).flatMap textLines ++
        (f.source sdk compiler).importBlock.flatMap textLines ++ body ∧
    blocks (codeBehind .code body) = groups.flatten ∧
    List.Forall₂ (Service.RolesAgree (f.imports sdk) sdk) f.services groups

/-! ## Calls -/

theorem afterLast_append_cons {sep : Char} {after : List Char} (h : sep ∉ after)
    (before : List Char) : afterLast sep (before ++ sep :: after) = after := by
  have hall : ∀ c ∈ after.reverse, decide (c ≠ sep) = true := fun c hc => by
    simpa using fun hcs : c = sep => h (hcs ▸ List.mem_reverse.1 hc)
  have hreverse : (before ++ sep :: after).reverse = after.reverse ++ sep :: before.reverse := by
    simp
  rw [afterLast, hreverse, List.takeWhile_append_of_pos hall]
  simp

/-- A call is read wherever it stands in a line. -/
theorem passed?_call {before front : List Char} (after : List Char) {name : String} (hbefore : '(' ∉ before)
    (hfront : ')' ∉ front) (hname : IsWord name) :
    passed? (before ++ '(' :: (front ++ " c.".toList ++ name.toList ++ ", in".toList ++
      ')' :: after)) = some name := by
  have hparen : ')' ∉ name.toList := fun h => absurd (hname.2 _ h) (by decide)
  have hblank : ' ' ∉ "c.".toList ++ name.toList := fun h => by
    obtain h | h := List.mem_append.1 h
    · exact absurd h (by decide)
    · exact absurd (hname.2 _ h) (by decide)
  have hopen (rest : List Char) : cut? '(' (before ++ '(' :: rest) = some (before, rest) :=
    cut?_eq_some_iff.2 ⟨rfl, hbefore⟩
  have hclose : cut? ')' (front ++ " c.".toList ++ name.toList ++ ", in".toList ++ ')' :: after) =
      some (front ++ " c.".toList ++ name.toList ++ ", in".toList, after) :=
    cut?_eq_some_iff.2 ⟨rfl, by simp [hfront, hparen]⟩
  have hothers : stripEnd? ", in".toList (front ++ " c.".toList ++ name.toList ++ ", in".toList) =
      some (front ++ " c.".toList ++ name.toList) :=
    stripEnd?_eq_some_iff.2 rfl
  have hlast : afterLast ' ' (front ++ " c.".toList ++ name.toList) = "c.".toList ++ name.toList := by
    rw [← afterLast_append_cons hblank front]
    simp
  have hmethod : stripStart? "c.".toList ("c.".toList ++ name.toList) = some name.toList :=
    stripStart?_eq_some_iff.2 rfl
  simp only [passed?, hopen, hclose, hothers, hlast, hmethod, Option.bind_eq_bind, Option.bind_some,
    String.ofList_toList]

/-- A line without a parenthesis calls nothing. -/
theorem passed?_of_notMem {l : List Char} (h : '(' ∉ l) : passed? l = none := by
  rw [passed?, cut?_eq_none_iff.2 h]
  rfl

/-- A call whose arguments end with something else than the input passes nothing on. -/
theorem passed?_of_last {before arguments : List Char} (after : List Char) {c : Char} (hbefore : '(' ∉ before)
    (harguments : ')' ∉ arguments) (hc : c ≠ 'n' ∧ c ≠ ')') :
    passed? (before ++ '(' :: (arguments ++ [c] ++ ')' :: after)) = none := by
  have hopen (rest : List Char) : cut? '(' (before ++ '(' :: rest) = some (before, rest) :=
    cut?_eq_some_iff.2 ⟨rfl, hbefore⟩
  have hclose : cut? ')' (arguments ++ [c] ++ ')' :: after) = some (arguments ++ [c], after) :=
    cut?_eq_some_iff.2 ⟨rfl, by simp [harguments, hc.2.symm]⟩
  have hothers : stripEnd? ", in".toList (arguments ++ [c]) = none := by
    simp [stripEnd?, stripStart?, hc.1.symm]
  simp only [passed?, hopen, hclose, hothers, Option.bind_eq_bind, Option.bind_some,
    Option.bind_none]

/-! ## Helpers -/

/-- Words have no parentheses. -/
theorem paren_notMem {name : String} (h : IsWord name) : '(' ∉ name.toList ∧ ')' ∉ name.toList :=
  ⟨fun hmem => absurd (h.2 _ hmem) (by decide), fun hmem => absurd (h.2 _ hmem) (by decide)⟩

/-- The line that puts the options of a helper into effect passes nothing on. -/
theorem Target.exists_configure (ht : t.HasWords) (sdk : Sdk) (target : Target) :
    ∃ l, Prints t 1 (target.configure sdk).items [l] ∧ passed? l = none ∧ output? l = none := by
  have hfields := (target.options_spec sdk).1
  have htype := target.isWord_type ht sdk
  have hwith {function : String} (h : IsWord function) :
      ∃ l, Prints t 1 (configure.inContext sdk target function).items [l] ∧
        passed? l = none ∧ output? l = none := by
    have hfunction := isWord_spelling_ident ht sdk.workflow _ h
    refine ⟨_, Literal.prints_of_nil hfields (isFlatLine_inContext ht target h), ?_, ?_⟩
    · have hbefore : '(' ∉ "\tctx = ".toList ++
          (t.spelling (sdk.workflow.ident function)).toList := by
        simp [paren_notMem hfunction]
      have harguments : ')' ∉ "ctx, ".toList ++ (t.spelling (target.options sdk).type).toList ++
          ['{'] := by
        simp [paren_notMem htype]
      have hread := passed?_of_last [] hbefore harguments (show '}' ≠ 'n' ∧ '}' ≠ ')' by decide)
      simpa [tabbed, defining] using hread
    · simp [output?, tabbed, defining, stripStart?]
  cases target with
  | workflow =>
    refine ⟨_, Literal.prints_of_nil hfields (isFlatLine_define ht _), passed?_of_notMem ?_, ?_⟩
    · simp [tabbed, defining, paren_notMem htype]
    · simp [output?, tabbed, defining, stripStart?]
  | childWorkflow => exact hwith (by decide)
  | activity => exact hwith (by decide)
  | localActivity => exact hwith (by decide)

/-- A call passes the method on, and the input behind it. -/
theorem Verb.exists_invocation (ht : t.HasWords) (sdk : Sdk) (m : Method) (v : Verb) :
    ∃ before front, (t.codeText (v.invocation sdk m)).toList =
        before ++ '(' :: (front ++ " c.".toList ++ m.name.toList ++ ", in".toList ++ [')']) ∧
      '(' ∉ before ∧ ')' ∉ front := by
  have hfunction := isWord_spelling_ident ht sdk.workflow _ v.isName_function.isWord
  unfold Verb.invocation
  split
  · exact ⟨"c.t.ExecuteWorkflow".toList, "ctx, opts,".toList, by simp, by decide, by decide⟩
  · exact ⟨(t.spelling (sdk.workflow.ident v.function)).toList, "ctx,".toList, by simp,
      (paren_notMem hfunction).1, by decide⟩

/-- A line with the call in it passes the method on, whatever stands around the call. -/
theorem Verb.passed?_invocation (ht : t.HasWords) (hm : m.WellNamed) (v : Verb) {start : List Char}
    (hstart : '(' ∉ start) (rest : List Char) :
    passed? (start ++ (t.codeText (v.invocation sdk m)).toList ++ rest) = some m.name := by
  obtain ⟨before, front, hcall, hbefore, hfront⟩ := v.exists_invocation ht sdk m
  have hread := passed?_call rest (List.not_mem_append hstart hbefore) hfront hm.1.isWord
  rw [← hread, hcall]
  simp

/-- A line that begins with another word declares nothing. -/
theorem output?_of_head {start : String} (hstart : StartsPlain start)
    (hhead : start.toList.head? ≠ some 'v') (rest : List Char) :
    output? ('\t' :: start.toList ++ rest) = none := by
  cases hs : start.toList with
  | nil => simp [StartsPlain, hs] at hstart
  | cons c cs =>
    have hc : 'v' ≠ c := fun hc => hhead (by rw [hs, List.head?_cons, hc])
    simp [output?, stripStart?, hc]

/-- A line with the call of a helper. -/
theorem Verb.exists_prints_invocation (ht : t.HasWords) (hm : m.WellNamed) (sdk : Sdk) (v : Verb)
    (names : List String) (value : Code) (start : String) (after : Code)
    (hcode : defining names ++ value = .text start :: (v.invocation sdk m ++ after))
    (hstart : StartsPlain start ∧ ∀ o, openAfter? o start = some o)
    (hhead : '(' ∉ start.toList ∧ start.toList.head? ≠ some 'v')
    (hafter : t.IsSound after ∧ (after = [] ∨ t.Ends after)) :
    ∃ l, Prints t 1 (Stmt.code names value).items [l] ∧ passed? l = some m.name ∧
      output? l = none := by
  have hprints := Stmt.prints_code (t := t) names value
    (hcode ▸ v.isFlatLine_invocation ht hm hstart hafter)
  have hread : passed? ('\t' :: start.toList ++ (t.codeText (v.invocation sdk m)).toList ++
      (t.codeText after).toList) = some m.name :=
    v.passed?_invocation ht hm (by simp [hhead.1]) _
  rw [List.append_assoc] at hread
  refine ⟨_, ?_, hread, output?_of_head hstart.1 hhead.2 _⟩
  rw [hcode] at hprints
  simpa using hprints

/-- The line that declares the variable for the output. -/
theorem Method.prints_declare_out (ht : t.HasWords) (hm : m.WellNamed) :
    ∃ l, Prints t 1 (Stmt.declare "out" ["*", m.output]).items [l] ∧ passed? l = none ∧
      output? l = some (t.spelling m.output) := by
  have houtput := ht.spelling hm.2.2.1.isWord
  have hprints : Prints t 1 _ _ := Prints.flat (Method.isFlatLine_declare_out ht hm)
  refine ⟨"\tvar out *".toList ++ (t.spelling m.output).toList, ?_, passed?_of_notMem ?_, ?_⟩
  · rw [Stmt.items]
    simpa [tabbed] using hprints
  · simp [paren_notMem houtput]
  · rw [output?, stripStart?_eq_some_iff.2 rfl]
    simp

/-- The line that returns the output. -/
theorem prints_return_out :
    Prints t 1 (Stmt.code [] ["return ", .name "out", ", ", .name "err"]).items
      ["\treturn out, err".toList] := by
  have hprints := Stmt.prints_code (t := t) [] ["return ", .name "out", ", ", .name "err"]
    (isFlatLine_return (by decide))
  simpa [defining] using hprints

/-- The lines that return if a workflow could not be started. -/
theorem prints_return_nil :
    Prints t 1 (Stmt.branch none [.name "err", " != ", .name "nil"]
        [["return ", .name "nil", ", ", .name "err"]]).items
      ["\tif err != nil \x7b".toList, "\t\treturn nil, err".toList, "\t\x7d".toList] := by
  have hprints := Stmt.prints_branch (t := t) none [.name "err", " != ", .name "nil"]
    [["return ", .name "nil", ", ", .name "err"]] isSound_ifErr
    (List.forall_mem_singleton.2 (isFlatLine_return (by decide)))
  simpa [branchStart, tabbed] using hprints

/-- The line that waits for a workflow. -/
theorem prints_get :
    Prints t 1 (Stmt.code []
        [.name "err", " = ", .name "run", ".Get(", .name "ctx", ", &", .name "out", ")"]).items
      ["\terr = run.Get(ctx, &out)".toList] := by
  have hprints := Stmt.prints_code (t := t) []
    [.name "err", " = ", .name "run", ".Get(", .name "ctx", ", &", .name "out", ")"] isFlatLine_get
  simpa [defining] using hprints

/-- Nothing is read from the lines of a helper without a call and without a declaration. -/
theorem silent_lines : ∀ l ∈ ["\tif err != nil \x7b", "\t\treturn nil, err", "\t\x7d",
    "\terr = run.Get(ctx, &out)", "\treturn out, err"],
    passed? l.toList = none ∧ output? l.toList = none := by
  decide

/-- What is behind the options of a helper passes the method on once, and declares a variable
for the output if it waits for that. -/
theorem Verb.exists_call (sdk : Sdk) (ht : t.HasWords) (hm : m.WellNamed) (v : Verb) :
    ∃ out, Prints t 1 ((v.call sdk m).flatMap Stmt.items) out ∧
      out.filterMap passed? = [m.name] ∧
      out.filterMap output? = if v.mode = .execute then [t.spelling m.output] else [] := by
  obtain ⟨d, hdeclare, hdeclarePassed, hdeclareOutput⟩ := Method.prints_declare_out ht hm
  have hsilent := silent_lines
  simp only [List.forall_mem_cons] at hsilent
  obtain ⟨hif, hnil, hbrace, hget, hreturn, -⟩ := hsilent
  unfold call
  split
  · next hmode =>
    obtain ⟨l, hcall, hpassed, houtput⟩ := v.exists_prints_invocation ht hm sdk []
      ("return " :: v.invocation sdk m) "return " [] (by rw [List.append_nil]; rfl)
      ⟨by decide, fun _ => rfl⟩ (by decide) ⟨Imports.isSound_nil, .inl rfl⟩
    refine ⟨_, hcall.append .nil, ?_, ?_⟩
    · simp [hpassed]
    · simp [houtput, hmode]
  · next hmode htarget =>
    obtain ⟨l, hcall, hpassed, houtput⟩ := v.exists_prints_invocation ht hm sdk ["run", "err"]
      (v.invocation sdk m) "run, err := " [] (by rw [List.append_nil]; rfl)
      ⟨by decide, fun _ => rfl⟩ (by decide) ⟨Imports.isSound_nil, .inl rfl⟩
    refine ⟨_, hcall.append (prints_return_nil.append (hdeclare.append (prints_get.append
      (prints_return_out.append .nil)))), ?_, ?_⟩
    · simp only [List.filterMap_append, List.filterMap_cons, List.filterMap_nil, hpassed,
        hdeclarePassed, hif, hnil, hbrace, hget, hreturn]
      rfl
    · simp only [List.filterMap_append, List.filterMap_cons, List.filterMap_nil, houtput,
        hdeclareOutput, hif, hnil, hbrace, hget, hreturn, hmode]
      rfl
  · next hmode htarget =>
    obtain ⟨l, hcall, hpassed, houtput⟩ := v.exists_prints_invocation ht hm sdk ["err"]
      (v.invocation sdk m ++ ([".Get(", .name "ctx", ", &", .name "out", ")"] : Code)) "err := "
      [".Get(", .name "ctx", ", &", .name "out", ")"] rfl ⟨by decide, fun _ => rfl⟩ (by decide)
      ⟨isSound_getOut.1, .inr isSound_getOut.2⟩
    refine ⟨_, hdeclare.append (hcall.append (prints_return_out.append .nil)), ?_, ?_⟩
    · simp only [List.filterMap_append, List.filterMap_cons, List.filterMap_nil, hpassed,
        hdeclarePassed, hreturn]
      rfl
    · simp only [List.filterMap_append, List.filterMap_cons, List.filterMap_nil, houtput,
        hdeclareOutput, hreturn, hmode]
      rfl

/-! ## Declarations -/

/-- A declaration of a service is printed as a block that introduces its name. -/
theorem Service.exists_block (ht : t.HasWords) (hs : s.WellNamed) {d : Decl} (hd : d ∈ s.decls sdk)
    {inside : List (List Char)} (hinside : Prints t 1 d.inside inside) :
    ∃ b : Block, PrintsBlocks t d.items [b] ∧ introduced? b.head = some d.name ∧
      b.head = (t.codeText d.head).toList ∧ b.inside = inside := by
  have hlaid := Service.isLaid_of_mem_decls ht hs hd
  have hname : introduced? (t.codeText d.head).toList = some d.name := by
    have hread := Service.introduces_of_mem_decls (t := t) hs hd []
    rwa [List.append_nil] at hread
  have hprints := Source.prints_decl hlaid.head hinside
  refine ⟨⟨(t.codeText d.head).toList, inside⟩,
    ⟨?_, List.forall_mem_singleton.2 ⟨by rw [hname]; rfl, hinside.tabs⟩⟩, hname, rfl, rfl⟩
  rwa [List.flatMap_singleton]

/-- The text of the signature of a method. -/
theorem codeText_signature (t : Imports) (m : Method) (name : String) (context : Package)
    {result : Code} (h : result ≠ []) :
    t.codeText (Signature.code ⟨name, m.params context, result⟩) =
      name ++ "(ctx " ++ t.spelling (context.ident "Context") ++ ", in *" ++ t.spelling m.input ++
        ") " ++ t.codeText result := by
  have hresult : Signature.code ⟨name, m.params context, result⟩ =
      [Piece.text name, "("] ++
          List.intercalate [Piece.text ", "] ((m.params context).map Param.code) ++
        [Piece.text ")"] ++ (.text " " :: result) := by
    cases result with
    | nil => exact absurd rfl h
    | cons p result => rfl
  rw [hresult]
  simp [Method.params, Param.code, List.intercalate, List.intersperse, ← String.toList_inj]

/-- The line of a method in an interface, as it is printed. -/
theorem Method.tabbed_member (t : Imports) (sdk : Sdk) (m : Method) :
    tabbed 1 (t.codeText (m.member sdk).signature.code) = memberLine t sdk m := by
  have hcontext : t.spelling ((m.role.contextPackage sdk).ident "Context") =
      t.spelling (contextIdent sdk m.role) := by
    cases m.role <;> rfl
  have htext : t.codeText (m.member sdk).signature.code = m.name ++ "(ctx " ++
      t.spelling (contextIdent sdk m.role) ++ ", in *" ++ t.spelling m.input ++ ") " ++
        t.codeText m.result := by
    rw [← hcontext]
    exact codeText_signature t m m.name _ (by simp [Method.result])
  simp [tabbed, htext, memberLine, Method.result]

theorem Service.mem_decls_of_mem_client {d : Decl} (h : d ∈ s.client sdk) : d ∈ s.decls sdk :=
  List.mem_append_right _ h

/-- A helper is printed as one of its kind. -/
theorem Service.exists_helper (ht : t.HasWords) (hs : s.WellNamed) (sdk : Sdk) (hm : m ∈ s.methods)
    {v : Verb} (hv : v ∈ m.role.verbs) :
    ∃ b, PrintsBlocks t (s.helper sdk m v).items [b] ∧
      IsHelper t s m (v.name, decide (v.mode = .execute)) b := by
  have hmember : s.helper sdk m v ∈ s.decls sdk := mem_decls_of_mem_client <|
    List.mem_append_right _ (List.mem_flatMap.2 ⟨m, hm, List.mem_map_of_mem hv⟩)
  obtain ⟨l, hconfigure, hpassed, houtput⟩ := v.target.exists_configure ht sdk
  obtain ⟨out, hcall, hpasses, houtputs⟩ := v.exists_call sdk ht (hs.2 m hm)
  have hinside : Prints t 1 (s.helper sdk m v).inside ([l] ++ out) := by
    have hprints := hconfigure.append hcall
    rwa [← List.flatMap_cons] at hprints
  obtain ⟨b, hprints, hname, hhead, hlines⟩ := Service.exists_block ht hs hmember hinside
  refine ⟨b, hprints, hname, ?_, ?_, ?_⟩
  · have hresult : v.result sdk m ≠ [] := by
      unfold Verb.result
      split <;> simp [Method.result]
    have hcontext := isWord_spelling_ident ht (v.target.contextPackage sdk) "Context" (by decide)
    refine ⟨_, t.codeText (v.result sdk m), ?_, hcontext, fun hmode => ?_⟩
    · rw [hhead]
      have hsignature := codeText_signature t m (v.helperName s.name m.name)
        (v.target.contextPackage sdk) hresult
      have hcode : (s.helper sdk m v).head = Piece.text "func " :: (receiverCode (some ⟨"c",
          ["*", s.structName]⟩) ++ Signature.code ⟨v.helperName s.name m.name,
            m.params (v.target.contextPackage sdk), v.result sdk m⟩ ++ [Piece.text " \x7b"]) := rfl
      rw [hcode, Imports.codeText_cons, Imports.codeText_append, Imports.codeText_append, hsignature]
      simp [receiverCode, Param.code, Verb.helperName]
    · obtain ⟨mode, target⟩ := v
      obtain rfl : mode = .execute := by simpa using hmode
      simp [Verb.result, Method.result, ← String.toList_inj]
  · simp [hlines, hpassed, hpasses]
  · simp [hlines, houtput, houtputs]

/-- The interface is printed with a line for each method, in order. -/
theorem Service.exists_interface (ht : t.HasWords) (hs : s.WellNamed) (sdk : Sdk) :
    ∃ b : Block, PrintsBlocks t (s.interface sdk).items [b] ∧
      introduced? b.head = some s.interfaceName ∧
      b.inside = s.methods.map (memberLine t sdk) := by
  have hmember : s.interface sdk ∈ s.decls sdk := mem_decls_of_mem_client (by simp [client])
  have hinside : Prints t 1 (s.interface sdk).inside (s.methods.map (memberLine t sdk)) := by
    rw [interface, Decl.inside, List.flatMap_map]
    refine Prints.map fun m hm => ?_
    have hm := hs.2 m hm
    have hprints : Prints t 1 [line (m.member sdk).signature.code] _ :=
      Prints.flat (Method.isFlatLine_member ht hm)
    rw [Method.tabbed_member] at hprints
    exact (Prints.doc _).append (hprints.remarked _)
  obtain ⟨b, hprints, hname, -, hlines⟩ := Service.exists_block ht hs hmember hinside
  exact ⟨b, hprints, hname, hlines⟩

theorem Service.exists_struct (ht : t.HasWords) (hs : s.WellNamed) (sdk : Sdk) :
    ∃ b : Block, PrintsBlocks t (s.struct sdk).items [b] ∧
      introduced? b.head = some s.structName := by
  have hmember : s.struct sdk ∈ s.decls sdk := mem_decls_of_mem_client (by simp [client])
  have hinside : Prints t 1 (s.struct sdk).inside _ := Prints.flat (Sdk.isFlatLine_field ht)
  obtain ⟨b, hprints, hname, -⟩ := Service.exists_block ht hs hmember hinside
  exact ⟨b, hprints, hname⟩

theorem Service.exists_constructor (ht : t.HasWords) (hs : s.WellNamed) (sdk : Sdk) :
    ∃ b : Block, PrintsBlocks t (s.constructor sdk).items [b] ∧
      introduced? b.head = some s.constructorName := by
  have hmember : s.constructor sdk ∈ s.decls sdk := mem_decls_of_mem_client (by simp [client])
  have hinside : Prints t 1 (s.constructor sdk).inside _ :=
    Stmt.prints_code [] _ (Service.isFlatLine_client hs)
  obtain ⟨b, hprints, hname, -⟩ := Service.exists_block ht hs hmember hinside
  exact ⟨b, hprints, hname⟩

/-! ## Bootstraps -/

/-- A method is registered on a line of its own. -/
theorem Method.prints_registration (hm : m.WellNamed) :
    Prints t 1 m.registration.items [registrationLine m] ∧
      callsWorker (registrationLine m) = true := by
  constructor
  · unfold Method.registration
    split
    · next hrole =>
      have hprints := Stmt.prints_code (t := t) [] [.name "w", ".RegisterWorkflow(", m.name, ")"]
        (Method.isFlatLine_register hm fun _ => rfl)
      simpa [registrationLine, hrole, defining] using hprints
    · next hrole =>
      have hprints := Stmt.prints_code (t := t) [] [.name "w", ".RegisterActivity(", m.name, ")"]
        (Method.isFlatLine_register hm fun _ => rfl)
      simpa [registrationLine, hrole, defining] using hprints
  · simp [registrationLine, callsWorker, stripStart?]

/-- The statements that make the worker do nothing to it. -/
theorem exists_preparation (ht : t.HasWords) (sdk : Sdk) (worker : WorkerConfig) :
    ∃ out, Prints t 1 ((Stmt.code ["taskQueue"] [quote worker.taskQueue]).items ++
        ((Stmt.literal ["opts"] [] (optionsLiteral sdk worker.options) "").items ++
          (Stmt.code ["w"] [sdk.worker.ident "New", "(", .name "c", ", ", .name "taskQueue", ", ",
            .name "opts", ")"]).items)) out ∧
      ∀ l ∈ out, callsWorker l = false := by
  have hqueue := Stmt.prints_code (t := t) ["taskQueue"] [quote worker.taskQueue]
    (Service.isFlatLine_taskQueue _)
  have hworker := Stmt.prints_code (t := t) ["w"]
    [sdk.worker.ident "New", "(", .name "c", ", ", .name "taskQueue", ", ", .name "opts", ")"]
    (Sdk.isFlatLine_new ht)
  obtain ⟨rest, inside, hliteral, hdeeper⟩ := Literal.exists_prints (t := t)
    (l := optionsLiteral sdk worker.options) (defining ["opts"] ++ []) (isSound_options ht _)
    (by simp +decide [defining]) (isSound_of_mem_optionsLiteral ht _)
  refine ⟨_, hqueue.append (hliteral.append hworker), fun l hl => ?_⟩
  simp only [List.mem_append, List.mem_cons, List.not_mem_nil, or_false] at hl
  obtain rfl | (rfl | hl) | rfl := hl
  · simp [callsWorker, defining, stripStart?]
  · simp [callsWorker, defining, stripStart?]
  · obtain ⟨rest, rfl⟩ | ⟨rest, rfl⟩ := hdeeper l hl <;> simp [callsWorker, stripStart?]
  · simp [callsWorker, defining, stripStart?]

/-- The worker is run in a branch. -/
theorem exists_run (ht : t.HasWords) (sdk : Sdk) :
    ∃ out, Prints t 1 (Stmt.branch
        (some ("err", [.name "w", ".Run(", sdk.worker.ident "InterruptCh", "())"]))
        [.name "err", " != ", .name "nil"]
        [[sdk.log.ident "Fatalln", "(\"Failed to start Temporal worker:\", ", .name "err",
          ")"]]).items out ∧
      ∀ l ∈ out, callsWorker l = false := by
  have hprints := Stmt.prints_branch (t := t)
    (some ("err", [.name "w", ".Run(", sdk.worker.ident "InterruptCh", "())"]))
    [.name "err", " != ", .name "nil"]
    [[sdk.log.ident "Fatalln", "(\"Failed to start Temporal worker:\", ", .name "err", ")"]]
    (Sdk.isSound_run ht) (List.forall_mem_singleton.2 (Sdk.isFlatLine_fatal ht))
  refine ⟨_, hprints, fun l hl => ?_⟩
  simp only [List.map_singleton, List.mem_append, List.mem_singleton] at hl
  obtain (rfl | rfl) | rfl := hl
  · simp [callsWorker, stripStart?]
  · simp [callsWorker, tabbed, stripStart?]
  · decide

/-- A bootstrap registers the methods, and nothing else is done to the worker. -/
theorem Service.exists_bootstrap (ht : t.HasWords) (hs : s.WellNamed) (sdk : Sdk)
    {worker : WorkerConfig} (hworker : s.startedWorker = some worker) :
    ∃ b : Block, PrintsBlocks t ((s.bootstrap sdk).flatMap Decl.items) [b] ∧ IsBootstrap s b := by
  obtain ⟨d, hd, hbootstrap⟩ : ∃ d, d ∈ s.bootstrap sdk ∧ s.bootstrap sdk = [d] ∧
      d.name = "StartWorker" ++ s.name ∧
        d.inside = (s.bootstrapBody sdk worker).flatMap Stmt.items := by
    rw [bootstrap, hworker]
    exact ⟨_, List.mem_singleton_self _, rfl, rfl, rfl⟩
  obtain ⟨hdecls, hname, hbody⟩ := hbootstrap
  obtain ⟨before, hbefore, hbeforeSilent⟩ := exists_preparation ht sdk worker
  obtain ⟨after, hafter, hafterSilent⟩ := exists_run (t := t) ht sdk
  have hregistrations : Prints t 1 ((s.methods.map Method.registration).flatMap Stmt.items)
      (s.methods.map registrationLine) := by
    rw [List.flatMap_map]
    exact Prints.map fun m hm => (Method.prints_registration (hs.2 m hm)).1
  have hinside : Prints t 1 d.inside (before ++ s.methods.map registrationLine ++ after) := by
    have hprints := (hbefore.append Prints.blank).append
      (hregistrations.append (Prints.blank.append hafter))
    have hblank : [Item.blank] = Stmt.blank.items := rfl
    rw [hbody, bootstrapBody, List.flatMap_append, List.flatMap_append]
    simpa [hblank] using hprints
  obtain ⟨b, hprints, hintroduced, -, hlines⟩ :=
    Service.exists_block ht hs (List.mem_append_left _ hd) hinside
  refine ⟨b, by rw [hdecls, List.flatMap_singleton]; exact hprints, ?_, ?_⟩
  · rw [hintroduced, hname]
  · have hregisters : (s.methods.map registrationLine).filter callsWorker =
        s.methods.map registrationLine :=
      List.filter_eq_self.2 <| List.forall_mem_map.2 fun m hm =>
        (Method.prints_registration (t := t) (hs.2 m hm)).2
    have hsilent {ls : List (List Char)} (h : ∀ l ∈ ls, callsWorker l = false) :
        ls.filter callsWorker = [] :=
      List.filter_eq_nil_iff.2 fun l hl => by simp [h l hl]
    rw [hlines, List.filter_append, List.filter_append, hsilent hbeforeSilent, hsilent hafterSilent,
      hregisters, List.nil_append, List.append_nil]

/-- There is a bootstrap iff the service has a worker with a task queue. -/
theorem Service.exists_bootstraps (ht : t.HasWords) (hs : s.WellNamed) (sdk : Sdk) :
    ∃ bs : List Block, PrintsBlocks t ((s.bootstrap sdk).flatMap Decl.items) bs ∧
      (∀ w, s.worker = some w → w.taskQueue ≠ "" → ∃ b, bs = [b] ∧ IsBootstrap s b) ∧
      ((∀ w, s.worker = some w → w.taskQueue = "") → bs = []) := by
  cases hworker : s.startedWorker with
  | none =>
    refine ⟨[], by rw [bootstrap, hworker]; exact .nil, fun w hw hqueue => ?_, fun _ => rfl⟩
    simp [startedWorker, hw, hqueue] at hworker
  | some worker =>
    obtain ⟨b, hb, hregisters⟩ := Service.exists_bootstrap ht hs sdk hworker
    obtain ⟨hw, hqueue⟩ := Option.filter_eq_some_iff.1 hworker
    refine ⟨[b], hb, fun _ _ _ => ⟨b, rfl, hregisters⟩, fun hnone => ?_⟩
    simp [hnone worker hw] at hqueue

/-! ## Services -/

theorem exists_forall₂ {α β : Type} {R : α → β → Prop} {xs : List α}
    (h : ∀ x ∈ xs, ∃ y, R x y) : ∃ ys, List.Forall₂ R xs ys := by
  induction xs with
  | nil => exact ⟨[], .nil⟩
  | cons x xs ih =>
    obtain ⟨⟨y, hy⟩, hxs⟩ := List.forall_mem_cons.1 h
    obtain ⟨ys, hys⟩ := ih hxs
    exact ⟨y :: ys, .cons hy hys⟩

/-- The words of a role are those of its verbs. -/
theorem helperWords_eq (role : Role) :
    helperWords role = role.verbs.map fun v => (v.name, decide (v.mode = .execute)) := by
  cases role <;> rfl

/-- No word belongs to both roles. -/
theorem helperWords_disjoint {role role' : Role} (hne : role ≠ role') :
    ∀ kind ∈ helperWords role, ∀ kind' ∈ helperWords role', kind.1 ≠ kind'.1 := by
  cases role <;> cases role' <;> first | exact absurd rfl hne | decide

/-- The helpers for a method are printed together, in order. -/
theorem Service.exists_helpers (ht : t.HasWords) (hs : s.WellNamed) (sdk : Sdk)
    (hm : m ∈ s.methods) :
    ∃ bs, PrintsBlocks t ((m.role.verbs.map (s.helper sdk m)).flatMap Decl.items) bs ∧
      AreHelpers t s m bs := by
  obtain ⟨bs, hbs⟩ := exists_forall₂ fun v hv => Service.exists_helper ht hs sdk hm (v := v) hv
  have hkinds : List.Forall₂ (IsHelper t s m) (helperWords m.role) bs := by
    rw [helperWords_eq, List.forall₂_map_left_iff]
    exact hbs.imp fun _ _ h => h.2
  refine ⟨bs, ?_, hkinds, fun role hrole kind hkind b hb hname => ?_⟩
  · have hgroups : PrintsBlocks t _ (bs.map fun b => [b]).flatten :=
      PrintsBlocks.flatMap (List.forall₂_map_right_iff.2 (hbs.imp fun _ _ h => h.1))
    rw [List.flatMap_map]
    simpa [← List.flatMap_def] using hgroups
  · obtain ⟨i, hi, rfl⟩ := List.getElem_of_mem hb
    have hi' := hkinds.length_eq ▸ hi
    have hown := (hkinds.get hi' hi).name
    have hsame := Option.some.inj (hname.symm.trans hown)
    rw [String.append_left_inj, String.append_left_inj] at hsame
    exact helperWords_disjoint hrole kind hkind _ (List.get_mem _ _) hsame

/-- The declarations of a service are printed as blocks that agree on the roles of its methods. -/
theorem Service.exists_blocks (ht : t.HasWords) (hs : s.WellNamed) (sdk : Sdk) :
    ∃ bs, PrintsBlocks t ((s.decls sdk).flatMap Decl.items) bs ∧ s.RolesAgree t sdk bs := by
  obtain ⟨bootstraps, hbootstraps, hstarted, hnone⟩ := Service.exists_bootstraps ht hs sdk
  obtain ⟨interface, hinterface, hname, hlisted⟩ := Service.exists_interface ht hs sdk
  obtain ⟨struct, hstruct, hstructName⟩ := Service.exists_struct ht hs sdk
  obtain ⟨constructor, hconstructor, hconstructorName⟩ := Service.exists_constructor ht hs sdk
  obtain ⟨helpers, hhelpers⟩ := exists_forall₂ fun m hm => Service.exists_helpers ht hs sdk (m := m) hm
  have hprints := (hbootstraps.append (hinterface.append (hstruct.append hconstructor))).append
    (PrintsBlocks.flatMap (hhelpers.imp fun _ _ h => h.1))
  refine ⟨bootstraps ++ [interface, struct, constructor] ++ helpers.flatten, ?_,
    bootstraps, interface, struct, constructor, helpers, rfl, hstarted, hnone, hname, hlisted,
    hstructName, hconstructorName, hhelpers.imp fun _ _ h => h.2⟩
  simpa [decls, client, List.flatMap_assoc] using hprints

/-! ## Files -/

/-- All that is generated for a method agrees on its role, whatever services and methods a file
has and whatever roles these have. -/
theorem File.rolesAgree {f : File} {sdk : Sdk} (hf : f.WellNamed) (hsdk : sdk.WellNamed)
    (compiler : String) : f.RolesAgree sdk compiler := by
  have ht := File.hasWords_imports hf hsdk
  obtain ⟨groups, hgroups⟩ := exists_forall₂ fun s hs =>
    Service.exists_blocks ht (hf.2 s hs) sdk
  have hprints := PrintsBlocks.flatMap (hgroups.imp fun _ _ h => h.1)
  obtain ⟨hcode, hclosed⟩ := File.codeLines_body compiler hf hsdk
  refine ⟨(indent 0 (f.source sdk compiler).body).flatMap textLines, groups, ?_, ?_,
    hgroups.imp fun _ _ h => h.2⟩
  · rw [textLines_content, File.depthOf_preamble hf.1.isWord]
  · have hdecls : (f.services.flatMap fun s => (s.decls sdk).flatMap Decl.items) =
        (f.decls sdk).flatMap Decl.items := by
      rw [File.decls, List.flatMap_assoc]
    have hbare : (indent 0 (bareLines (f.imports sdk) ((f.decls sdk).flatMap Decl.items))).flatMap
        codeLines = groups.flatten.flatMap Block.lines := by
      have hall := hprints.prints.code []
      rwa [List.append_nil, hdecls, codeAt, codeAt, indent, List.flatMap_nil, List.append_nil] at hall
    rw [(codeBehind_flatMap hclosed).1, hcode, hbare, blocks_flatMap_lines hprints.whole]

/-- In a file with a workflow and an activity the roles are what they are. -/
theorem rolesAgree_greeterFile :
    greeterFile.WellNamed ∧ ({} : Sdk).WellNamed ∧ greeterFile.RolesAgree {} "3.21.12" := by
  have hnamed : greeterFile.WellNamed := by decide +kernel
  exact ⟨hnamed, Sdk.wellNamed_default, File.rolesAgree hnamed Sdk.wellNamed_default "3.21.12"⟩

end TemporalBindings.Bindings
