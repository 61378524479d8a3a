import TemporalBindings.Bindings.Uniqueness
import TemporalBindings.Proofs.Mentions
import TemporalBindings.Proofs.Scope

/-!
# TemporalBindings.Proofs.Hygiene

When the names in a generated file refer to what they are meant to. Aliases come from
the names of packages, and only clashes between two aliases are resolved, so an alias
may be a name that a function binds or one that the language predeclares. The names
to avoid depend on where an alias stands:

```
helper of a workflow    c, ctx, in, opts, run, err, out
helper of an activity   c, ctx, in, out
bootstrap               c, taskQueue, opts, w, err
```
-/

namespace TemporalBindings.Bindings

open Source Worker

/-! ## Conditions -/

variable {t : Imports} {sdk : Sdk} {s : Service} {m : Method}

/-- The names that are bound where the type of a method's output is spelled in the body
of a helper. -/
def Role.outputScope : Role → List String
  | .workflow => ["c", "ctx", "in", "opts", "run", "err"]
  | .activity => ["c", "ctx", "in"]

/-- Whether the aliases in the helpers of a method are clear of other names. -/
structure Method.AliasesClear (t : Imports) (sdk : Sdk) (m : Method) : Prop where
  error : t.Free "error"
  nil : m.role = .workflow → t.Free "nil"
  client : m.role = .workflow → t.Avoids sdk.client ["c", "ctx", "in"]
  workflow : t.Avoids sdk.workflow ["c", "ctx", "in", "out"]
  output : t.Avoids m.output.package m.role.outputScope

/-- Whether the aliases in the bootstrap of a worker are clear of other names. -/
structure WorkerConfig.AliasesClear (t : Imports) (sdk : Sdk) (w : WorkerConfig) : Prop where
  nil : t.Free "nil"
  true : (∃ x b, (x, .bool b) ∈ w.options.nonZero) → t.Free "true"
  float64 : (∃ x d, (x, .duration d) ∈ w.options.nonZero) → t.Free "float64"
  time : (∃ x d, (x, .duration d) ∈ w.options.nonZero) → t.Avoids sdk.time ["c", "taskQueue"]
  worker : t.Avoids sdk.worker ["c", "taskQueue", "opts", "w"]
  log : t.Avoids sdk.log ["c", "taskQueue", "opts", "w", "err"]

/-- What the two require together of the imports of a file. -/
def File.AliasesClear (f : File) (sdk : Sdk) : Prop :=
  ∀ s ∈ f.services,
    (∀ w ∈ s.startedWorker, w.AliasesClear (f.imports sdk) sdk) ∧
      ∀ m ∈ s.methods, m.AliasesClear (f.imports sdk) sdk

/-! ## Declarations without a body that spells aliases -/

section Declarations

variable (hnodup : (t.aliases.map Prod.snd).Nodup)

include hnodup

/-- In a signature nothing is bound, so only `error` can be mistaken. -/
theorem denotes_ident_signature (i : Ident) : t.Denotes [] (.ident i) :=
  (Imports.denotes_ident_iff hnodup).2 Imports.avoids_nil

theorem Method.denotes_params (context : Package) :
    ∀ p ∈ m.params context, t.DenotesAll [] p.type := by
  simp [Method.params, denotes_ident_signature hnodup]

theorem Method.denotes_result_iff : t.DenotesAll [] m.result ↔ t.Free "error" := by
  have herror : t.Denotes [] (.name "error") ↔ t.Free "error" :=
    Imports.denotes_name_iff (by simp) (by decide)
  simp [Method.result, denotes_ident_signature hnodup, herror]

theorem Method.denotes_member_iff :
    t.DenotesAll [] (m.member sdk).signature.code ↔ t.Free "error" := by
  rw [Method.member, denotesAll_signature, Method.denotes_result_iff hnodup]
  exact and_iff_right (Method.denotes_params hnodup _)

theorem Service.denotes_interface_iff :
    (s.interface sdk).Denotes t ↔ ∀ m ∈ s.methods, t.Free "error" := by
  rw [Service.interface, Source.denotes_interface_iff, List.forall_mem_map]
  exact forall₂_congr fun m _ => Method.denotes_member_iff hnodup

theorem Service.denotes_struct : (s.struct sdk).Denotes t := by
  rw [Service.struct, denotes_struct_iff]
  simp [denotes_ident_signature hnodup]

theorem Service.denotes_constructor : (s.constructor sdk).Denotes t := by
  rw [Service.constructor, denotes_func_iff]
  simp [denotes_ident_signature hnodup, Func.bound, BlockDenotes, Stmt.Denotes,
    Imports.denotes_name_of_mem]

end Declarations

/-! ## Helpers -/

/-- Whether the aliases in the body of a helper are clear of other names. -/
def Verb.BodyClear (t : Imports) (sdk : Sdk) (m : Method) : Verb → Prop
  | ⟨.start, .workflow⟩ => t.Avoids sdk.client ["c", "ctx", "in"]
  | ⟨.execute, .workflow⟩ =>
    t.Avoids sdk.client ["c", "ctx", "in"] ∧ t.Free "nil" ∧
      t.Avoids m.output.package ["run", "err", "opts", "c", "ctx", "in"]
  | ⟨.start, _⟩ => t.Avoids sdk.workflow ["c", "ctx", "in"]
  | ⟨.execute, _⟩ =>
    t.Avoids sdk.workflow ["c", "ctx", "in"] ∧ t.Avoids m.output.package ["c", "ctx", "in"] ∧
      t.Avoids sdk.workflow ["out", "c", "ctx", "in"]

section Helpers

variable (hnodup : (t.aliases.map Prod.snd).Nodup)

include hnodup

/-- Options are put into effect where only the parameters are bound. -/
theorem Target.denotes_configure_iff (target : Target) :
    (target.configure sdk).Denotes t ["c", "ctx", "in"] ↔
      t.Avoids (match target with
        | .workflow => sdk.client
        | _ => sdk.workflow) ["c", "ctx", "in"] := by
  cases target <;>
    simp [Target.configure, Target.configure.inContext, Target.options, Stmt.Denotes,
      Imports.denotes_ident_iff hnodup, Imports.denotes_name_of_mem, Package.ident]

theorem Verb.denotes_body_iff (v : Verb) :
    BlockDenotes t ["c", "ctx", "in"] (v.target.configure sdk :: v.call sdk m) ↔
      v.BodyClear t sdk m := by
  have hnil : t.Denotes ["run", "err", "opts", "c", "ctx", "in"] (.name "nil") ↔ t.Free "nil" :=
    Imports.denotes_name_iff (by decide) (by decide)
  obtain ⟨mode, target⟩ := v
  rw [BlockDenotes, Target.denotes_configure_iff hnodup]
  cases mode <;> cases target <;>
    simp [Verb.BodyClear, Verb.call, Verb.invocation, BlockDenotes, Stmt.Denotes, Stmt.binds,
      Target.configure, Target.configure.inContext, Imports.denotes_ident_iff hnodup,
      Imports.denotes_name_of_mem, Package.ident, hnil]

theorem Verb.denotes_result (herror : t.Free "error") (v : Verb) :
    t.DenotesAll [] (v.result sdk m) := by
  have herror' : t.Denotes [] (.name "error") :=
    (Imports.denotes_name_iff (by simp) (by decide)).2 herror
  unfold Verb.result
  split
  · simp [denotes_ident_signature hnodup, herror']
  · simp [denotes_ident_signature hnodup]
  · simp [denotes_ident_signature hnodup]
  · simp [denotes_ident_signature hnodup]
  · exact (Method.denotes_result_iff hnodup).2 herror

theorem Service.denotes_helper_iff (herror : t.Free "error") (v : Verb) :
    (s.helper sdk m v).Denotes t ↔ v.BodyClear t sdk m := by
  rw [Service.helper, denotes_func_iff]
  have hreceiver : ∀ p ∈ some (⟨"c", ["*", s.structName]⟩ : Param), t.DenotesAll [] p.type := by
    simp
  rw [and_iff_right ⟨hreceiver, Method.denotes_params hnodup _, v.denotes_result hnodup herror⟩]
  exact v.denotes_body_iff hnodup

end Helpers

/-- All helpers of a method together. -/
theorem Method.bodyClear_iff (herror : t.Free "error") :
    (∀ v ∈ m.role.verbs, v.BodyClear t sdk m) ↔ m.AliasesClear t sdk := by
  have hout : ["out", "c", "ctx", "in"] ⊆ ["c", "ctx", "in", "out"] := by decide
  have hout' : ["c", "ctx", "in", "out"] ⊆ ["out", "c", "ctx", "in"] := by decide
  have hctx : ["c", "ctx", "in"] ⊆ ["c", "ctx", "in", "out"] := by decide
  have hrun : ["run", "err", "opts", "c", "ctx", "in"] ⊆ Role.workflow.outputScope := by decide
  have hrun' : Role.workflow.outputScope ⊆ ["run", "err", "opts", "c", "ctx", "in"] := by decide
  have hshort : ["c", "ctx", "in"] ⊆ Role.workflow.outputScope := by decide
  constructor
  · intro h
    cases hrole : m.role with
    | workflow =>
      have hexecute := h ⟨.execute, .workflow⟩ (by simp [hrole, Role.verbs, Role.targets])
      have hchild := h ⟨.execute, .childWorkflow⟩ (by simp [hrole, Role.verbs, Role.targets])
      exact
        { error := herror
          nil := fun _ => hexecute.2.1
          client := fun _ => hexecute.1
          workflow := hchild.2.2.mono hout'
          output := hrole ▸ hexecute.2.2.mono hrun' }
    | activity =>
      have hexecute := h ⟨.execute, .activity⟩ (by simp [hrole, Role.verbs, Role.targets])
      exact
        { error := herror
          nil := fun hw => by simp [hrole] at hw
          client := fun hw => by simp [hrole] at hw
          workflow := hexecute.2.2.mono hout'
          output := hrole ▸ hexecute.2.1 }
  · intro h v hv
    have houtput := h.output
    have hworkflow := h.workflow
    cases hrole : m.role with
    | workflow =>
      rw [hrole] at houtput
      simp only [hrole, Role.verbs, Role.targets, List.flatMap_cons, List.flatMap_nil,
        List.cons_append, List.nil_append, List.mem_cons, List.not_mem_nil, or_false] at hv
      obtain rfl | rfl | rfl | rfl := hv
      · exact h.client hrole
      · exact ⟨h.client hrole, h.nil hrole, houtput.mono hrun⟩
      · exact hworkflow.mono hctx
      · exact ⟨hworkflow.mono hctx, houtput.mono hshort, hworkflow.mono hout⟩
    | activity =>
      rw [hrole] at houtput
      simp only [hrole, Role.verbs, Role.targets, List.flatMap_cons, List.flatMap_nil,
        List.cons_append, List.nil_append, List.mem_cons, List.not_mem_nil, or_false] at hv
      obtain rfl | rfl | rfl | rfl := hv
      · exact hworkflow.mono hctx
      · exact ⟨hworkflow.mono hctx, houtput, hworkflow.mono hout⟩
      · exact hworkflow.mono hctx
      · exact ⟨hworkflow.mono hctx, houtput, hworkflow.mono hout⟩

/-! ## Bootstrap -/

section Bootstrap

variable (hnodup : (t.aliases.map Prod.snd).Nodup)

include hnodup

theorem denotes_value_iff (sdk : Sdk) {v : OptionValue} (hv : v.isZero = false) :
    t.DenotesAll ["taskQueue", "c"] (valueCode sdk v) ↔
      ((∃ b, v = .bool b) → t.Free "true") ∧
        ((∃ d, v = .duration d) → t.Free "float64" ∧ t.Avoids sdk.time ["taskQueue", "c"]) := by
  have htrue : t.Denotes ["taskQueue", "c"] (.name "true") ↔ t.Free "true" :=
    Imports.denotes_name_iff (by decide) (by decide)
  have hfloat : t.Denotes ["taskQueue", "c"] (.name "float64") ↔ t.Free "float64" :=
    Imports.denotes_name_iff (by decide) (by decide)
  cases v with
  | bool b =>
    have hb : b = true := by simpa [OptionValue.isZero] using hv
    simp [valueCode, hb, htrue]
  | int n => simp [valueCode]
  | float d => simp [valueCode]
  | string x => simp [valueCode]
  | duration d =>
    simp [valueCode, hfloat, Imports.denotes_ident_iff hnodup, Package.ident, and_comm]

/-- The literal of the options, where the task queue is bound already. -/
theorem denotes_options_iff (o : Options) :
    (∀ f ∈ (optionsLiteral sdk o).fields, t.DenotesAll ["taskQueue", "c"] f.2) ↔
      ((∃ x b, (x, OptionValue.bool b) ∈ o.nonZero) → t.Free "true") ∧
        ((∃ x d, (x, OptionValue.duration d) ∈ o.nonZero) →
          t.Free "float64" ∧ t.Avoids sdk.time ["taskQueue", "c"]) := by
  have hzero : ∀ e ∈ o.nonZero, e.2.isZero = false := fun e he => by
    simpa using (List.mem_filter.1 he).2
  rw [optionsLiteral, List.forall_mem_map]
  constructor
  · intro h
    constructor
    · rintro ⟨x, b, hmem⟩
      exact ((denotes_value_iff hnodup sdk (hzero _ hmem)).1 (h _ hmem)).1 ⟨b, rfl⟩
    · rintro ⟨x, d, hmem⟩
      exact ((denotes_value_iff hnodup sdk (hzero _ hmem)).1 (h _ hmem)).2 ⟨d, rfl⟩
  · rintro ⟨hbool, hduration⟩ ⟨x, v⟩ hmem
    refine (denotes_value_iff hnodup sdk (hzero _ hmem)).2 ⟨?_, ?_⟩
    · rintro ⟨b, rfl⟩
      exact hbool ⟨x, b, hmem⟩
    · rintro ⟨d, rfl⟩
      exact hduration ⟨x, d, hmem⟩

theorem Service.denotes_bootstrapBody_iff (w : WorkerConfig) :
    BlockDenotes t ["c"] (s.bootstrapBody sdk w) ↔ w.AliasesClear t sdk := by
  have hnil : t.Denotes ["err", "w", "opts", "taskQueue", "c"] (.name "nil") ↔ t.Free "nil" :=
    Imports.denotes_name_iff (by decide) (by decide)
  have hbinds : ∀ st ∈ s.methods.map Method.registration, st.binds = [] := by
    rw [List.forall_mem_map]
    intro m _
    unfold Method.registration
    split <;> rfl
  have hdenotes : ∀ st ∈ s.methods.map Method.registration,
      st.Denotes t ["w", "opts", "taskQueue", "c"] := by
    rw [List.forall_mem_map]
    intro m _
    unfold Method.registration
    split <;> simp [Stmt.Denotes, Imports.denotes_name_of_mem]
  have hrest : BlockDenotes t ["w", "opts", "taskQueue", "c"]
      (s.methods.map Method.registration ++ [.blank,
        .branch (some ("err", [.name "w", ".Run(", sdk.worker.ident "InterruptCh", "())"]))
          [.name "err", " != ", .name "nil"]
          [[sdk.log.ident "Fatalln", "(\"Failed to start Temporal worker:\", ", .name "err",
            ")"]]]) ↔
      t.Avoids sdk.worker ["w", "opts", "taskQueue", "c"] ∧ t.Free "nil" ∧
        t.Avoids sdk.log ["err", "w", "opts", "taskQueue", "c"] := by
    rw [blockDenotes_append hbinds, and_iff_right hdenotes]
    simp [BlockDenotes, Stmt.Denotes, Stmt.binds, Imports.denotes_ident_iff hnodup,
      Imports.denotes_name_of_mem, Package.ident, hnil]
  rw [bootstrapBody, List.append_assoc]
  simp only [List.cons_append, List.nil_append, BlockDenotes, Stmt.binds, hrest]
  simp only [Stmt.Denotes, List.nil_append, Imports.denotesAll_cons, Imports.denotes_text,
    Imports.denotesAll_nil, and_true, true_and, denotes_options_iff hnodup]
  simp only [Imports.denotes_ident_iff hnodup, Imports.denotes_name_of_mem, optionsLiteral,
    Package.ident, List.mem_cons, or_true, true_or, and_self, and_true]
  constructor
  · rintro ⟨⟨-, htrue, hduration⟩, -, hworker, hnil, hlog⟩
    exact
      { nil := hnil
        true := htrue
        float64 := fun h => (hduration h).1
        time := fun h => (hduration h).2.mono (by decide)
        worker := hworker.mono (by decide)
        log := hlog.mono (by decide) }
  · intro h
    exact ⟨⟨h.worker.mono (by decide), h.true,
      fun hd => ⟨h.float64 hd, (h.time hd).mono (by decide)⟩⟩,
      h.worker.mono (by decide), h.worker.mono (by decide), h.nil, h.log.mono (by decide)⟩

end Bootstrap

/-! ## Files -/

theorem Service.denotes_bootstrap_iff (hnodup : (t.aliases.map Prod.snd).Nodup) :
    (∀ d ∈ s.bootstrap sdk, d.Denotes t) ↔ ∀ w ∈ s.startedWorker, w.AliasesClear t sdk := by
  unfold bootstrap
  cases s.startedWorker with
  | none => simp
  | some w =>
    simp only [List.mem_singleton, forall_eq, Option.mem_some, forall_eq']
    rw [denotes_func_iff, and_iff_right]
    · exact denotes_bootstrapBody_iff hnodup w
    · simp [denotes_ident_signature hnodup]

/-- The declarations of a service refer to what they are meant to iff the aliases in its
bootstrap and in its helpers are clear of other names. -/
theorem Service.denotes_decls_iff (hnodup : (t.aliases.map Prod.snd).Nodup) :
    (∀ d ∈ s.decls sdk, d.Denotes t) ↔
      (∀ w ∈ s.startedWorker, w.AliasesClear t sdk) ∧
        ∀ m ∈ s.methods, m.AliasesClear t sdk := by
  rw [decls, client, List.forall_mem_append, List.forall_mem_append,
    denotes_bootstrap_iff hnodup]
  refine and_congr_right fun _ => ?_
  simp only [List.forall_mem_cons, List.not_mem_nil, false_implies, implies_true, and_true,
    List.mem_flatMap, List.mem_map, forall_exists_index, and_imp,
    denotes_interface_iff hnodup, denotes_struct hnodup, denotes_constructor hnodup]
  constructor
  · rintro ⟨herror, hhelpers⟩ m hm
    refine (Method.bodyClear_iff (herror m hm)).1 fun v hv => ?_
    exact (denotes_helper_iff hnodup (herror m hm) v).1 (hhelpers _ m hm v hv rfl)
  · intro h
    refine ⟨fun m hm => (h m hm).error, fun d m hm v hv hd => ?_⟩
    subst hd
    have herror := (h m hm).error
    exact (denotes_helper_iff hnodup herror v).2 ((Method.bodyClear_iff herror).2 (h m hm) v hv)

theorem File.nodup_imports (f : File) (sdk : Sdk) :
    ((f.imports sdk).aliases.map Prod.snd).Nodup :=
  Imports.nodup_aliases_requireAll (t := .empty f.package.path) List.nodup_nil _

/-- In a generated file all names refer to what they are meant to exactly if no alias
that is used among bound names is one of these, and none is a predeclared name that the
file relies on. -/
theorem File.denotes_iff_aliasesClear (f : File) (sdk : Sdk) :
    (∀ d ∈ f.decls sdk, d.Denotes (f.imports sdk)) ↔ f.AliasesClear sdk := by
  rw [decls, AliasesClear]
  simp only [List.mem_flatMap, forall_exists_index, and_imp]
  rw [forall_comm]
  refine forall_congr' fun s => ?_
  rw [← Service.denotes_decls_iff (f.nodup_imports sdk)]
  exact ⟨fun h hs d hd => h d hs hd, fun h d hs hd => h hs d hd⟩

/-- A file whose activity returns a message of a package named as the receiver of its
helpers. -/
def receiverNameFile : File where
  path := "foo.proto"
  deprecated := false
  package := ⟨"example.com/foo", "foo"⟩
  stem := "foo"
  syntaxComments := {}
  packageComments := {}
  services :=
    [{ fullName := "foo.Foo"
       name := "Foo"
       deprecated := false
       comments := {}
       worker := none
       methods :=
        [{ name := "Bar"
           input := ⟨"In", ⟨"example.com/foo", "foo"⟩⟩
           output := ⟨"Out", ⟨"example.com/c", "c"⟩⟩
           role := .activity
           deprecated := false
           comments := {} }] }]

/-- It is accepted, but the type of its output is meant to be in a package and is looked
up in the receiver. -/
theorem not_denotes_receiverNameFile :
    checkUnique [receiverNameFile] = .ok () ∧
      ¬ ∀ d ∈ receiverNameFile.decls {}, d.Denotes (receiverNameFile.imports {}) := by
  refine ⟨by decide +kernel, fun h => ?_⟩
  have hclear := (File.denotes_iff_aliasesClear receiverNameFile {}).1 h _ List.mem_cons_self
  have halias : (receiverNameFile.imports {}).aliases.lookup "example.com/c" = some "c" := by
    decide +kernel
  exact (hclear.2 _ List.mem_cons_self).output "c" halias List.mem_cons_self

end TemporalBindings.Bindings
