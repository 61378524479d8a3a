import TemporalBindings.Proofs.Selection

/-!
# TemporalBindings.Proofs.FirstFault

Which error a response reports. A run is a sequence of checks, each of which looks at one
thing that can be wrong:

```
parameter, descriptors
for each requested file      known, importPath, place
  for each of its services   worker
    for each of its methods  input, output
distinct
```

What is nested in the loader is flat here. The first check of the sequence that fails is
the one that is reported, and nothing is generated then; if none fails, everything is.
-/

namespace TemporalBindings

open Bindings Plugin

/-! ## Faults -/

/-- The error of a result that is one. -/
def fault? {α : Type} : Except Error α → Option Error
  | .ok _ => none
  | .error e => some e

/-- The first element counts, and the others if there is nothing to it. -/
theorem findSome?_cons_or {α β : Type} (f : α → Option β) (x : α) (xs : List α) :
    (x :: xs).findSome? f = (f x).or (xs.findSome? f) := by
  rw [List.findSome?_cons]
  cases f x <;> rfl

theorem findSome?_flatMap {α β γ : Type} (f : β → Option γ) (g : α → List β) (xs : List α) :
    (xs.flatMap g).findSome? f = xs.findSome? fun x => (g x).findSome? f := by
  induction xs with
  | nil => rfl
  | cons x xs ih => rw [List.flatMap_cons, List.findSome?_append, ih, findSome?_cons_or]

namespace Report

variable {α β : Type}

/-- The error of the first of two steps counts, and that of the second if there is none. -/
theorem fault?_bind {r : Report α} {next : α → Report β} (fault : Option Error)
    (hnext : ∀ a, r.result = .ok a → fault? (next a).result = fault) :
    fault? (r >>= next).result = (fault? r.result).or fault := by
  rw [bind_def, andThen]
  cases hr : r.result with
  | error e => rfl
  | ok a => exact hnext a hr

/-- Of a step for each element the first error counts. -/
theorem fault?_mapM (f : α → Report β) (xs : List α) :
    fault? (xs.mapM f).result = xs.findSome? fun x => fault? (f x).result := by
  induction xs with
  | nil => rfl
  | cons x xs ih =>
    have hrest (y : β) : fault? (do let ys ← xs.mapM f; pure (y :: ys) : Report (List β)).result =
        xs.findSome? fun x => fault? (f x).result := by
      rw [fault?_bind none fun _ _ => rfl, ih, Option.or_none]
    rw [List.mapM_cons, fault?_bind _ fun y _ => hrest y, List.findSome?_cons]
    cases fault? (f x).result <;> rfl

/-- That the elements are numbered makes no difference if their errors do not depend on it. -/
theorem fault?_mapM_zipIdx {f : α → Nat → Report β} {fault : α → Option Error} (xs : List α)
    (hf : ∀ x i, fault? (f x i).result = fault x) :
    fault? (xs.zipIdx.mapM fun (x, i) => f x i).result = xs.findSome? fault := by
  have hfirst : xs.findSome? fault = (xs.zipIdx.map Prod.fst).findSome? fault := by
    rw [List.zipIdx_map_fst]
  rw [fault?_mapM, hfirst, List.findSome?_map]
  exact congrArg (List.findSome? · _) (funext fun (x, i) => hf x i)

end Report

/-! ## Repeated declarations -/

/-- Keys are compared as pairs: by this instance `firstRepetition` decides whether a key is among
others. -/
instance lawfulBEq_key : LawfulBEq (String × String) :=
  inferInstance

/-- The first declaration that has the import path and the name of one further up. -/
def firstRepetition (ds : List Declaration) : Option Declaration :=
  (ds.zipIdx.find? fun (d, i) => d.key ∈ (ds.take i).map Declaration.key).map Prod.fst

/-- What has been seen are the keys of what is further up. -/
theorem firstRepeated_eq_find? {above ds : List Declaration} {seen : List (String × String)}
    (hseen : ∀ k, k ∈ seen ↔ k ∈ above.map Declaration.key) :
    firstRepeated seen ds = ((ds.zipIdx above.length).find? fun (d, i) =>
      d.key ∈ ((above ++ ds).take i).map Declaration.key).map Prod.fst := by
  induction ds generalizing above seen with
  | nil => rfl
  | cons d ds ih =>
    rw [List.zipIdx_cons, List.find?_cons]
    simp only [List.take_left]
    by_cases hd : d.key ∈ seen
    · have hfirst : firstRepeated seen (d :: ds) = some d := if_pos hd
      simp only [hfirst, (hseen d.key).1 hd, decide_true, Option.map_some]
    · have hrest : firstRepeated seen (d :: ds) = firstRepeated (d.key :: seen) ds := if_neg hd
      have hkeys (k : String × String) :
          k ∈ d.key :: seen ↔ k ∈ (above ++ [d]).map Declaration.key := by
        rw [List.map_append, List.mem_append, List.mem_cons, hseen k, or_comm, List.map_singleton,
          List.mem_singleton]
      have hnew : d.key ∉ above.map Declaration.key := mt (hseen d.key).2 hd
      rw [hrest, ih hkeys, List.append_assoc, List.singleton_append, List.length_append,
        List.length_singleton, decide_eq_false hnew]

theorem fault?_checkUnique (files : List Bindings.File) :
    fault? (checkUnique files) = (firstRepetition (files.flatMap File.declared)).map fun d =>
      .duplicateDeclaration d.file d.name := by
  have hfirst : firstRepeated [] (files.flatMap File.declared) =
      firstRepetition (files.flatMap File.declared) :=
    firstRepeated_eq_find? fun k => by rw [List.map_nil]
  rw [checkUnique, ← hfirst]
  cases firstRepeated [] (files.flatMap File.declared) <;> rfl

/-! ## Checks -/

/-- What can be wrong with a request. -/
inductive Check
  | parameter
  | descriptors
  | known (name : String)
  | importPath (f : Schema.File)
  | place (f : Schema.File)
  | worker (s : Schema.Service)
  | input (m : Schema.Method)
  | output (m : Schema.Method)
  | distinct

/-- The error of a part of a request that is looked at under its parameter and with its linked
descriptors. Without them there is nothing to look at. -/
def faultUnder (r : Request) (fault : Parameter → Schema.Pool → Option Error) : Option Error :=
  match Parameter.parse r.parameter, poolOf r with
  | .ok c, .ok p => fault c p
  | _, _ => none

/-- The error that a check finds in a request, for itself. -/
def Check.fault? (r : Request) : Check → Option Error
  | .parameter => TemporalBindings.fault? (Parameter.parse r.parameter)
  | .descriptors => TemporalBindings.fault? (poolOf r)
  | .known name => faultUnder r fun _ p =>
    if (p.file? name).isSome then none else some (.unknownFile name)
  | .importPath f => faultUnder r fun c _ => TemporalBindings.fault? (packageOf c f.descriptor)
  | .place f => faultUnder r fun c _ =>
    match packageOf c f.descriptor with
    | .ok package => TemporalBindings.fault? (stemFor c f.descriptor.name package)
    | .error _ => none
  | .worker s => faultUnder r fun _ p => TemporalBindings.fault? (workerOf p s.name s.options).result
  | .input m => faultUnder r fun c _ => TemporalBindings.fault? (messageIdent c m.input)
  | .output m => faultUnder r fun c _ => TemporalBindings.fault? (messageIdent c m.output)
  | .distinct => faultUnder r fun c p =>
    match (loadFiles p c r.files).result with
    | .ok files => (firstRepetition (files.flatMap File.declared)).map fun d =>
      .duplicateDeclaration d.file d.name
    | .error _ => none

/-- The checks of a method. -/
def methodChecks (m : Schema.Method) : List Check :=
  [.input m, .output m]

/-- The checks of a service. -/
def serviceChecks (s : Schema.Service) : List Check :=
  .worker s :: s.methods.flatMap methodChecks

/-- The checks of a file. -/
def fileChecks (f : Schema.File) : List Check :=
  .importPath f :: .place f :: f.services.flatMap serviceChecks

/-- The checks of a file that is asked for by name. -/
def requestedChecks (p : Schema.Pool) (name : String) : List Check :=
  .known name :: ((p.file? name).map fileChecks).getD []

/-- The checks of a request, in order. -/
def checks (r : Request) : List Check :=
  .parameter :: .descriptors ::
    match poolOf r with
    | .ok p => r.files.flatMap (requestedChecks p) ++ [.distinct]
    | .error _ => []

/-! ## Loading -/

section Loading

variable {r : Request} {c : Parameter} {p : Schema.Pool}

theorem faultUnder_eq (hc : Parameter.parse r.parameter = .ok c) (hp : poolOf r = .ok p)
    (fault : Parameter → Schema.Pool → Option Error) : faultUnder r fault = fault c p := by
  rw [faultUnder, hc, hp]

theorem fault?_loadMethod (hc : Parameter.parse r.parameter = .ok c) (hp : poolOf r = .ok p)
    (comments : Comments) (m : Schema.Method) :
    fault? (loadMethod p c comments m).result = (methodChecks m).findSome? (Check.fault? r) := by
  have hinput : Check.fault? r (.input m) = fault? (messageIdent c m.input) := faultUnder_eq hc hp _
  have houtput : Check.fault? r (.output m) = fault? (messageIdent c m.output) :=
    faultUnder_eq hc hp _
  rw [loadMethod, Report.fault?_bind _ fun _ _ => Report.fault?_bind none fun _ _ => rfl]
  simp only [methodChecks, findSome?_cons_or, List.findSome?_nil, hinput, houtput,
    Report.result_ofExcept]

theorem fault?_loadService (hc : Parameter.parse r.parameter = .ok c) (hp : poolOf r = .ok p)
    (locations : List Schema.Location) (s : Schema.Service) (index : Nat) :
    fault? (loadService p c locations s index).result =
      (serviceChecks s).findSome? (Check.fault? r) := by
  have hworker : Check.fault? r (.worker s) = fault? (workerOf p s.name s.options).result :=
    faultUnder_eq hc hp _
  have hmethods := Report.fault?_mapM_zipIdx s.methods fun m i =>
    fault?_loadMethod hc hp (commentsAt locations (methodPath index i)) m
  rw [loadService, Report.fault?_bind _ fun _ _ => Report.fault?_bind none fun _ _ => rfl, hmethods]
  simp only [serviceChecks, findSome?_cons_or, findSome?_flatMap, hworker, Option.or_none]

theorem fault?_loadFile (hc : Parameter.parse r.parameter = .ok c) (hp : poolOf r = .ok p)
    (f : Schema.File) :
    fault? (loadFile p c f).result = (fileChecks f).findSome? (Check.fault? r) := by
  have himportPath : Check.fault? r (.importPath f) = fault? (packageOf c f.descriptor) :=
    faultUnder_eq hc hp _
  have hplace (package : Source.Package) (hpackage : packageOf c f.descriptor = .ok package) :
      Check.fault? r (.place f) = fault? (stemFor c f.descriptor.name package) := by
    rw [Check.fault?, faultUnder_eq hc hp, hpackage]
  simp only [fileChecks, findSome?_cons_or, himportPath, findSome?_flatMap]
  refine Report.fault?_bind _ fun package hpackage => ?_
  have hservices := Report.fault?_mapM_zipIdx f.services fun s i =>
    fault?_loadService hc hp f.descriptor.locations s i
  rw [hplace package hpackage,
    Report.fault?_bind _ fun _ _ => Report.fault?_bind none fun _ _ => rfl, hservices,
    Option.or_none, Report.result_ofExcept]

theorem fault?_loadNamed (hc : Parameter.parse r.parameter = .ok c) (hp : poolOf r = .ok p)
    (name : String) :
    fault? (loadNamed p c name).result =
      (requestedChecks p name).findSome? (Check.fault? r) := by
  have hknown : Check.fault? r (.known name) =
      if (p.file? name).isSome then none else some (.unknownFile name) :=
    faultUnder_eq hc hp _
  rw [requestedChecks, findSome?_cons_or, hknown, loadNamed]
  cases p.file? name with
  | none => rfl
  | some f => exact fault?_loadFile hc hp f

/-- The error of loading is that of the first check that fails for a file. -/
theorem fault?_loadFiles (hc : Parameter.parse r.parameter = .ok c) (hp : poolOf r = .ok p) :
    fault? (loadFiles p c r.files).result =
      (r.files.flatMap (requestedChecks p)).findSome? (Check.fault? r) := by
  rw [loadFiles, Report.fault?_mapM, findSome?_flatMap]
  exact congrArg (List.findSome? · _) (funext fun name => fault?_loadNamed hc hp name)

end Loading

/-! ## Generation -/

/-- The error of a run is that of the first check that fails. -/
theorem fault?_generate (r : Request) :
    fault? (generate r).result = (checks r).findSome? (Check.fault? r) := by
  rw [checks, findSome?_cons_or, findSome?_cons_or]
  refine Report.fault?_bind _ fun c hc => ?_
  rw [generateUnder, load, bind_assoc]
  refine Report.fault?_bind _ fun p hp => ?_
  rw [Report.result_ofExcept] at hc hp
  rw [hp, List.findSome?_append, ← fault?_loadFiles hc hp]
  refine Report.fault?_bind _ fun files hfiles => ?_
  rw [List.findSome?_singleton, Check.fault?, faultUnder_eq hc hp, hfiles,
    Report.fault?_bind none fun _ _ => rfl, Option.or_none, Report.result_ofExcept,
    fault?_checkUnique]

/-- A response reports the first of the checks that fails, and has no files then. If none
fails, it has no error and what is generated for each of the requested files, in their order:
one file for each that has services. -/
theorem respond_eq_firstFault (r : Request) :
    (∃ before k after e, checks r = before ++ k :: after ∧
        (∀ k' ∈ before, k'.fault? r = none) ∧ k.fault? r = some e ∧
        respond r = ⟨some e.message, 1, []⟩) ∨
      (∀ k ∈ checks r, k.fault? r = none) ∧
        ∃ c p, Parameter.parse r.parameter = .ok c ∧ poolOf r = .ok p ∧
          respond r =
            ⟨none, 1, r.files.filterMap (outputFor p c {} (compilerText r.compiler))⟩ ∧
          ∀ name ∈ r.files, (outputFor p c {} (compilerText r.compiler) name).isSome ↔
            ∃ d, p.file? name = some d ∧ d.services ≠ [] := by
  have hfault := fault?_generate r
  cases hresult : (generate r).result with
  | error e =>
    rw [hresult, fault?, eq_comm, List.findSome?_eq_some_iff] at hfault
    obtain ⟨before, k, after, hchecks, hk, hbefore⟩ := hfault
    exact .inl ⟨before, k, after, e, hchecks, hbefore, hk, by rw [respond, hresult]; rfl⟩
  | ok out =>
    rw [hresult, fault?, eq_comm, List.findSome?_eq_none_iff] at hfault
    obtain ⟨c, hc, hunder⟩ := generate_eq_ok.1 hresult
    obtain ⟨files, hload, -, hout⟩ := generateUnder_eq_ok.1 hunder
    obtain ⟨p, hp, hfiles⟩ := load_eq_ok.1 hload
    rw [output_eq_filterMap hfiles] at hout
    refine .inr ⟨hfault, c, p, hc, hp, by rw [respond, hresult, hout]; rfl, fun name hname => ?_⟩
    obtain ⟨i, hi, rfl⟩ := List.getElem_of_mem hname
    exact isSome_outputFor_iff (hfiles.get hi (hfiles.length_eq ▸ hi))

end TemporalBindings
