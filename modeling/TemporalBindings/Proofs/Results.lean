import Mathlib.Data.List.Forall2
import TemporalBindings.Plugin.Response

/-!
# TemporalBindings.Proofs.Results

What it takes for a run to succeed. Steps that are taken one after the other succeed iff
each of them does, so a generated output goes back to

```
the parameter               as it is parsed
the linked descriptors      one pool for all requested files
a loaded file per name      in the order of the request
the names they declare      none of them twice in a package
```
-/

namespace TemporalBindings

/-! ## Steps -/

namespace Report

variable {α β : Type}

theorem result_ofExcept (r : Except Error α) : (ofExcept r).result = r := rfl

theorem result_pure (a : α) : (pure a : Report α).result = .ok a := rfl

/-- Two steps succeed iff both do. -/
theorem result_bind_eq_ok {r : Report α} {next : α → Report β} {b : β} :
    (r >>= next).result = .ok b ↔ ∃ a, r.result = .ok a ∧ (next a).result = .ok b := by
  rw [bind_def, andThen]
  cases r.result with
  | error e => simp
  | ok a => simp

/-- A step for each element succeeds iff all of them do, with the results in order. -/
theorem result_mapM_eq_ok {f : α → Report β} {xs : List α} {ys : List β} :
    (xs.mapM f).result = .ok ys ↔ List.Forall₂ (fun x y => (f x).result = .ok y) xs ys := by
  induction xs generalizing ys with
  | nil =>
    rw [List.mapM_nil, result_pure, List.forall₂_nil_left_iff, Except.ok.injEq]
    exact eq_comm
  | cons x xs ih =>
    simp only [List.mapM_cons, result_bind_eq_ok, result_pure, Except.ok.injEq, ih,
      List.forall₂_cons_left_iff]
    constructor
    · rintro ⟨y, hy, ys, hys, rfl⟩
      exact ⟨y, ys, hy, hys, rfl⟩
    · rintro ⟨y, ys, hy, hys, rfl⟩
      exact ⟨y, hy, ys, hys, rfl⟩

end Report

open Bindings Plugin Report Wire

/-! ## Requests -/

variable {c : Parameter} {r : Request} {files : List Bindings.File}

/-- A request can be loaded iff its descriptors can be linked and each of its files can be
loaded from them. -/
theorem load_eq_ok :
    (load r c).result = .ok files ↔ ∃ p, poolOf r = .ok p ∧
      List.Forall₂ (fun name f => (loadNamed p c name).result = .ok f) r.files files := by
  simp only [load, loadFiles, result_bind_eq_ok, result_ofExcept, result_mapM_eq_ok]

/-- Generation under a parameter succeeds iff the request can be loaded and what its files
declare is accepted. -/
theorem generateUnder_eq_ok {sdk : Sdk} {out : List (String × String)} :
    (generateUnder c sdk r).result = .ok out ↔
      ∃ files, (load r c).result = .ok files ∧ checkUnique files = .ok () ∧
        output files sdk (compilerText r.compiler) = out := by
  simp only [generateUnder, result_bind_eq_ok, result_ofExcept, result_pure, Except.ok.injEq]
  constructor
  · rintro ⟨files, hfiles, ⟨⟩, haccepted, hout⟩
    exact ⟨files, hfiles, haccepted, hout⟩
  · rintro ⟨files, hfiles, haccepted, hout⟩
    exact ⟨files, hfiles, (), haccepted, hout⟩

/-- A request succeeds iff its parameter can be read and it succeeds under that. -/
theorem generate_eq_ok {out : List (String × String)} :
    (generate r).result = .ok out ↔
      ∃ c, Parameter.parse r.parameter = .ok c ∧ (generateUnder c {} r).result = .ok out := by
  rw [generate, result_bind_eq_ok]
  rfl

/-- A response without an error has the generated files. -/
theorem generate_of_respond {r : Request} (h : (respond r).error = none) :
    ∃ out, (generate r).result = .ok out ∧ (respond r).files = out := by
  unfold respond at h ⊢
  cases hout : (generate r).result with
  | error e => simp [hout, Response.ofResult] at h
  | ok out => exact ⟨out, rfl, rfl⟩

/-! ## Files -/

/-- A loaded file has its name, package and stem from a descriptor, and a service for each
service there. -/
structure Bindings.File.Loads (p : Schema.Pool) (c : Parameter) (f : Bindings.File)
    (d : Schema.File) : Prop where
  found : p.file? f.path = some d
  name : d.descriptor.name = f.path
  package : packageOf c d.descriptor = .ok f.package
  stem : stemFor c f.path f.package = .ok f.stem
  services : f.services.length = d.services.length

/-- The file of a name is loaded from the descriptor of that name. -/
theorem exists_of_loadNamed {p : Schema.Pool} {name : String} {f : Bindings.File}
    (h : (loadNamed p c name).result = .ok f) : f.path = name ∧ ∃ d, f.Loads p c d := by
  unfold loadNamed at h
  split at h
  · next d hd =>
    have hname : d.descriptor.name = name := by simpa using List.find?_some hd
    simp only [loadFile, result_bind_eq_ok, result_ofExcept, result_pure, result_mapM_eq_ok,
      Except.ok.injEq] at h
    obtain ⟨package, hpackage, stem, hstem, services, hservices, rfl⟩ := h
    have hlength := hservices.length_eq
    rw [List.length_zipIdx] at hlength
    exact ⟨hname, d, hname.symm ▸ hd, rfl, hpackage, hstem, hlength.symm⟩
  · simp [Report.ofExcept] at h

/-- Files are loaded in the order of their names. -/
theorem map_path_of_load (h : (load r c).result = .ok files) : files.map File.path = r.files := by
  obtain ⟨p, -, hfiles⟩ := load_eq_ok.1 h
  have hpaths : List.Forall₂ (· = ·) r.files (files.map File.path) :=
    List.forall₂_map_right_iff.2 (hfiles.imp fun _ _ hf => (exists_of_loadNamed hf).1.symm)
  rw [List.forall₂_eq_eq_eq] at hpaths
  exact hpaths.symm

/-- Each of them is loaded from one of the linked descriptors. -/
theorem exists_of_mem_load (h : (load r c).result = .ok files) :
    ∃ p, poolOf r = .ok p ∧ ∀ f ∈ files, ∃ d, f.Loads p c d := by
  obtain ⟨p, hp, hfiles⟩ := load_eq_ok.1 h
  refine ⟨p, hp, fun f hf => ?_⟩
  obtain ⟨i, hi, rfl⟩ := List.getElem_of_mem hf
  exact (exists_of_loadNamed (hfiles.get (hfiles.length_eq ▸ hi) hi)).2

/-! ## Requests for two files -/

/-- The serialized descriptor of a file with a `go_package` option and one service without
methods. -/
def fileBytes (path option service : String) : List UInt8 :=
  writeFields [stringField 1 path, stringField 2 "p",
    .bytes 6 (writeFields [stringField 1 service]),
    .bytes 8 (writeFields [stringField 11 option]), stringField 12 "proto3"]

/-- A request for two such files, which have a service `A` and a service `B`. -/
def pairRequest (path option path' option' : String) : Request where
  files := [path, path']
  descriptors := [fileBytes path option "A", fileBytes path' option' "B"]

end TemporalBindings
