import TemporalBindings.Proofs.Results
import TemporalBindings.Proofs.Unique

/-!
# TemporalBindings.Proofs.Selection

What is generated for a file does not depend on the other files of the request. All
requested files are loaded from one pool, but each on its own, and nothing is carried from
one to the next while they are written; the declarations of fewer files are still distinct.
So a request for some of the files succeeds if that for all of them does, and its output is
the part that belongs to these.
-/

namespace TemporalBindings

open Bindings Plugin

/-! ## Sublists -/

/-- What is related to a list element by element has a sublist for each of its sublists. -/
theorem exists_sublist_of_forall₂ {α β : Type} {R : α → β → Prop} {xs zs : List α} {ys : List β}
    (h : List.Forall₂ R xs ys) (hzs : zs.Sublist xs) :
    ∃ ws, ws.Sublist ys ∧ List.Forall₂ R zs ws := by
  induction hzs generalizing ys with
  | slnil => exact ⟨[], List.nil_sublist ys, .nil⟩
  | cons x _ ih =>
    obtain ⟨y, ys, -, hys, rfl⟩ := List.forall₂_cons_left_iff.1 h
    obtain ⟨ws, hws, hzs⟩ := ih hys
    exact ⟨ws, hws.cons y, hzs⟩
  | cons_cons x _ ih =>
    obtain ⟨y, ys, hxy, hys, rfl⟩ := List.forall₂_cons_left_iff.1 h
    obtain ⟨ws, hws, hzs⟩ := ih hys
    exact ⟨y :: ws, hws.cons_cons y, .cons hxy hzs⟩

/-- Fewer files are accepted as well. -/
theorem checkUnique_sublist {files chosen : List Bindings.File} (h : checkUnique files = .ok ())
    (hchosen : chosen.Sublist files) : checkUnique chosen = .ok () :=
  (checkUnique_eq_ok_iff chosen).2 <|
    ((checkUnique_eq_ok_iff files).1 h).sublist (hchosen.flatMap _)

/-! ## Output of one file -/

/-- What is generated for the file of a given name: nothing if it has no services. -/
def outputFor (p : Schema.Pool) (c : Parameter) (sdk : Sdk) (compiler name : String) :
    Option (String × String) :=
  match (loadNamed p c name).result with
  | .ok f =>
    if f.services = [] then none
    else some ((f.source sdk compiler).name, (f.source sdk compiler).content)
  | .error _ => none

variable {p : Schema.Pool} {c : Parameter} {sdk : Sdk} {compiler : String}

/-- The output for files is put together from the outputs for each of them. -/
theorem output_eq_filterMap {names : List String} {files : List Bindings.File}
    (h : List.Forall₂ (fun name f => (loadNamed p c name).result = .ok f) names files) :
    output files sdk compiler = names.filterMap (outputFor p c sdk compiler) := by
  induction h with
  | nil => rfl
  | @cons name f names files hf _ ih =>
    by_cases hnone : f.services = []
    · have hname : outputFor p c sdk compiler name = none := by simp [outputFor, hf, hnone]
      rw [List.filterMap_cons_none hname, ← ih]
      simp [output, hnone]
    · have hname : outputFor p c sdk compiler name =
          some ((f.source sdk compiler).name, (f.source sdk compiler).content) := by
        simp [outputFor, hf, hnone]
      rw [List.filterMap_cons_some hname, ← ih]
      simp [output, hnone]

/-- There is an output exactly for a file with services. -/
theorem isSome_outputFor_iff {name : String} {f : Bindings.File}
    (h : (loadNamed p c name).result = .ok f) :
    (outputFor p c sdk compiler name).isSome ↔
      ∃ d, p.file? name = some d ∧ d.services ≠ [] := by
  obtain ⟨rfl, d, hd⟩ := exists_of_loadNamed h
  have hservices : f.services = [] ↔ d.services = [] := by
    rw [← List.length_eq_zero_iff, hd.services, List.length_eq_zero_iff]
  have hsome : (outputFor p c sdk compiler f.path).isSome ↔ f.services ≠ [] := by
    by_cases hnone : f.services = [] <;> simp [outputFor, h, hnone]
  rw [hsome, ne_eq, hservices, hd.found]
  simp

/-! ## Output of a selection -/

/-- If a request succeeds, so does one for some of its files. Its output is a part of the
whole output, namely that of these files: of each file with services what is generated for
its name, whatever else is asked for. -/
theorem generateUnder_sublist {r : Request} {out : List (String × String)}
    (h : (generateUnder c sdk r).result = .ok out) :
    ∃ p, poolOf r = .ok p ∧
      out = r.files.filterMap (outputFor p c sdk (compilerText r.compiler)) ∧
      (∀ name ∈ r.files, (outputFor p c sdk (compilerText r.compiler) name).isSome ↔
        ∃ d, p.file? name = some d ∧ d.services ≠ []) ∧
      ∀ chosen : List String, chosen.Sublist r.files →
        ∃ part, (generateUnder c sdk { r with files := chosen }).result = .ok part ∧
          part = chosen.filterMap (outputFor p c sdk (compilerText r.compiler)) ∧
          part.Sublist out := by
  obtain ⟨files, hload, haccepted, rfl⟩ := generateUnder_eq_ok.1 h
  obtain ⟨p, hp, hfiles⟩ := load_eq_ok.1 hload
  have hout : output files sdk (compilerText r.compiler) = _ := output_eq_filterMap hfiles
  refine ⟨p, hp, hout, fun name hname => ?_, fun chosen hchosen => ?_⟩
  · obtain ⟨i, hi, rfl⟩ := List.getElem_of_mem hname
    exact isSome_outputFor_iff (hfiles.get hi (hfiles.length_eq ▸ hi))
  · obtain ⟨loaded, hsublist, hloaded⟩ := exists_sublist_of_forall₂ hfiles hchosen
    have hok : (load { r with files := chosen } c).result = .ok loaded :=
      load_eq_ok.2 ⟨p, hp, hloaded⟩
    exact ⟨_, generateUnder_eq_ok.2 ⟨loaded, hok, checkUnique_sublist haccepted hsublist, rfl⟩,
      output_eq_filterMap hloaded, (hsublist.filter _).map _⟩

/-- The second of two files that are asked for, on its own. -/
theorem generateUnder_sublist_pairRequest :
    ∃ out part, (generateUnder {} {} (pairRequest "a.proto" "example.com/a" "b.proto"
        "example.com/b")).result = .ok out ∧
      (generateUnder {} {} { pairRequest "a.proto" "example.com/a" "b.proto" "example.com/b" with
        files := ["b.proto"] }).result = .ok part ∧ part.Sublist out := by
  have hok : (generateUnder {} {} (pairRequest "a.proto" "example.com/a" "b.proto"
      "example.com/b")).result.isOk = true := by
    decide +kernel
  cases hout : (generateUnder {} {} (pairRequest "a.proto" "example.com/a" "b.proto"
      "example.com/b")).result with
  | error e => simp [hout, Except.isOk, Except.toBool] at hok
  | ok out =>
    obtain ⟨p, -, -, -, hchosen⟩ := generateUnder_sublist hout
    obtain ⟨part, hpart, -, hsublist⟩ := hchosen ["b.proto"] (by decide +kernel)
    exact ⟨out, part, rfl, hpart, hsublist⟩

end TemporalBindings
