import TemporalBindings.Proofs.Results
import TemporalBindings.Proofs.Written

/-!
# TemporalBindings.Proofs.FileNames

The names of generated files. Each of them is the stem of a file and a fixed ending, and
the stem says where the file goes and nothing else:

```
beside the source     the path of the file without its ending
to the import path    the import path, and the last part of that
```

A root that is taken off the import paths is taken off all of them, so it does not make
two names equal. Two names are equal iff the files go to one place, which is not looked at
before the files are written.
-/

namespace TemporalBindings

open Bindings Plugin Text

/-! ## Places -/

/-- Where the file that is generated for a file goes: its import path, unless it goes beside
its source, and its name there. -/
def Plugin.Parameter.place (c : Parameter) (f : Bindings.File) : Option String × List Char :=
  match c.placement with
  | .besideSource => (none, withoutEnding f.path)
  | .importPath => (some f.package.path, afterLast '/' (withoutEnding f.path))

/-- A text is cut in one way at the last separator. -/
theorem append_cons_inj {sep : Char} {a b c d : List Char} (hb : sep ∉ b) (hd : sep ∉ d) :
    a ++ sep :: b = c ++ sep :: d ↔ a = c ∧ b = d := by
  constructor
  · intro h
    have hreverse : b.reverse ++ sep :: a.reverse = d.reverse ++ sep :: c.reverse := by
      simpa using congrArg List.reverse h
    have hleft : cut? sep (b.reverse ++ sep :: a.reverse) = some (b.reverse, a.reverse) :=
      cut?_eq_some_iff.2 ⟨rfl, by simpa using hb⟩
    have hright : cut? sep (b.reverse ++ sep :: a.reverse) = some (d.reverse, c.reverse) :=
      cut?_eq_some_iff.2 ⟨hreverse, by simpa using hd⟩
    simpa [and_comm] using hleft.symm.trans hright
  · rintro ⟨rfl, rfl⟩
    rfl

/-- The stems of two files are equal iff the files go to one place. -/
theorem stem_eq_iff {c : Parameter} {f g : Bindings.File}
    (hf : stemFor c f.path f.package = .ok f.stem)
    (hg : stemFor c g.path g.package = .ok g.stem) : f.stem = g.stem ↔ c.place f = c.place g := by
  unfold stemFor at hf hg
  unfold Parameter.place
  split at hf
  · next hplacement =>
    simp only [hplacement, Except.ok.injEq] at hf hg ⊢
    rw [← hf, ← hg, String.ofList_inj, Prod.mk.injEq]
    exact (and_iff_right rfl).symm
  · next hplacement =>
    have hcut := append_cons_inj (a := f.package.path.toList) (c := g.package.path.toList)
      (not_mem_afterLast '/' (withoutEnding f.path)) (not_mem_afterLast '/' (withoutEnding g.path))
    rw [String.toList_inj] at hcut
    simp only [hplacement] at hf hg ⊢
    rw [Prod.mk.injEq, Option.some.injEq, ← hcut]
    split at hf
    · next hroot =>
      simp only [hroot, Except.ok.injEq] at hf hg
      rw [← hf, ← hg, String.ofList_inj]
    · next root hroot =>
      -- what is left behind the root determines the whole, because the root is one for both
      simp only [hroot] at hg
      split at hf
      · next rest hrest =>
        split at hg
        · next rest' hrest' =>
          simp only [Except.ok.injEq] at hf hg
          rw [← hf, ← hg, String.ofList_inj, stripStart?_eq_some_iff.1 hrest,
            stripStart?_eq_some_iff.1 hrest', List.append_cancel_left_eq]
        · simp at hg
      · simp at hf

/-! ## Names in a response -/

/-- Elements are mapped to distinct values by one function iff they are by another that
tells the same of them apart. -/
theorem nodup_map_congr {α β γ : Type} {f : α → β} {g : α → γ} {xs : List α}
    (h : ∀ x ∈ xs, ∀ y ∈ xs, f x = f y ↔ g x = g y) : (xs.map f).Nodup ↔ (xs.map g).Nodup := by
  rw [List.Nodup, List.Nodup, List.pairwise_map, List.pairwise_map]
  exact ⟨fun hf => hf.imp_of_mem fun hx hy hne heq => hne ((h _ hx _ hy).2 heq),
    fun hg => hg.imp_of_mem fun hx hy hne heq => hne ((h _ hx _ hy).1 heq)⟩

/-- The name of a generated file is the stem and the ending. -/
theorem name_source (f : Bindings.File) (sdk : Sdk) (compiler : String) :
    (f.source sdk compiler).name = f.stem ++ fileEnding := by
  rw [File.source_eq]

theorem map_fst_output (files : List Bindings.File) (sdk : Sdk) (compiler : String) :
    (output files sdk compiler).map Prod.fst =
      (files.filter (·.services ≠ [])).map fun f => f.stem ++ fileEnding := by
  simp only [output, List.map_map, Function.comp_def, name_source]

/-- The names of the files in a response without an error are distinct iff the files with
services go to different places. -/
theorem nodup_fileNames_iff {r : Request} (h : (respond r).error = none) :
    ∃ c files, Parameter.parse r.parameter = .ok c ∧ (load r c).result = .ok files ∧
      files.map File.path = r.files ∧
      (((respond r).files.map Prod.fst).Nodup ↔
        ((files.filter (·.services ≠ [])).map c.place).Nodup) := by
  obtain ⟨out, hout, hresponse⟩ := generate_of_respond h
  obtain ⟨c, hc, hunder⟩ := generate_eq_ok.1 hout
  obtain ⟨files, hload, -, rfl⟩ := generateUnder_eq_ok.1 hunder
  obtain ⟨p, -, hloads⟩ := exists_of_mem_load hload
  refine ⟨c, files, hc, hload, map_path_of_load hload, ?_⟩
  rw [hresponse, map_fst_output]
  refine nodup_map_congr fun f hf g hg => ?_
  obtain ⟨d, hd⟩ := hloads f (List.mem_filter.1 hf).1
  obtain ⟨e, he⟩ := hloads g (List.mem_filter.1 hg).1
  rw [← stem_eq_iff hd.stem he.stem]
  exact String.append_left_inj fileEnding

/-- Two files of one name in different directories go to one place if they have one import
path, and this is not refused. -/
theorem not_nodup_fileNames_pairRequest :
    (respond (pairRequest "x/foo.proto" "example.com/foo;foo" "y/foo.proto"
        "example.com/foo;foo")).error = none ∧
      ¬ ((respond (pairRequest "x/foo.proto" "example.com/foo;foo" "y/foo.proto"
        "example.com/foo;foo")).files.map Prod.fst).Nodup := by
  have herror : (respond (pairRequest "x/foo.proto" "example.com/foo;foo" "y/foo.proto"
      "example.com/foo;foo")).error = none := by
    decide +kernel
  refine ⟨herror, fun hnodup => ?_⟩
  obtain ⟨c, files, hc, hload, -, hiff⟩ := nodup_fileNames_iff herror
  obtain rfl : ({} : Parameter) = c := Except.ok.inj hc
  have hplaces : ((load (pairRequest "x/foo.proto" "example.com/foo;foo" "y/foo.proto"
      "example.com/foo;foo") {}).result.map fun files =>
        (files.filter (·.services ≠ [])).map ({} : Parameter).place) =
      .ok [(some "example.com/foo", "foo".toList), (some "example.com/foo", "foo".toList)] := by
    decide +kernel
  rw [hload] at hplaces
  have hsame : (files.filter (·.services ≠ [])).map ({} : Parameter).place = _ :=
    Except.ok.inj hplaces
  have hdistinct := hiff.1 hnodup
  rw [hsame] at hdistinct
  exact absurd hdistinct (by decide)

end TemporalBindings
