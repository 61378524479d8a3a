import TemporalBindings.Proofs.Declared
import TemporalBindings.Proofs.Results

/-!
# TemporalBindings.Proofs.PackageClause

The package clauses of generated files. Import path and name of a package are read from
one text per file, which the parameter or the file's own option gives:

```
path;name    the name is the one behind the semicolon
path         the name is the last element of the path
```

The path says which files are compiled together, and the name is what their package
clauses say. Files with one import path that get their names in different ways may have
different clauses; nothing compares them.
-/

namespace TemporalBindings.Bindings

open Plugin Schema Source Text

/-! ## Package texts -/

/-- The import path in the text of a package. -/
def pathPart (text : List Char) : List Char :=
  ((cut? ';' text).getD (text, [])).1

/-- The name behind the semicolon, which may be empty. -/
def givenName (text : List Char) : List Char :=
  ((cut? ';' text).getD (text, [])).2

/-- What the name of a package is made from: the given name, or else the last element of
its import path. -/
def namePart (text : List Char) : List Char :=
  if givenName text = [] then afterLast '/' (pathPart text) else givenName text

theorem parsePackage_eq_some_iff {text : List Char} {package : Package} :
    parsePackage text = some package ↔ pathPart text ≠ [] ∧
      package = ⟨String.ofList (pathPart text), String.ofList (sanitize (namePart text))⟩ := by
  have hparse : parsePackage text =
      if pathPart text = [] then none
      else some ⟨String.ofList (pathPart text), String.ofList (sanitize (namePart text))⟩ := by
    rw [namePart, apply_ite sanitize]
    rfl
  rw [hparse]
  split
  · next h => simp [h]
  · next h => simp [h, eq_comm]

/-- The text that gives the package of a file: that of the parameter, or else that of the
file's option. -/
def packageText (c : Parameter) (d : FileDescriptor) : Option String :=
  (c.importMap.lookup d.name).or (packageOption d)

theorem exists_of_packageOf {c : Parameter} {d : FileDescriptor} {package : Package}
    (h : packageOf c d = .ok package) : ∃ text, packageText c d = some text ∧
      package = ⟨String.ofList (pathPart text.toList),
        String.ofList (sanitize (namePart text.toList))⟩ := by
  unfold packageOf packageFor at h
  split at h
  · next package' hpackage =>
    obtain ⟨text, htext, hparse⟩ := Option.bind_eq_some_iff.1 hpackage
    rw [← Except.ok.inj h]
    exact ⟨text, htext, (parsePackage_eq_some_iff.1 hparse).2⟩
  · simp at h

/-! ## Package clauses -/

/-- A sanitized text is a word. -/
theorem isWord_sanitize (s : List Char) : IsWord (String.ofList (sanitize s)) := by
  have hplain : (s.map fun c => if isLetter c || isNumeral c then c else '_').all isPlain = true := by
    rw [List.all_map, List.all_eq_true]
    intro c _
    by_cases hc : (isLetter c || isNumeral c) = true
    · rw [Function.comp_apply, if_pos hc]
      exact isPlain_of_isNameChar
        ((Bool.or_eq_true_iff.1 hc).elim isNameChar_of_isLetter isNameChar_of_isNumeral)
    · rw [Function.comp_apply, if_neg hc]
      decide
  generalize hname : (s.map fun c => if isLetter c || isNumeral c then c else '_') = name at hplain
  have hsanitize : sanitize s =
      if String.ofList name ∈ keywords ∨ !startsWithLetter name then '_' :: name else name := by
    rw [← hname]
    rfl
  rw [hsanitize]
  split
  · exact isWord_ofList (by simp) (List.all_cons.trans (Bool.and_eq_true_iff.2 ⟨by decide, hplain⟩))
  · next h =>
    refine isWord_ofList (fun hnil => h (.inr ?_)) hplain
    simp [hnil, startsWithLetter]

/-- The package clause of a generated file. -/
def packageClause (f : File) (sdk : Sdk) (compiler : String) : Option Line :=
  (f.source sdk compiler).preamble.getLast?

theorem packageClause_eq (f : File) (sdk : Sdk) (compiler : String) :
    packageClause f sdk compiler = some ⟨"package " ++ f.package.name, none⟩ := by
  rw [packageClause, File.preamble_source, List.getLast?_append_of_ne_nil _ (by simp)]
  rfl

/-- It is printed as it is. -/
theorem mem_textLines_packageClause {f : File} (hname : IsWord f.package.name) (sdk : Sdk)
    (compiler : String) :
    ("package " ++ f.package.name).toList ∈ textLines (f.source sdk compiler).content := by
  rw [textLines_content, File.preamble_source, indent_append, File.depthOf_intro,
    List.flatMap_append, textLines_of_isFlat (isFlat_packageClause hname)]
  simp

/-- The text that gives the package of the file of a given name. -/
def packageTextOf (p : Pool) (c : Parameter) (name : String) : Option String :=
  (p.file? name).bind fun d => packageText c d.descriptor

/-- What the text of a file says about the package of the loaded file. -/
theorem exists_of_loads {p : Pool} {c : Parameter} {f : File} {d : Schema.File}
    (h : f.Loads p c d) : ∃ text, packageTextOf p c f.path = some text ∧
      f.package = ⟨String.ofList (pathPart text.toList),
        String.ofList (sanitize (namePart text.toList))⟩ := by
  obtain ⟨text, htext, hpackage⟩ := exists_of_packageOf h.package
  exact ⟨text, Option.bind_eq_some_iff.2 ⟨d, h.found, htext⟩, hpackage⟩

/-- Generated files have a package clause each, and two of them with one import path have
the same iff the names that are given for them are made into one package name. -/
theorem packageClause_eq_iff {c : Parameter} {sdk : Sdk} {r : Request}
    {out : List (String × String)} (h : (generateUnder c sdk r).result = .ok out) :
    ∃ p files, poolOf r = .ok p ∧ (load r c).result = .ok files ∧
      out = output files sdk (compilerText r.compiler) ∧
      (∀ f ∈ files, ∃ clause, packageClause f sdk (compilerText r.compiler) = some clause ∧
        clause.code.toList ∈ textLines (f.source sdk (compilerText r.compiler)).content) ∧
      ∀ f ∈ files, ∀ g ∈ files, f.package.path = g.package.path →
        ∃ s t, packageTextOf p c f.path = some s ∧ packageTextOf p c g.path = some t ∧
          pathPart s.toList = pathPart t.toList ∧
          (packageClause f sdk (compilerText r.compiler) =
              packageClause g sdk (compilerText r.compiler) ↔
            sanitize (namePart s.toList) = sanitize (namePart t.toList)) := by
  obtain ⟨files, hload, -, rfl⟩ := generateUnder_eq_ok.1 h
  obtain ⟨p, hp, hloads⟩ := exists_of_mem_load hload
  refine ⟨p, files, hp, hload, rfl, fun f hf => ?_, fun f hf g hg hpath => ?_⟩
  · obtain ⟨d, hd⟩ := hloads f hf
    obtain ⟨text, -, hpackage⟩ := exists_of_loads hd
    have hname : IsWord f.package.name := by
      rw [hpackage]
      exact isWord_sanitize _
    exact ⟨_, packageClause_eq f _ _, mem_textLines_packageClause hname _ _⟩
  · obtain ⟨d, hd⟩ := hloads f hf
    obtain ⟨e, he⟩ := hloads g hg
    obtain ⟨s, hs, hfs⟩ := exists_of_loads hd
    obtain ⟨t, ht, hgt⟩ := exists_of_loads he
    rw [hfs, hgt, String.ofList_inj] at hpath
    refine ⟨s, t, hs, ht, hpath, ?_⟩
    rw [packageClause_eq, packageClause_eq, hfs, hgt]
    simp [String.ofList_inj]

/-- Two files with one import path and two names are accepted, and their package clauses
differ. -/
theorem packageClause_ne_pairRequest :
    (respond (pairRequest "a.proto" "example.com/x;foo" "b.proto" "example.com/x;bar")).error =
        none ∧
      ∃ f g, (load (pairRequest "a.proto" "example.com/x;foo" "b.proto" "example.com/x;bar")
          {}).result = .ok [f, g] ∧
        f.package.path = g.package.path ∧
        packageClause f {} "(unknown)" ≠ packageClause g {} "(unknown)" := by
  have herror : (respond (pairRequest "a.proto" "example.com/x;foo" "b.proto"
      "example.com/x;bar")).error = none := by
    decide +kernel
  obtain ⟨out, hout, -⟩ := generate_of_respond herror
  obtain ⟨c, hc, hunder⟩ := generate_eq_ok.1 hout
  obtain rfl : ({} : Parameter) = c := Except.ok.inj hc
  obtain ⟨p, files, hp, hload, -, -, hclause⟩ := packageClause_eq_iff hunder
  have hloaded : ((load (pairRequest "a.proto" "example.com/x;foo" "b.proto" "example.com/x;bar")
      {}).result.map fun files => files.map fun f => (f.path, f.package.path)) =
      .ok [("a.proto", "example.com/x"), ("b.proto", "example.com/x")] := by
    decide +kernel
  have htexts : ((poolOf (pairRequest "a.proto" "example.com/x;foo" "b.proto"
      "example.com/x;bar")).map fun p =>
        (packageTextOf p {} "a.proto", packageTextOf p {} "b.proto")) =
      .ok (some "example.com/x;foo", some "example.com/x;bar") := by
    decide +kernel
  rw [hload] at hloaded
  rw [hp] at htexts
  obtain ⟨f, fs, rfl, hf, hfs⟩ := List.map_eq_cons_iff.1 (Except.ok.inj hloaded)
  obtain ⟨g, fs, rfl, hg, hfs⟩ := List.map_eq_cons_iff.1 hfs
  obtain rfl := List.map_eq_nil_iff.1 hfs
  obtain ⟨hfpath, hfhome⟩ := Prod.mk.inj hf
  obtain ⟨hgpath, hghome⟩ := Prod.mk.inj hg
  obtain ⟨hftext, hgtext⟩ := Prod.mk.inj (Except.ok.inj htexts)
  have hpath : f.package.path = g.package.path := hfhome.trans hghome.symm
  obtain ⟨s, t, hs, ht, -, hiff⟩ := hclause f (by simp) g (by simp) hpath
  rw [hfpath, hftext] at hs
  rw [hgpath, hgtext] at ht
  obtain rfl := Option.some.inj hs
  obtain rfl := Option.some.inj ht
  exact ⟨herror, f, g, hload, hpath, fun heq => absurd (hiff.1 heq) (by decide)⟩

end TemporalBindings.Bindings
