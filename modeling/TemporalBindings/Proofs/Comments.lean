import TemporalBindings.Proofs.WithoutComments

/-!
# TemporalBindings.Proofs.Comments

Comments are inert. The code of a generated file is made of three parts, and none of
them depends on a comment:

```
preamble       the package clause
block          the imports, which declarations have with and without comments
body           the bare lines of the declarations
```

So files that differ in their comments only have the same code, indentation included.
Import paths stand in the text as they are; one that leaves a literal or a comment open
behind its line would make code of comments and comments of code.
-/

namespace TemporalBindings.Source

open Text

/-! ## Lines -/

/-- The code in whole tokens on a flat line is that line. -/
theorem codeLines_of_isFlat {s : String} (h : IsFlat s) (htokens : IsTokens s) :
    codeLines s = [s.toList] := by
  have hne : s.toList ≠ [] := fun hs => by simpa [hs] using h.first
  have hblank : isBlank (s.toList.getLast hne) = false := by
    have hlast := h.last
    rw [List.getLast?_eq_getLast_of_ne_nil hne] at hlast
    have hend : isFlatEnd (s.toList.getLast hne) = true := by simpa using hlast
    simp only [isFlatEnd, Bool.and_eq_true] at hend
    simpa using hend.1.1
  have htrimmed : s.toList.rdropWhile isBlank = s.toList :=
    List.rdropWhile_eq_self_iff.2 fun _ => by simp [hblank]
  rw [codeLines_of_uncomment htokens.1 h.single, htrimmed]
  simp [hne]

/-! ## Import paths -/

/-- Whether an import path between quotes ends where it should: behind its line neither a
literal nor a comment goes on. -/
def IsClosedPath (path : String) : Prop :=
  IsClosed ("\"" ++ path ++ "\"")

instance (path : String) : Decidable (IsClosedPath path) :=
  inferInstanceAs (Decidable (IsClosed _))

/-- Without quotes and line breaks a path is inside its quotes to the end. -/
theorem after_quoted_of_ne {cs : List Char} (h : ∀ c ∈ cs, c ≠ '"' ∧ c ≠ '\n') (escaped : Bool) :
    ∃ escaped', (Scan.quoted true escaped).after cs = .quoted true escaped' := by
  induction cs generalizing escaped with
  | nil => exact ⟨escaped, rfl⟩
  | cons c cs ih =>
    obtain ⟨hquote, hbreak⟩ := h c List.mem_cons_self
    have hcs := ih fun d hd => h d (List.mem_cons_of_mem c hd)
    rw [Scan.after_cons, Scan.next, if_neg hbreak]
    cases escaped with
    | true => exact hcs false
    | false =>
      have hend : c ≠ if true = true then '"' else '\'' := hquote
      rw [if_neg Bool.false_ne_true, if_neg hend]
      exact hcs _

/-- Such a path is closed whatever else is in it. -/
theorem isClosedPath_of_ne {path : String} (h : ∀ c ∈ path.toList, c ≠ '"' ∧ c ≠ '\n') :
    IsClosedPath path := by
  obtain ⟨escaped, hafter⟩ := after_quoted_of_ne h false
  have htext : ("\"" ++ path ++ "\"").toList = '"' :: (path.toList ++ ['"']) := by simp
  have hopen : Scan.code.next '"' = .quoted true false := rfl
  rw [IsClosedPath, IsClosed, htext, Scan.after_cons, hopen, Scan.after_append, hafter]
  cases escaped <;> rfl

theorem isClosed_importLine {e : String × String} (ha : IsWord e.2) (h : IsClosedPath e.1) :
    IsClosed (importLine e) := by
  have hfront : IsTokens ("\t" ++ e.2 ++ " ") :=
    (IsTokens.append (by decide) ha.isTokens).append (by decide)
  have hline : importLine e = ("\t" ++ e.2 ++ " ") ++ ("\"" ++ e.1 ++ "\"") := by
    rw [← String.toList_inj]
    simp [importLine]
  rw [hline, IsClosed, String.toList_append, Scan.after_append, hfront.2]
  exact h

/-- The lines of an import block are closed if its paths are. -/
theorem File.isClosed_of_mem_importBlock {f : File} (hpreamble : f.preamble ≠ [])
    (ht : f.imports.HasWords) (hpaths : ∀ e ∈ f.imports.aliases, IsClosedPath e.1) :
    ∀ l ∈ f.importBlock, IsClosed l := by
  intro l hl
  rw [File.importBlock_eq hpreamble] at hl
  split at hl
  · simp at hl
  · simp only [List.mem_append, List.mem_cons, List.not_mem_nil, or_false, List.mem_map] at hl
    obtain ((rfl | rfl) | ⟨e, he, rfl⟩) | rfl | rfl := hl
    · exact isClosed_empty
    · decide
    · exact isClosed_importLine (ht e he) (hpaths e he)
    · decide
    · exact isClosed_empty

end TemporalBindings.Source

namespace TemporalBindings.Bindings

open Source

variable {sdk : Sdk}

/-! ## Code of files -/

/-- Whether the import paths that a file lists are closed. -/
def File.ImportsClosed (f : File) (sdk : Sdk) : Prop :=
  ∀ e ∈ (f.imports sdk).aliases, IsClosedPath e.1

instance (f : File) (sdk : Sdk) : Decidable (f.ImportsClosed sdk) :=
  inferInstanceAs (Decidable (∀ e ∈ _, _))

section Code

variable {f : File} {compiler : String}

/-- The code in the preamble is the package clause. -/
theorem File.codeLines_preamble (sdk : Sdk) (hf : f.WellNamed) (hpath : IsSingleLine f.path)
    (hcompiler : IsSingleLine compiler) :
    (indent 0 (f.source sdk compiler).preamble).flatMap codeLines =
        [("package " ++ f.package.name).toList] ∧
      ∀ l ∈ indent 0 (f.source sdk compiler).preamble, IsClosed l := by
  have hflat := isFlat_packageClause hf.1.isWord
  have htokens := isTokens_packageClause hf.1.isWord
  have hremark := File.isRemarkText_intro sdk hpath hcompiler
  have hbare : (f.source sdk compiler).preamble.filterMap Line.bare? =
      [⟨"package " ++ f.package.name, none⟩] := by
    have hnone := List.filterMap_eq_nil_iff.2 fun l hl =>
      Line.bare?_of_isRemarkText (hremark l hl).1
    have hclause : Line.bare? ⟨"package " ++ f.package.name, none⟩ =
        some ⟨"package " ++ f.package.name, none⟩ := by
      have htext : Line.text ⟨"package " ++ f.package.name, none⟩ ≠ [] := by
        rw [Line.text_of_isFlat hflat]
        simp
      have hcomment : Line.isComment ⟨"package " ++ f.package.name, none⟩ = false :=
        Line.isComment_of_isTokens htokens hflat.single
      exact if_neg (by simp [htext, hcomment])
    rw [File.preamble_source, List.filterMap_append, hnone, List.nil_append,
      List.filterMap_cons_some hclause]
    rfl
  obtain ⟨hcode, hclosed⟩ :=
    codeLines_indent (File.isParted_of_mem_preamble sdk hf hpath hcompiler) 0
  rw [hcode, hbare, indent, indent, render_of_isFlat hflat, List.flatMap_singleton,
    codeLines_of_isFlat hflat htokens]
  exact ⟨rfl, hclosed⟩

/-- The code in the body is that of the bare lines. -/
theorem File.codeLines_body (compiler : String) (hf : f.WellNamed) (hsdk : sdk.WellNamed) :
    (indent 0 (f.source sdk compiler).body).flatMap codeLines =
        (indent 0 (bareLines (f.imports sdk) ((f.decls sdk).flatMap Decl.items))).flatMap
          codeLines ∧
      ∀ l ∈ indent 0 (f.source sdk compiler).body, IsClosed l := by
  have hbare : (f.source sdk compiler).body.filterMap Line.bare? =
      bareLines (f.imports sdk) ((f.decls sdk).flatMap Decl.items) := by
    have hblank : [(⟨"", none⟩ : Line)].filterMap Line.bare? = [] := rfl
    rw [File.body_source, List.filterMap_append, hblank, List.nil_append, bareLines,
      List.flatMap_assoc]
  obtain ⟨hcode, hclosed⟩ := codeLines_indent (File.isParted_of_mem_body compiler hf hsdk) 0
  rw [hcode, hbare]
  exact ⟨rfl, hclosed⟩

/-- The code of a generated file, wherever its import block ends. -/
theorem File.codeLines_source_eq (sdk : Sdk) (hf : f.WellNamed) (hpath : IsSingleLine f.path)
    (hcompiler : IsSingleLine compiler) :
    codeLines (f.source sdk compiler).content =
      [("package " ++ f.package.name).toList] ++
        codeBehind .code ((f.source sdk compiler).importBlock.flatMap textLines) ++
        codeBehind (Scan.code.behind ((f.source sdk compiler).importBlock.flatMap textLines))
          ((indent 0 (f.source sdk compiler).body).flatMap textLines) := by
  obtain ⟨hpreamble, hclosed⟩ := File.codeLines_preamble sdk hf hpath hcompiler
  obtain ⟨hcode, hbehind⟩ := codeBehind_flatMap hclosed
  rw [codeLines_eq, textLines_content, File.depthOf_preamble hf.1.isWord,
    codeBehind_append, codeBehind_append, Scan.behind_append, hbehind, hcode, hpreamble]

/-- The code of a generated file whose import block is closed. -/
theorem File.codeLines_source (hf : f.WellNamed) (hpath : IsSingleLine f.path)
    (hclosed : f.ImportsClosed sdk) (hsdk : sdk.WellNamed) (hcompiler : IsSingleLine compiler) :
    codeLines (f.source sdk compiler).content =
      [("package " ++ f.package.name).toList] ++
        (f.source sdk compiler).importBlock.flatMap codeLines ++
        (indent 0 (bareLines (f.imports sdk) ((f.decls sdk).flatMap Decl.items))).flatMap
          codeLines := by
  have himports := f.imports_source sdk compiler
  have hblockClosed := Source.File.isClosed_of_mem_importBlock
    (f.preamble_ne_nil sdk compiler) (himports ▸ File.hasWords_imports hf hsdk)
    (himports ▸ hclosed)
  obtain ⟨hblock, hbehind⟩ := codeBehind_flatMap hblockClosed
  obtain ⟨hbody, hbodyClosed⟩ := File.codeLines_body compiler hf hsdk
  rw [File.codeLines_source_eq sdk hf hpath hcompiler, hblock, hbehind,
    (codeBehind_flatMap hbodyClosed).1, hbody]

/-- If a literal goes on behind the import block, the first line of the body is code,
whatever it is. -/
theorem File.exists_codeLines_of_raw (hf : f.WellNamed) (hpath : IsSingleLine f.path)
    (hcompiler : IsSingleLine compiler)
    (hraw : Scan.code.behind ((f.source sdk compiler).importBlock.flatMap textLines) = .raw)
    (first : String) (hbody : (indent 0 (f.source sdk compiler).body).take 2 = ["", first])
    (hline : textLines first = [first.toList])
    (hcode : codeBehind .raw [first.toList] = [first.toList]) :
    ∃ rest, codeLines (f.source sdk compiler).content =
      [("package " ++ f.package.name).toList] ++
        codeBehind .code ((f.source sdk compiler).importBlock.flatMap textLines) ++
        first.toList :: rest := by
  have hlines : (indent 0 (f.source sdk compiler).body).flatMap textLines = [first.toList] ++
      ((indent 0 (f.source sdk compiler).body).drop 2).flatMap textLines := by
    conv_lhs => rw [← List.take_append_drop 2 (indent 0 _), hbody]
    simp [hline]
  refine ⟨codeBehind (Scan.raw.behind [first.toList])
    (((indent 0 (f.source sdk compiler).body).drop 2).flatMap textLines), ?_⟩
  rw [File.codeLines_source_eq sdk hf hpath hcompiler, hraw, hlines, codeBehind_append .raw, hcode]
  rfl

/-- The text begins with comments, the banner among them, and the package clause. -/
theorem File.exists_textLines_source (sdk : Sdk) (hf : f.WellNamed) (hpath : IsSingleLine f.path)
    (hcompiler : IsSingleLine compiler) :
    ∃ before after,
      textLines (f.source sdk compiler).content =
          before ++ ("package " ++ f.package.name).toList :: after ∧
        "// Code generated by protoc-gen-temporal-go. DO NOT EDIT.".toList ∈ before ∧
        ∀ l ∈ before, ['/', '/'] <+: l := by
  have hremark := File.isRemarkText_intro sdk hpath hcompiler
  refine ⟨(indent 0 ((f.intro compiler).flatMap (Item.lines (f.imports sdk)))).flatMap textLines,
    (f.source sdk compiler).importBlock.flatMap textLines ++
      (indent (depthOf 0 (f.source sdk compiler).preamble)
        (f.source sdk compiler).body).flatMap textLines, ?_, ?_,
    fun l hl => slashes_of_mem_textLines hremark hl⟩
  · rw [textLines_content, File.preamble_source, (nested_of_remarks hremark).indent_append,
      List.flatMap_append, textLines_of_isFlat (isFlat_packageClause hf.1.isWord)]
    simp
  · have hbanner : line ["// Code generated by ", generatorName, ". DO NOT EDIT."] ∈
        f.intro compiler := by
      rw [File.intro, File.banner]
      simp
    have htext : "// Code generated by protoc-gen-temporal-go. DO NOT EDIT.".toList =
        Line.text ⟨(f.imports sdk).codeText
          ["// Code generated by ", generatorName, ". DO NOT EDIT."], none⟩ := by
      simp only [Imports.codeText_cons, Imports.codeText_nil, Imports.pieceText]
      decide
    rw [textLines_of_remarks hremark, List.mem_filter, htext]
    refine ⟨List.mem_map_of_mem (List.mem_flatMap.2 ⟨_, hbanner, List.mem_singleton_self _⟩), ?_⟩
    rw [← htext]
    decide

end Code

/-- What it means that the comments of a file are inert. -/
structure File.CommentsInert (f : File) (sdk : Sdk) (compiler : String) : Prop where
  /-- Nothing of them ends up as code: the code is what is generated without them. -/
  bare : codeLines (f.source sdk compiler).content =
    codeLines (f.withoutComments.source sdk compiler).content
  /-- Files that differ in their comments only have the same code. -/
  same : ∀ g : File, g.withoutComments = f.withoutComments →
    codeLines (g.source sdk compiler).content = codeLines (f.source sdk compiler).content
  /-- The package clause is the first line of code. -/
  first : (codeLines (f.source sdk compiler).content).head? =
    some ("package " ++ f.package.name).toList
  /-- Nothing but comments stands before it, and the banner is one of these. -/
  before : ∃ before after,
    textLines (f.source sdk compiler).content =
        before ++ ("package " ++ f.package.name).toList :: after ∧
      "// Code generated by protoc-gen-temporal-go. DO NOT EDIT.".toList ∈ before ∧
      ∀ l ∈ before, ['/', '/'] <+: l

/-- The comments of every file are inert, if its names are identifiers, its path a single
line and the import paths that it lists closed. -/
theorem File.commentsInert {f : File} {compiler : String} (hf : f.WellNamed)
    (hpath : IsSingleLine f.path) (hclosed : f.ImportsClosed sdk) (hsdk : sdk.WellNamed)
    (hcompiler : IsSingleLine compiler) : f.CommentsInert sdk compiler := by
  have hbare (g : File) (hg : g.WellNamed) (hpath : IsSingleLine g.path)
      (hclosed : g.ImportsClosed sdk) : codeLines (g.source sdk compiler).content =
        codeLines (g.withoutComments.source sdk compiler).content := by
    have himports := g.imports_withoutComments sdk
    have hclosed' : g.withoutComments.ImportsClosed sdk := by
      rw [ImportsClosed, himports]
      exact hclosed
    rw [File.codeLines_source hg hpath hclosed hsdk hcompiler,
      File.codeLines_source (File.wellNamed_withoutComments.2 hg) hpath hclosed' hsdk hcompiler,
      File.importBlock_withoutComments, himports, File.bareLines_withoutComments]
    rfl
  constructor
  · exact hbare f hf hpath hclosed
  · intro g hg
    have hnamed : g.WellNamed := by
      rw [← File.wellNamed_withoutComments, hg]
      exact File.wellNamed_withoutComments.2 hf
    have hsamePath : g.withoutComments.path = f.withoutComments.path := congrArg File.path hg
    have hlisted : g.ImportsClosed sdk := by
      rw [ImportsClosed, ← File.imports_withoutComments, hg, File.imports_withoutComments]
      exact hclosed
    rw [hbare g hnamed (hsamePath ▸ hpath) hlisted, hbare f hf hpath hclosed, hg]
  · rw [File.codeLines_source hf hpath hclosed hsdk hcompiler]
    rfl
  · exact File.exists_textLines_source sdk hf hpath hcompiler

/-- A file whose only import path besides those of the engine is `path`. Its service may
have a comment. -/
def remarkedFile (path comment : String) : File where
  path := "a.proto"
  deprecated := false
  package := ⟨"example.com/a", "a"⟩
  stem := "a"
  syntaxComments := {}
  packageComments := {}
  services :=
    [{ fullName := "a.S"
       name := "S"
       deprecated := false
       comments := { leading := comment, trailing := comment }
       worker := none
       methods :=
        [{ name := "M"
           input := ⟨"In", ⟨path, "x"⟩⟩
           output := ⟨"Out", ⟨"example.com/a", "a"⟩⟩
           role := .activity
           deprecated := false
           comments := { trailing := comment } }] }]

theorem commentsInert_remarkedFile :
    codeLines ((remarkedFile "example.com/x" " \"`/*\n\x7d (\n").source {} "3.21.12").content =
      codeLines ((remarkedFile "example.com/x" "").source {} "3.21.12").content := by
  have hinert : (remarkedFile "example.com/x" "").CommentsInert {} "3.21.12" :=
    File.commentsInert (by decide +kernel) (by decide) (by decide +kernel) Sdk.wellNamed_default
      (by decide)
  exact hinert.same (remarkedFile "example.com/x" " \"`/*\n\x7d (\n") rfl

/-- A path behind which a literal goes on. -/
def openPath : String :=
  "x\"\n)\n\nconst s = `"

/-- Identifiers for names are not enough: behind an import path that leaves a literal open
the comment of a service ends the literal, and the rest of it is code. -/
theorem exists_codeLines_ne :
    ¬ ∀ (f g : File) (compiler : String), f.WellNamed → g.WellNamed → IsSingleLine f.path →
      IsSingleLine g.path → IsSingleLine compiler → f.withoutComments = g.withoutComments →
        codeLines (f.source {} compiler).content = codeLines (g.source {} compiler).content := by
  intro h
  have hnamed (comment : String) : (remarkedFile openPath comment).WellNamed :=
    File.wellNamed_withoutComments.1 (show (remarkedFile openPath "").WellNamed by decide +kernel)
  have hblock (comment : String) :
      ((remarkedFile openPath comment).source {} "3.21.12").importBlock =
        ((remarkedFile openPath "").source {} "3.21.12").importBlock :=
    ((remarkedFile openPath comment).importBlock_withoutComments {} "3.21.12").symm
  have hraw : Scan.code.behind
      (((remarkedFile openPath "").source {} "3.21.12").importBlock.flatMap textLines) = .raw := by
    decide +kernel
  have hpath : IsSingleLine "a.proto" := by decide
  have hcompiler : IsSingleLine "3.21.12" := by decide
  have hraw' : Scan.code.behind
      (((remarkedFile openPath " `; func Evil() \x7b\x7d\n").source {} "3.21.12").importBlock.flatMap
        textLines) = .raw := by
    rw [hblock]
    exact hraw
  obtain ⟨rest, hcomment⟩ := File.exists_codeLines_of_raw
    (hnamed " `; func Evil() \x7b\x7d\n") hpath hcompiler hraw' "// `; func Evil() \x7b\x7d"
    (by decide +kernel) (by decide) (by decide)
  obtain ⟨rest', hplain⟩ := File.exists_codeLines_of_raw (hnamed "") hpath hcompiler hraw
    "type STemporalClient interface \x7b" (by decide +kernel) (by decide) (by decide)
  have hsame := h _ _ "3.21.12" (hnamed " `; func Evil() \x7b\x7d\n") (hnamed "") hpath hpath
    hcompiler rfl
  rw [hcomment, hplain, hblock] at hsame
  have hfirst := (List.cons.inj (List.append_cancel_left hsame)).1
  exact absurd hfirst (by decide)

end TemporalBindings.Bindings
