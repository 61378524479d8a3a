import TemporalBindings.Proofs.Emitted
import TemporalBindings.Proofs.Outline
import TemporalBindings.Proofs.Unique

/-!
# TemporalBindings.Proofs.Declared

The names that a generated file introduces are the names that its declarations are
checked by. The two are computed apart from each other:

```
introducedNames text   read from the margin of the generated text
f.declarations         listed without generating anything
```

They agree in order and number for every file whose names are identifiers, provided
that nothing written as it is breaks a line. So files that are accepted introduce no
name twice in one package.
-/

namespace TemporalBindings.Bindings

open Source Text

/-! ## Names of declarations -/

/-- The declarations of a service have the names that it declares, in the same order. -/
theorem Service.map_name_decls (s : Service) (sdk : Sdk) :
    (s.decls sdk).map Decl.name = s.declarations := by
  have hhelpers : (s.methods.flatMap fun m => m.role.verbs.map (s.helper sdk m)).map Decl.name =
      s.methods.flatMap s.helperNames := by
    rw [List.map_flatMap]
    refine List.flatMap_congr fun m _ => ?_
    rw [List.map_map]
    rfl
  rw [decls, client, List.map_append, List.map_append, hhelpers, declarations, bootstrap]
  cases s.startedWorker <;> rfl

theorem File.map_name_decls (f : File) (sdk : Sdk) :
    (f.decls sdk).map Decl.name = f.declarations := by
  rw [File.decls, List.map_flatMap]
  exact List.flatMap_congr fun s _ => s.map_name_decls sdk

variable {t : Imports} {sdk : Sdk} {s : Service}

/-- Every declaration of a service introduces its name. -/
theorem Service.introduces_of_mem_decls (hs : s.WellNamed) {d : Decl} (hd : d ∈ s.decls sdk) :
    d.Introduces t := by
  simp only [decls, client, List.mem_append, List.mem_cons, List.not_mem_nil,
    or_false, List.mem_flatMap, List.mem_map] at hd
  obtain hd | (rfl | rfl | rfl) | ⟨m, hm, v, -, rfl⟩ := hd
  · unfold bootstrap at hd
    split at hd
    · simp at hd
    · rw [List.mem_singleton.1 hd]
      exact introduces_func (isName_workerName hs).isWord (by simp)
  · exact introduces_interface (isName_interfaceName hs).isWord
  · exact introduces_struct (isName_structName hs).isWord
  · exact introduces_func (isName_constructorName hs).isWord (by simp)
  · have hname := v.isName_helperName hs.1.isName (hs.2 m hm).1.isName
    refine introduces_func hname.isWord fun r hr => ?_
    obtain rfl := Option.mem_some.1 hr
    have hstruct : ')' ∉ s.structName.toList := fun h =>
      ne_of_class (d := ')') ((isName_structName hs).isWord.2 _ h) (by decide) rfl
    simp [Param.code, Imports.pieceText, hstruct]

/-! ## Before and around the declarations -/

/-- What stands before the package clause is comments, if the path of the file and the
version of the compiler are single lines. -/
theorem File.isRemark_intro {f : File} {compiler : String} (hpath : IsSingleLine f.path)
    (hcompiler : IsSingleLine compiler) {item : Item} (h : item ∈ f.intro compiler) :
    item.IsRemark t := by
  have hcomments {c : Comments} (h : item ∈ c.before) : item.IsRemark t := by
    obtain rfl | ⟨text, rfl⟩ := Comments.isRemark_of_mem_before h
    · exact isRemark_blank
    · exact isRemark_comment text
  rw [File.intro, List.mem_append, List.mem_append] at h
  obtain (h | h) | h := h
  · exact hcomments h
  · simp only [File.banner, List.mem_cons, List.not_mem_nil, or_false] at h
    obtain rfl | rfl | rfl | rfl | rfl | rfl := h
    · refine isRemark_line (" Code generated by " ++ (generatorName ++ ". DO NOT EDIT."))
        ?_ (by decide)
      simp [← String.append_assoc]
    · exact isRemark_line " versions:" (by simp) (by decide)
    · refine isRemark_line (" - " ++ (generatorName ++ (" v" ++ generatorVersion))) ?_
        (by decide)
      simp [← String.append_assoc]
    · refine isRemark_line (" - protoc                 " ++ compiler) ?_ ?_
      · simp [← String.append_assoc]
      · exact isSingleLine_append.2 ⟨by decide, hcompiler⟩
    · split
      · refine isRemark_line (" " ++ (f.path ++ " is a deprecated file.")) ?_ ?_
        · simp [← String.append_assoc]
        · simp only [isSingleLine_append]
          exact ⟨by decide, hpath, by decide⟩
      · refine isRemark_line (" source: " ++ f.path) ?_ ?_
        · simp [← String.append_assoc]
        · exact isSingleLine_append.2 ⟨by decide, hpath⟩
    · exact isRemark_blank
  · exact hcomments h

/-- The import block at the margin is its two ends, if no path breaks a line. -/
theorem isFraming_of_mem_importBlock {file : Source.File} {package : String}
    (ht : file.imports.HasWords) (hpaths : ∀ e ∈ file.imports.aliases, IsSingleLine e.1)
    {l : List Char} (hl : l ∈ (file.importBlock.flatMap textLines).filter isAtMargin) :
    IsFraming package l := by
  have hopen : textLines "import (" = ["import (".toList] := by decide
  have hclose : textLines ")" = [[')']] := by decide
  obtain ⟨hl, hmargin⟩ := List.mem_filter.1 hl
  unfold Source.File.importBlock at hl
  split at hl
  · simp at hl
  · simp only [Imports.block, List.flatMap_append, List.flatMap_singleton, List.flatMap_map,
      textLines_empty, List.nil_append, List.append_nil, hopen, hclose, List.mem_append,
      List.mem_singleton, List.mem_flatMap] at hl
    obtain (rfl | ⟨e, he, hl⟩) | rfl := hl
    · exact .inr (.inr (.inl rfl))
    · have hsingle : IsSingleLine ("\t" ++ e.2 ++ " \"" ++ e.1 ++ "\"") := by
        simp only [isSingleLine_append]
        exact ⟨⟨⟨⟨by decide, (ht e he).isSingleLine⟩, by decide⟩, hpaths e he⟩, by decide⟩
      rw [textLines_of_isSingleLine hsingle (by simp), List.mem_singleton] at hl
      simp [hl, isAtMargin] at hmargin
    · exact .inr (.inr (.inr (.inl rfl)))

/-! ## Files -/

/-- Whether no path in a file breaks a line: neither its own, which stands in the
banner, nor the import path of a message. -/
def File.PathsFit (f : File) : Prop :=
  IsSingleLine f.path ∧ ∀ s ∈ f.services, ∀ m ∈ s.methods,
    IsSingleLine m.input.package.path ∧ IsSingleLine m.output.package.path

/-- Whether no import path of the other packages breaks a line. -/
def Sdk.PathsFit (sdk : Sdk) : Prop :=
  ∀ p ∈ sdk.packages, IsSingleLine p.path

instance (f : File) : Decidable f.PathsFit :=
  inferInstanceAs (Decidable (_ ∧ _))

instance (sdk : Sdk) : Decidable sdk.PathsFit :=
  inferInstanceAs (Decidable (∀ p ∈ _, _))

theorem File.isSingleLine_path_of_mem_imports {f : File} (hsdk : sdk.PathsFit) (hf : f.PathsFit)
    {e : String × String} (he : e ∈ (f.imports sdk).aliases) : IsSingleLine e.1 := by
  obtain he | ⟨i, hi, hpath, -⟩ := Imports.mem_aliases_requireAll he
  · simp [Imports.empty] at he
  · obtain ⟨d, hd, hi⟩ := List.mem_flatMap.1 hi
    obtain ⟨s, hs, hd⟩ := List.mem_flatMap.1 hd
    rw [hpath]
    obtain hp | ⟨m, hm, rfl | rfl⟩ := Service.mentions_of_mem_decls hd hi
    · exact hsdk _ hp
    · exact (hf.2 s hs m hm).1
    · exact (hf.2 s hs m hm).2

/-- The package clause is a flat line. -/
theorem isFlat_packageClause {name : String} (h : IsWord name) :
    IsFlat ("package " ++ name) where
  single := isSingleLine_append.2 ⟨by decide, h.isSingleLine⟩
  first := StartsPlain.append (show StartsPlain "package " by decide) name
  last := h.endsFlat.append_left _

theorem isTokens_packageClause {name : String} (h : IsWord name) :
    IsTokens ("package " ++ name) :=
  IsTokens.append (by decide) h.isTokens

section Parts

variable {f : File} {compiler : String}

theorem File.imports_source (f : File) (sdk : Sdk) (compiler : String) :
    (f.source sdk compiler).imports = f.imports sdk := by
  rw [File.source_eq]

theorem File.preamble_source (f : File) (sdk : Sdk) (compiler : String) :
    (f.source sdk compiler).preamble =
      (f.intro compiler).flatMap (Item.lines (f.imports sdk)) ++
        [⟨"package " ++ f.package.name, none⟩] := by
  rw [File.source_eq, List.flatMap_append]
  rfl

theorem File.body_source (f : File) (sdk : Sdk) (compiler : String) :
    (f.source sdk compiler).body =
      [⟨"", none⟩] ++
        (f.decls sdk).flatMap fun d => d.items.flatMap (Item.lines (f.imports sdk)) := by
  rw [File.source_eq, File.rest, List.flatMap_cons, List.flatMap_assoc]
  rfl

theorem File.isRemarkText_intro (sdk : Sdk) (hpath : IsSingleLine f.path)
    (hcompiler : IsSingleLine compiler) :
    ∀ l ∈ (f.intro compiler).flatMap (Item.lines (f.imports sdk)),
      IsRemarkText l.code ∧ l.trailing = none := by
  intro l hl
  obtain ⟨item, hitem, hl⟩ := List.mem_flatMap.1 hl
  exact File.isRemark_intro hpath hcompiler hitem l hl

/-- Before the package clause every line is blank or begins with two slashes, even if a
comment there is broken in two. -/
theorem File.slashes_of_mem_intro {t : Imports} {l : Line}
    (h : l ∈ (f.intro compiler).flatMap (Item.lines t)) :
    IsRemarkText l.code ∨ ∃ rest, l.code = "//" ++ rest := by
  obtain ⟨item, hitem, hl⟩ := List.mem_flatMap.1 h
  obtain rfl | ⟨text, rfl⟩ | ⟨first, texts, rfl⟩ := File.isRemark_of_mem_intro hitem
  · exact .inl (isRemark_blank l hl).1
  · exact .inl (isRemark_comment text l hl).1
  · rw [lines_line, List.mem_singleton] at hl
    refine .inr ⟨first ++ t.codeText (texts.map .text), ?_⟩
    rw [hl, Imports.codeText_cons, Imports.pieceText, String.append_assoc]

/-- In the preamble code and comments are told apart: the only code is the package clause. -/
theorem File.isParted_of_mem_preamble (sdk : Sdk) (hf : f.WellNamed) (hpath : IsSingleLine f.path)
    (hcompiler : IsSingleLine compiler) :
    ∀ l ∈ (f.source sdk compiler).preamble, l.IsParted := by
  intro l hl
  rw [File.preamble_source, List.mem_append, List.mem_singleton] at hl
  obtain hl | rfl := hl
  · exact .inl (File.isRemarkText_intro sdk hpath hcompiler l hl)
  · exact .inr ⟨isTokens_packageClause hf.1.isWord, (isFlat_packageClause hf.1.isWord).single,
      by simp⟩

/-- So they are in the body, whose lines are those of declarations. -/
theorem File.isParted_of_mem_body (compiler : String) (hf : f.WellNamed) (hsdk : sdk.WellNamed) :
    ∀ l ∈ (f.source sdk compiler).body, l.IsParted := by
  intro l hl
  rw [File.body_source, List.mem_append, List.mem_singleton] at hl
  obtain rfl | hl := hl
  · exact .inl ⟨⟨by decide, .inl rfl⟩, rfl⟩
  · obtain ⟨d, hd, hl⟩ := List.mem_flatMap.1 hl
    exact ((File.isLaid_of_mem_decls hf hsdk hd).laid_items.lines l hl).1

/-- No block begins or ends before the package clause. -/
theorem File.depthOf_intro (f : File) (sdk : Sdk) (compiler : String) :
    depthOf 0 ((f.intro compiler).flatMap (Item.lines (f.imports sdk))) = 0 := by
  refine depthOf_of_flat (fun l hl => ?_) 0
  obtain hremark | ⟨rest, hslashes⟩ := File.slashes_of_mem_intro hl
  · exact Line.flat_of_isRemarkText hremark
  · exact Line.flat_of_slashes hslashes

theorem File.depthOf_preamble (hname : IsWord f.package.name) :
    depthOf 0 (f.source sdk compiler).preamble = 0 := by
  have hflat := Line.flat_of_isFlat (l := ⟨"package " ++ f.package.name, none⟩)
    (isFlat_packageClause hname)
  rw [File.preamble_source, depthOf_append, File.depthOf_intro, depthOf_cons,
    Line.depthAfter_of_flat 0 hflat]
  rfl

/-- The preamble at the margin is comments and the package clause. -/
theorem File.eq_of_mem_margin_preamble (hf : f.WellNamed) (hpath : IsSingleLine f.path)
    (hcompiler : IsSingleLine compiler) {l : List Char}
    (hl : l ∈ margin (f.source sdk compiler).preamble) :
    ['/', '/'] <+: l ∨ l = ("package " ++ f.package.name).toList := by
  have hremark := File.isRemarkText_intro sdk hpath hcompiler
  rw [File.preamble_source, (nested_of_remarks hremark).margin_append,
    margin_of_isFlat (isFlat_packageClause hf.1.isWord), List.mem_append, List.mem_singleton] at hl
  exact hl.imp_left (slashes_of_mem_margin hremark)

/-- The body at the margin is what its declarations are there. -/
theorem File.margin_body (hf : f.WellNamed) (hsdk : sdk.WellNamed) :
    margin (f.source sdk compiler).body =
      (f.decls sdk).flatMap fun d => margin (d.items.flatMap (Item.lines (f.imports sdk))) := by
  have hblank : Nested [⟨"", none⟩] := nested_blank (t := f.imports sdk)
  have hblankMargin : margin [⟨"", none⟩] = [] := by decide
  rw [File.body_source, hblank.margin_append, hblankMargin, List.nil_append]
  exact margin_flatMap fun d hd => (File.isLaid_of_mem_decls hf hsdk hd).isWhole.nested

end Parts

/-- The margin of a generated file: framing lines, and the margins of its declarations. -/
theorem File.exists_marginLines {f : File} {compiler : String} (hf : f.WellNamed)
    (hpaths : f.PathsFit) (hsdk : sdk.WellNamed) (hsdkPaths : sdk.PathsFit)
    (hcompiler : IsSingleLine compiler) :
    ∃ frame, (∀ l ∈ frame, IsFraming f.package.name l) ∧
      marginLines (f.source sdk compiler).content =
        frame ++ (f.decls sdk).flatMap fun d =>
          margin (d.items.flatMap (Item.lines (f.imports sdk))) := by
  refine ⟨margin (f.source sdk compiler).preamble ++
    ((f.source sdk compiler).importBlock.flatMap textLines).filter isAtMargin, fun l hl => ?_, ?_⟩
  · obtain hl | hl := List.mem_append.1 hl
    · obtain hl | rfl := File.eq_of_mem_margin_preamble hf hpaths.1 hcompiler hl
      · exact .inl hl
      · exact .inr (.inl rfl)
    · have himports := f.imports_source sdk compiler
      refine isFraming_of_mem_importBlock (himports ▸ File.hasWords_imports hf hsdk)
        (fun e he => ?_) hl
      exact File.isSingleLine_path_of_mem_imports hsdkPaths hpaths (himports ▸ he)
  · rw [marginLines, textLines_content, File.depthOf_preamble hf.1.isWord,
      List.filter_append, List.filter_append, ← margin, ← margin, File.margin_body hf hsdk]

/-- The outline of a generated file: it introduces what the file declares, and whatever
else stands at the margin is framing. -/
theorem File.outline {f : File} {compiler : String} (hf : f.WellNamed) (hpaths : f.PathsFit)
    (hsdk : sdk.WellNamed) (hsdkPaths : sdk.PathsFit) (hcompiler : IsSingleLine compiler) :
    introducedNames (f.source sdk compiler).content = f.declarations ∧
      ∀ l ∈ marginLines (f.source sdk compiler).content,
        introduced? l = none → IsFraming f.package.name l := by
  obtain ⟨frame, hframe, hmargin⟩ := File.exists_marginLines hf hpaths hsdk hsdkPaths hcompiler
  have hdecl : ∀ d ∈ f.decls sdk,
      (margin (d.items.flatMap (Item.lines (f.imports sdk)))).filterMap introduced? = [d.name] ∧
        ∀ l ∈ margin (d.items.flatMap (Item.lines (f.imports sdk))),
          introduced? l = none → IsFraming f.package.name l := fun d hd => by
    obtain ⟨s, hs, hds⟩ := List.mem_flatMap.1 hd
    exact (File.isLaid_of_mem_decls hf hsdk hd).isWhole.outline
      (Service.introduces_of_mem_decls (hf.2 s hs) hds) _
  have hnone : frame.filterMap introduced? = [] :=
    List.filterMap_eq_nil_iff.2 fun l hl => introduced?_of_isFraming _ (hframe l hl)
  constructor
  · rw [introducedNames, hmargin, List.filterMap_append, hnone, List.nil_append,
      List.filterMap_flatMap, ← File.map_name_decls f sdk, List.map_eq_flatMap]
    exact List.flatMap_congr fun d hd => (hdecl d hd).1
  · intro l hl hnot
    rw [hmargin, List.mem_append, List.mem_flatMap] at hl
    obtain hl | ⟨d, hd, hl⟩ := hl
    · exact hframe l hl
    · exact (hdecl d hd).2 l hl hnot

/-- Generated files introduce exactly what they declare, in the same order and number,
and so accepted files with one import path introduce no name twice. -/
theorem introducedNames_eq_declarations {sdk : Sdk} {compiler : String} (hsdk : sdk.WellNamed)
    (hsdkPaths : sdk.PathsFit) (hcompiler : IsSingleLine compiler) :
    (∀ f : File, f.WellNamed → f.PathsFit →
      introducedNames (f.source sdk compiler).content = f.declarations ∧
        ∀ l ∈ marginLines (f.source sdk compiler).content,
          introduced? l = none → IsFraming f.package.name l) ∧
    ∀ files : List File, (∀ f ∈ files, f.WellNamed ∧ f.PathsFit) → checkUnique files = .ok () →
      ∀ path, (((files.filter (·.services ≠ [])).filter (·.package.path = path)).flatMap fun f =>
        introducedNames (f.source sdk compiler).content).Nodup := by
  have houtline (f : File) (hf : f.WellNamed) (hpaths : f.PathsFit) :=
    File.outline hf hpaths hsdk hsdkPaths hcompiler
  refine ⟨houtline, fun files hfiles haccepted path => ?_⟩
  have hchosen : ((files.filter (·.services ≠ [])).filter (·.package.path = path)).Sublist files :=
    List.filter_sublist.trans List.filter_sublist
  have hnodup := nodup_declarations haccepted hchosen path fun f hf => by
    simpa using (List.mem_filter.1 hf).2
  have hnames : (((files.filter (·.services ≠ [])).filter (·.package.path = path)).flatMap fun f =>
      introducedNames (f.source sdk compiler).content) =
      ((files.filter (·.services ≠ [])).filter (·.package.path = path)).flatMap
        File.declarations := by
    refine List.flatMap_congr fun f hf => ?_
    obtain ⟨hnamed, hpaths⟩ := hfiles f (hchosen.subset hf)
    exact (houtline f hnamed hpaths).1
  rw [hnames]
  exact hnodup

/-- A file with a worker, a workflow and an activity whose messages are in two packages. -/
def greeterFile : File where
  path := "greeter/v1/greeter.proto"
  deprecated := false
  package := ⟨"example.com/greeter", "greeter"⟩
  stem := "greeter/v1/greeter"
  syntaxComments := { leading := " func Evil() \x7b\n" }
  packageComments := {}
  services :=
    [{ fullName := "greeter.v1.Greeter"
       name := "Greeter"
       deprecated := false
       comments := { leading := " Greets.\n type Evil struct \x7b\n" }
       worker := some ⟨"greetings", { buildId := "\x7d\n", workerStopTimeout := some ⟨30, 0⟩ }⟩
       methods :=
        [{ name := "Hello"
           input := ⟨"HelloRequest", ⟨"example.com/greeter", "greeter"⟩⟩
           output := ⟨"Greeting", ⟨"example.com/types", "types"⟩⟩
           role := .workflow
           deprecated := true
           comments := {} },
         { name := "Notify"
           input := ⟨"Greeting", ⟨"example.com/types", "types"⟩⟩
           output := ⟨"Receipt", ⟨"example.com/types", "types"⟩⟩
           role := .activity
           deprecated := false
           comments := { trailing := " (\n" } }] }]

theorem introducedNames_greeterFile :
    introducedNames (greeterFile.source {} "3.21.12").content = greeterFile.declarations ∧
      (introducedNames (greeterFile.source {} "3.21.12").content).Nodup := by
  have haccepted : checkUnique [greeterFile] = .ok () := by decide +kernel
  have hfits : ∀ f ∈ [greeterFile], f.WellNamed ∧ f.PathsFit := by decide +kernel
  have h := introducedNames_eq_declarations Sdk.wellNamed_default (by decide +kernel)
    (show IsSingleLine "3.21.12" by decide)
  have hnodup := h.2 [greeterFile] hfits haccepted "example.com/greeter"
  have hname := h.1 greeterFile (hfits _ List.mem_cons_self).1 (hfits _ List.mem_cons_self).2
  exact ⟨hname.1, by simpa [greeterFile] using hnodup⟩

/-! ## Paths that break a line -/

/-- What stands behind the last line break of an import path is a line of its own, with
the closing quote of the path. -/
theorem File.mem_textLines_of_path {f : File} (compiler : String) {i : Ident}
    (hi : i ∈ (f.decls sdk).flatMap Decl.idents) (hforeign : i.package.path ≠ f.package.path)
    (before after : String) (hpath : i.package.path = before ++ ("\n" ++ after))
    (hafter : IsSingleLine after) :
    (after ++ "\"").toList ∈ textLines (f.source sdk compiler).content := by
  have hlisted : i.package.path ∈ (f.imports sdk).paths :=
    Imports.mem_paths_requireAll.2 (.inr ⟨hforeign, i, hi, rfl⟩)
  obtain ⟨⟨path, a⟩, he, heq⟩ := List.mem_map.1 hlisted
  obtain rfl : path = before ++ ("\n" ++ after) := heq.trans hpath
  have hpreamble : (f.source sdk compiler).preamble ≠ [] := by
    rw [File.source_eq, List.flatMap_append]
    simp [Item.lines]
  have haliases : (f.source sdk compiler).imports.aliases ≠ [] := by
    rw [File.source_eq]
    exact List.ne_nil_of_mem he
  have hentry : "\t" ++ a ++ " \"" ++ (before ++ ("\n" ++ after)) ++ "\"" ∈
      (f.source sdk compiler).importBlock := by
    rw [Source.File.importBlock, if_neg (by simp [hpreamble, haliases]), File.source_eq]
    simp only [Imports.block, List.mem_append, List.mem_map]
    exact .inl (.inr (.inl (.inr ⟨_, he, rfl⟩)))
  have hlast : IsSingleLine (after ++ "\"") := isSingleLine_append.2 ⟨hafter, by decide⟩
  have hsplit : ("\t" ++ a ++ " \"" ++ (before ++ ("\n" ++ after)) ++ "\"").toList =
      ("\t" ++ a ++ " \"" ++ before).toList ++ '\n' :: (after ++ "\"").toList := by
    simp
  rw [textLines_content, List.mem_append, List.mem_append]
  refine .inl (.inr (List.mem_flatMap.2 ⟨_, hentry, ?_⟩))
  rw [textLines, hsplit, List.splitOn_append_cons_self, List.splitOn_eq_singleton hlast,
    List.mem_filter, List.mem_append, List.mem_singleton]
  exact ⟨.inr rfl, by simp⟩

/-- A file whose only method takes a message of a package with such a path. -/
def splitPathFile : File where
  path := "a.proto"
  deprecated := false
  package := ⟨"example.com/a", "a"⟩
  stem := "a"
  syntaxComments := {}
  packageComments := {}
  services :=
    [{ fullName := "a.S"
       name := "S"
       deprecated := false
       comments := {}
       worker := none
       methods :=
        [{ name := "M"
           input := ⟨"In", ⟨"x\nfunc F() \x7b", "x"⟩⟩
           output := ⟨"Out", ⟨"example.com/a", "a"⟩⟩
           role := .activity
           deprecated := false
           comments := {} }] }]

/-- Identifiers for names are not enough: this file introduces a name that it does not
declare. -/
theorem exists_introducedNames_ne_declarations :
    ¬ ∀ (f : File) (compiler : String), f.WellNamed → IsSingleLine f.path →
      IsSingleLine compiler →
        introducedNames (f.source {} compiler).content = f.declarations := by
  intro h
  have hnames := h splitPathFile "(unknown)" (by decide +kernel) (by decide) (by decide)
  have hmention : (⟨"In", ⟨"x\nfunc F() \x7b", "x"⟩⟩ : Ident) ∈
      (splitPathFile.decls {}).flatMap Decl.idents := by
    decide +kernel
  have hline := File.mem_textLines_of_path "(unknown)" hmention (by decide) "x" "func F() \x7b" rfl
    (by decide)
  have hintroduced : "F" ∈ introducedNames (splitPathFile.source {} "(unknown)").content := by
    refine List.mem_filterMap.2 ⟨_, List.mem_filter.2 ⟨hline, by decide⟩, by decide⟩
  have hundeclared : "F" ∉ splitPathFile.declarations := by decide +kernel
  rw [hnames] at hintroduced
  exact hundeclared hintroduced

end TemporalBindings.Bindings
