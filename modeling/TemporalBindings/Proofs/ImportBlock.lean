import Mathlib.Data.List.TakeWhile
import TemporalBindings.Proofs.Declared
import TemporalBindings.Proofs.References

/-!
# TemporalBindings.Proofs.ImportBlock

The import block of a generated file is closed and exact. Imports are recorded while
lines are written and the block is laid out at the end, yet the text itself tells that
they agree. It is read in two parts:

```
inside     between `import (` and `)`: lines of an alias and a path behind a tab
outside    all other lines, which are code and comments
```

Of the words of code outside the block, those with a point are an alias that is listed
inside, or a variable, before a name. What a file refers to is told by the table of its
references, which knows nothing of imports:

* the block lists the packages of the table without the file's own, and no others;
* it lists each of them once, in the order of the bytes of their paths;
* the references stand among the words of the code in the order of the table, spelled with
  the alias that the block gives to their package, and bare in the file's own.
-/

namespace TemporalBindings.Source

open Text

/-! ## Reading the block -/

/-- The path and the alias on a line of the import block. -/
def readImport? (l : List Char) : Option (String × String) :=
  match stripStart? ['\t'] l with
  | some rest =>
    (cut? ' ' rest).map fun (a, quoted) =>
      (String.ofList (quoted.drop 1).dropLast, String.ofList a)
  | none => none

/-- Whether a line begins the import block. -/
def isBlockStart (l : List Char) : Bool :=
  l = "import (".toList

theorem eq_of_isBlockStart {l : List Char} (h : isBlockStart l = true) : l = "import (".toList :=
  of_decide_eq_true h

/-- Whether a line ends the import block. -/
def isBlockEnd (l : List Char) : Bool :=
  l = [')']

/-- The lines between the beginning and the end of the import block. -/
def insideBlock (ls : List (List Char)) : List (List Char) :=
  ((ls.dropWhile (!isBlockStart ·)).drop 1).takeWhile (!isBlockEnd ·)

/-- The lines before and behind the import block. -/
def outsideBlock (ls : List (List Char)) : List (List Char) :=
  ls.takeWhile (!isBlockStart ·) ++
    ((ls.dropWhile (!isBlockStart ·)).dropWhile (!isBlockEnd ·)).drop 1

/-- The paths and aliases that the import block of a text lists. -/
def listedImports (s : String) : List (String × String) :=
  (insideBlock (textLines s)).filterMap readImport?

/-- The words of a text, without those of its import block. -/
def codeWords (s : String) : List String :=
  wordsOf (outsideBlock (textLines s))

section

variable {before inner after : List (List Char)}
  (hbefore : ∀ l ∈ before, isBlockStart l = false)
include hbefore

/-- Without the beginning of a block all lines are outside. -/
theorem block_of_forall : insideBlock before = [] ∧ outsideBlock before = before := by
  have hall : ∀ l ∈ before, (!isBlockStart l) = true := fun l hl => by rw [hbefore l hl]; rfl
  rw [insideBlock, outsideBlock, List.dropWhile_eq_nil_iff.2 hall,
    List.takeWhile_eq_self_iff.2 hall]
  exact ⟨rfl, List.append_nil _⟩

/-- A block is found between lines that do not look like its ends. -/
theorem block_append (hinner : ∀ l ∈ inner, isBlockEnd l = false) :
    insideBlock (before ++ "import (".toList :: (inner ++ [')'] :: after)) = inner ∧
      outsideBlock (before ++ "import (".toList :: (inner ++ [')'] :: after)) =
        before ++ after := by
  have hskip : ∀ l ∈ before, (!isBlockStart l) = true := fun l hl => by rw [hbefore l hl]; rfl
  have hstay : ∀ l ∈ inner, (!isBlockEnd l) = true := fun l hl => by rw [hinner l hl]; rfl
  have hstart : isBlockStart "import (".toList = true ∧ isBlockEnd "import (".toList = false := by
    decide
  have hend : isBlockEnd [')'] = true := by decide
  generalize "import (".toList = first at hstart ⊢
  rw [insideBlock, outsideBlock, List.dropWhile_append_of_pos hskip,
    List.takeWhile_append_of_pos hskip]
  simp [List.takeWhile_append_of_pos hstay, List.dropWhile_append_of_pos hstay, hstart, hend]

end

/-! ## Lines of the block -/

/-- A line of the import block. -/
def importLine (e : String × String) : String :=
  "\t" ++ e.2 ++ " \"" ++ e.1 ++ "\""

theorem readImport?_importLine {e : String × String} (h : IsWord e.2) :
    readImport? (importLine e).toList = some e := by
  obtain ⟨path, a⟩ := e
  have hblank : ' ' ∉ a.toList := fun hmem => ne_of_class (d := ' ') (h.2 _ hmem) (by decide) rfl
  have htext : (importLine (path, a)).toList =
      '\t' :: (a.toList ++ ' ' :: '"' :: (path.toList ++ ['"'])) := by
    simp [importLine]
  have hcut : cut? ' ' (a.toList ++ ' ' :: '"' :: (path.toList ++ ['"'])) =
      some (a.toList, '"' :: (path.toList ++ ['"'])) :=
    cut?_eq_some_iff.2 ⟨rfl, hblank⟩
  rw [htext, readImport?]
  simp [stripStart?, hcut]

/-- The import block as a list of lines. -/
theorem File.importBlock_eq {f : File} (hpreamble : f.preamble ≠ []) :
    f.importBlock =
      if f.imports.aliases = [] then []
      else ["", "import ("] ++ f.imports.aliases.map importLine ++ [")", ""] := by
  unfold importBlock
  by_cases h : f.imports.aliases = []
  · simp [h]
  · rw [if_neg (by simp [h, hpreamble]), if_neg h]
    simp [Imports.block, importLine]

/-- In the text it has the lines of each import between its two ends. -/
theorem File.textLines_importBlock {f : File} (hpreamble : f.preamble ≠ []) :
    f.importBlock.flatMap textLines =
      if f.imports.aliases = [] then []
      else "import (".toList ::
        (f.imports.aliases.flatMap (fun e => textLines (importLine e)) ++ [[')']]) := by
  have hstart : textLines "import (" = ["import (".toList] := by decide
  have hend : textLines ")" = [[')']] := by decide
  rw [File.importBlock_eq hpreamble]
  split
  · rfl
  · simp [hstart, hend, textLines_empty, List.flatMap_map]

/-- Imports whose paths are single lines have one line each, which is read as it was meant. -/
theorem filterMap_readImport? {es : List (String × String)}
    (h : ∀ e ∈ es, IsWord e.2 ∧ IsSingleLine e.1) :
    (es.flatMap fun e => textLines (importLine e)).filterMap readImport? = es ∧
      ∀ e ∈ es, ∀ l ∈ textLines (importLine e), isBlockEnd l = false := by
  have hline : ∀ e ∈ es, textLines (importLine e) = [(importLine e).toList] := by
    intro e he
    obtain ⟨ha, hpath⟩ := h e he
    refine textLines_of_isSingleLine ?_ (by simp [importLine])
    simp only [importLine, isSingleLine_append]
    exact ⟨⟨⟨⟨by decide, ha.isSingleLine⟩, by decide⟩, hpath⟩, by decide⟩
  constructor
  · have hsome : ∀ e ∈ es, (readImport? ∘ fun e => (importLine e).toList) e = some e :=
      fun e he => readImport?_importLine (h e he).1
    rw [List.flatMap_congr hline, ← List.map_eq_flatMap, List.filterMap_map,
      List.filterMap_congr hsome, List.filterMap_some]
  · intro e he l hl
    rw [hline e he, List.mem_singleton] at hl
    simp [hl, isBlockEnd, importLine]

/-- The two parts of a text, if no other line looks like the beginning of the block and none
inside like its end. -/
theorem File.block_content {f : File} (hpreamble : f.preamble ≠ [])
    (hbefore : ∀ l ∈ (indent 0 f.preamble).flatMap textLines, isBlockStart l = false)
    (hafter : ∀ l ∈ (indent (depthOf 0 f.preamble) f.body).flatMap textLines,
      isBlockStart l = false)
    (hinner : ∀ e ∈ f.imports.aliases, ∀ l ∈ textLines (importLine e), isBlockEnd l = false) :
    insideBlock (textLines f.content) =
        f.imports.aliases.flatMap (fun e => textLines (importLine e)) ∧
      outsideBlock (textLines f.content) = (indent 0 f.preamble).flatMap textLines ++
        (indent (depthOf 0 f.preamble) f.body).flatMap textLines := by
  rw [textLines_content, File.textLines_importBlock hpreamble]
  split
  · next hnone =>
    rw [List.append_nil, hnone]
    exact block_of_forall (List.forall_mem_append.2 ⟨hbefore, hafter⟩)
  · have hlines (before inner after : List (List Char)) :
        before ++ "import (".toList :: (inner ++ [[')']]) ++ after =
          before ++ "import (".toList :: (inner ++ [')'] :: after) := by
      simp
    rw [hlines]
    refine block_append hbefore fun l hl => ?_
    obtain ⟨e, he, hl⟩ := List.mem_flatMap.1 hl
    exact hinner e he l hl

end TemporalBindings.Source

namespace TemporalBindings.Bindings

open Source

variable {sdk : Sdk}

/-! ## Files -/

/-- All lines of a file are those of its items, under the imports that it ends with. -/
theorem File.lines_source (f : File) (sdk : Sdk) (compiler : String) :
    (f.source sdk compiler).preamble ++ (f.source sdk compiler).body =
      (f.items sdk compiler).flatMap (Item.lines (f.imports sdk)) := by
  rw [File.source_eq, File.items_eq, ← List.flatMap_append, List.append_assoc]
  rfl

theorem File.preamble_ne_nil (f : File) (sdk : Sdk) (compiler : String) :
    (f.source sdk compiler).preamble ≠ [] := by
  rw [File.preamble_source]
  simp

/-- Lines of a generated file that are not in the block do not look like its beginning. -/
theorem File.isBlockStart_eq_false {ls : List Line}
    (h : ∀ l ∈ margin ls, isBlockStart l = false) :
    ∀ l ∈ (indent 0 ls).flatMap textLines, isBlockStart l = false := by
  intro l hl
  by_cases hmargin : isAtMargin l = true
  · exact h l (List.mem_filter.2 ⟨hl, hmargin⟩)
  · have htab : l.head? = some '\t' := by simpa [isAtMargin] using hmargin
    refine Bool.eq_false_iff.2 fun hstart => ?_
    rw [eq_of_isBlockStart hstart] at htab
    exact absurd htab (by decide)

theorem isBlockStart_of_slashes {l : List Char} (h : ['/', '/'] <+: l) :
    isBlockStart l = false := by
  obtain ⟨rest, rfl⟩ := h
  simp [isBlockStart]

theorem isBlockStart_of_introduced {l : List Char} (h : introduced? l ≠ none) :
    isBlockStart l = false := by
  refine Bool.eq_false_iff.2 fun hstart => h ?_
  rw [eq_of_isBlockStart hstart]
  decide

section Content

variable {f : File} {compiler : String} (hf : f.WellNamed) (hpath : IsSingleLine f.path)
  (hsdk : sdk.WellNamed) (hcompiler : IsSingleLine compiler)
include hf hpath hsdk hcompiler

/-- The words on the lines of a file are those of its references, in the order of the table,
and others that are not qualified. Before the declarations there is only the package clause. -/
theorem File.refers_items :
    Refers (f.imports sdk) (f.references sdk)
      (itemWords (f.imports sdk) (f.items sdk compiler)) := by
  have hintro : itemWords (f.imports sdk) (f.intro compiler) = [] :=
    itemWords_of_isRemark fun _ => File.isRemark_intro hpath hcompiler
  have hname : IsName f.package.name := hf.1.isName
  have hclause : itemWords (f.imports sdk) [.package f.package.name, .blank] =
      ["package", f.package.name] := by
    simp +decide [itemWords, Item.lines, hname.isWordPart.read]
  have hdecls : Refers (f.imports sdk) (f.references sdk)
      (itemWords (f.imports sdk) ((f.decls sdk).flatMap Decl.items)) := by
    rw [File.decls, List.flatMap_assoc, itemWords_flatMap]
    exact .flatMap fun s hs =>
      Service.refers_decls sdk (File.hasIdentifiers_imports hf hsdk) (hf.2 s hs)
  have hrest : f.items sdk compiler = f.intro compiler ++
      ([.package f.package.name, .blank] ++ (f.decls sdk).flatMap Decl.items) := by
    rw [File.items_eq, File.rest]
    rfl
  rw [hrest, itemWords_append, itemWords_append, hintro, hclause, List.nil_append]
  exact .word rfl (.word hname.isQualified hdecls)

/-- The import block that is read from the text has the lines of the imports, and the words
outside are those of the lines of code. -/
theorem File.block_source
    (hinner : ∀ e ∈ (f.imports sdk).aliases, ∀ l ∈ textLines (importLine e), isBlockEnd l = false) :
    listedImports (f.source sdk compiler).content =
        ((f.imports sdk).aliases.flatMap fun e => textLines (importLine e)).filterMap readImport? ∧
      codeWords (f.source sdk compiler).content =
        itemWords (f.imports sdk) (f.items sdk compiler) := by
  have himports := f.imports_source sdk compiler
  have hbefore : ∀ l ∈ margin (f.source sdk compiler).preamble, isBlockStart l = false := by
    intro l hl
    obtain hl | rfl := File.eq_of_mem_margin_preamble hf hpath hcompiler hl
    · exact isBlockStart_of_slashes hl
    · simp [isBlockStart]
  have hafter : ∀ l ∈ margin (f.source sdk compiler).body, isBlockStart l = false := by
    intro l hl
    rw [File.margin_body hf hsdk, List.mem_flatMap] at hl
    obtain ⟨d, hd, hl⟩ := hl
    obtain ⟨s, hs, hds⟩ := List.mem_flatMap.1 hd
    obtain ⟨docs, behind, hmargin, hdocs⟩ := (File.isLaid_of_mem_decls hf hsdk hd).isWhole.margin_eq
    rw [hmargin] at hl
    simp only [List.mem_append, List.mem_cons, List.not_mem_nil, or_false] at hl
    obtain hl | rfl | rfl := hl
    · exact isBlockStart_of_slashes (hdocs l hl)
    · refine isBlockStart_of_introduced ?_
      rw [Service.introduces_of_mem_decls (hf.2 s hs) hds behind]
      simp
    · decide
  have hdepth : depthOf 0 (f.source sdk compiler).preamble = 0 := File.depthOf_preamble hf.1.isWord
  obtain ⟨hinside, houtside⟩ := Source.File.block_content (f.preamble_ne_nil sdk compiler)
    (File.isBlockStart_eq_false hbefore) (by rw [hdepth]; exact File.isBlockStart_eq_false hafter)
    (himports ▸ hinner)
  have hbody := wordsOf_indent (File.isParted_of_mem_body compiler hf hsdk) 0 []
  rw [List.append_nil] at hbody
  rw [listedImports, codeWords, hinside, houtside, himports, hdepth,
    wordsOf_indent (File.isParted_of_mem_preamble sdk hf hpath hcompiler), hbody,
    ← List.append_assoc, ← List.flatMap_append, File.lines_source]
  exact ⟨rfl, List.append_nil _⟩

end Content

/-! ## References and imports -/

/-- The variables of which generated code uses members: a client, a worker and a run. -/
def receivers : List String :=
  ["c", "w", "run"]

/-- Whether a reference is to a name, or to a member of one of these variables. -/
def Reference.IsNamed : Reference → Prop
  | .ident i => IsName i.name
  | .member x _ => x ∈ receivers

section Table

variable {f : File}

theorem File.isNamed_of_mem_references (hf : f.WellNamed) :
    ∀ r ∈ f.references sdk, r.IsNamed := by
  intro r hr
  obtain ⟨s, hs, hr⟩ := List.mem_flatMap.1 hr
  have hengine : ∀ name ∈ engineNames, IsName name := by decide
  have hmembers : ∀ e ∈ engineMembers, e.1 ∈ receivers := by decide
  refine Service.forall_references (fun p _ name hname => hengine name hname)
    (fun e he => hmembers e he) (fun m hm => ?_) r hr
  obtain ⟨-, hin, hout⟩ := (hf.2 s hs).2 m hm
  exact ⟨hin.1.isName, hout.1.isName, List.mem_cons_self⟩

theorem File.home_imports (f : File) (sdk : Sdk) : (f.imports sdk).home = f.package.path :=
  (Imports.extends_requireAll _ _).home

theorem File.ascending_imports (f : File) (sdk : Sdk) : Ascending (f.imports sdk).aliases :=
  Imports.ascending_requireAll (t := .empty f.package.path) List.Pairwise.nil _

/-- The paths that are imported are those of the packages that are referred to, without the
file's own. -/
theorem File.mem_paths_imports_iff {path : String} :
    path ∈ (f.imports sdk).aliases.map Prod.fst ↔
      path ≠ f.package.path ∧ ∃ i, .ident i ∈ f.references sdk ∧ i.package.path = path := by
  have hmem {i : Ident} : i ∈ (f.decls sdk).flatMap Decl.idents ↔ .ident i ∈ f.references sdk := by
    rw [File.decls, List.flatMap_assoc, File.references, List.mem_flatMap, List.mem_flatMap]
    simp only [Service.mem_idents_decls_iff]
  rw [← Imports.paths, File.imports, Imports.mem_paths_requireAll_empty]
  simp only [hmem]

/-- An identifier of another package is spelled behind the alias of its package. -/
theorem File.spelling_of_mem_imports {i : Ident} {a : String}
    (ha : (i.package.path, a) ∈ (f.imports sdk).aliases) (h : i.package.path ≠ f.package.path) :
    (f.imports sdk).spelling i = a ++ "." ++ i.name := by
  rw [Imports.spelling, File.home_imports, if_neg h,
    (File.ascending_imports f sdk).lookup_eq_some_iff.2 ha]

/-- How an identifier is spelled that is referred to: bare if it is of the file's own package,
and otherwise behind the alias of its package, which there is. -/
theorem File.spelling_of_mem_references {i : Ident} (hi : .ident i ∈ f.references sdk) :
    (i.package.path = f.package.path ∧ (f.imports sdk).spelling i = i.name) ∨
      (i.package.path ≠ f.package.path ∧ ∃ a, (i.package.path, a) ∈ (f.imports sdk).aliases ∧
        (f.imports sdk).spelling i = a ++ "." ++ i.name) := by
  by_cases h : i.package.path = f.package.path
  · exact .inl ⟨h, by rw [Imports.spelling, File.home_imports, if_pos h]⟩
  · obtain ⟨a, ha⟩ := exists_lookup_iff.2 (File.mem_paths_imports_iff.2 ⟨h, i, hi, rfl⟩)
    exact .inr ⟨h, a, mem_of_lookup ha, File.spelling_of_mem_imports (mem_of_lookup ha) h⟩

end Table

/-! ## Exactness -/

/-- The imports that a text says it has. -/
def File.readImports (f : File) (text : String) : Imports :=
  ⟨f.package.path, listedImports text⟩

/-- What it means that the import block of a text generated for a file is closed and exact. -/
structure File.ImportsExact (f : File) (sdk : Sdk) (text : String) : Prop where
  /-- No path is listed twice, and the bytes of the paths ascend. -/
  ascending : ((listedImports text).map fun e => utf8 e.1).Pairwise (· < ·)
  /-- No alias stands for two paths. -/
  apart : ((listedImports text).map Prod.snd).Nodup
  /-- The listed paths are those of the packages that the file refers to, except for its own. -/
  listed : ∀ path, path ∈ (listedImports text).map Prod.fst ↔
    path ≠ f.package.path ∧ ∃ i, .ident i ∈ f.references sdk ∧ i.package.path = path
  /-- An identifier is spelled bare in its own package, and elsewhere behind the alias that the
  block gives to its package. -/
  aliased : ∀ i, .ident i ∈ f.references sdk →
    (i.package.path = f.package.path ∧ (f.readImports text).spelling i = i.name) ∨
      (i.package.path ≠ f.package.path ∧
        ∃ a, (i.package.path, a) ∈ listedImports text ∧
          (f.readImports text).spelling i = a ++ "." ++ i.name)
  /-- What the file refers to stands in the code, spelled so and in the order of the table. -/
  spelled : ((f.references sdk).map (Reference.text (f.readImports text))).Sublist (codeWords text)
  /-- The code has no other qualified words. -/
  qualified : (codeWords text).filter isQualified =
    ((f.references sdk).map (Reference.text (f.readImports text))).filter isQualified
  /-- No import is missing: a qualified word begins with a listed alias or a variable. -/
  closed : ∀ w ∈ codeWords text, isQualified w = true →
    (∃ e ∈ listedImports text, ∃ name, IsName name ∧ w = e.2 ++ "." ++ name) ∨
      ∃ x ∈ receivers, ∃ name, w = x ++ "." ++ name
  /-- No import is unused: every listed alias stands before a name. -/
  used : ∀ e ∈ listedImports text, ∃ name, IsName name ∧ e.2 ++ "." ++ name ∈ codeWords text

/-- Text that lists the imports of a file and whose words have the references of the file among
them has a closed and exact import block. -/
theorem File.importsExact_of_refers {f : File} {text : String} (hf : f.WellNamed)
    (hlisted : listedImports text = (f.imports sdk).aliases)
    (hrefers : Refers (f.imports sdk) (f.references sdk) (codeWords text)) :
    f.ImportsExact sdk text := by
  have himports : f.readImports text = f.imports sdk := by
    rw [File.readImports, hlisted, ← f.home_imports sdk]
  constructor
  case ascending =>
    have hbytes : ((f.imports sdk).aliases.map fun e => utf8 e.1) =
        (f.imports sdk).paths.map utf8 := by
      rw [Imports.paths, List.map_map]
      rfl
    rw [hlisted, hbytes]
    exact List.pairwise_map.2 ((f.ascending_imports sdk).imp utf8_lt_utf8)
  case apart =>
    rw [hlisted]
    exact Imports.nodup_aliases_requireAll (t := .empty f.package.path) List.nodup_nil _
  case listed => exact fun path => hlisted ▸ File.mem_paths_imports_iff
  case aliased =>
    rw [himports, hlisted]
    exact fun i => File.spelling_of_mem_references
  case spelled =>
    rw [himports]
    exact hrefers.sublist
  case qualified =>
    rw [himports]
    exact hrefers.filter_isQualified
  case closed =>
    intro w hw hqualified
    have hword : w ∈ (codeWords text).filter isQualified := List.mem_filter.2 ⟨hw, hqualified⟩
    rw [hrefers.filter_isQualified] at hword
    obtain ⟨r, hr, rfl⟩ := List.mem_map.1 (List.mem_filter.1 hword).1
    have hnamed := File.isNamed_of_mem_references hf r hr
    cases r with
    | ident i =>
      obtain ⟨-, hbare⟩ | ⟨-, a, ha, hspelling⟩ := File.spelling_of_mem_references hr
      · -- a bare name is not qualified
        rw [Reference.text, hbare, IsName.isQualified hnamed] at hqualified
        exact absurd hqualified Bool.false_ne_true
      · exact .inl ⟨(i.package.path, a), hlisted ▸ ha, i.name, hnamed, hspelling⟩
    | member x name => exact .inr ⟨x, hnamed, name, rfl⟩
  case used =>
    intro e he
    rw [hlisted] at he
    obtain ⟨hforeign, i, hi, hpath⟩ := File.mem_paths_imports_iff.1 (List.mem_map_of_mem he)
    have hspelling : (f.imports sdk).spelling i = e.2 ++ "." ++ i.name :=
      File.spelling_of_mem_imports (hpath ▸ he) (hpath ▸ hforeign)
    have hmem := hrefers.sublist.subset (List.mem_map_of_mem hi)
    rw [Reference.text, hspelling] at hmem
    exact ⟨i.name, File.isNamed_of_mem_references hf _ hi, hmem⟩

/-- The import block of every generated file is closed and exact, if names are identifiers and
paths single lines. -/
theorem File.importsExact {f : File} {compiler : String} (hf : f.WellNamed) (hpaths : f.PathsFit)
    (hsdk : sdk.WellNamed) (hsdkPaths : sdk.PathsFit) (hcompiler : IsSingleLine compiler) :
    f.ImportsExact sdk (f.source sdk compiler).content := by
  have hentries : ∀ e ∈ (f.imports sdk).aliases, IsWord e.2 ∧ IsSingleLine e.1 := fun e he =>
    ⟨File.hasWords_imports hf hsdk e he,
      File.isSingleLine_path_of_mem_imports hsdkPaths hpaths he⟩
  obtain ⟨hread, hinner⟩ := filterMap_readImport? hentries
  obtain ⟨hlisted, hwords⟩ := File.block_source hf hpaths.1 hsdk hcompiler hinner
  exact File.importsExact_of_refers hf (hlisted.trans hread)
    (hwords ▸ File.refers_items hf hpaths.1 hsdk hcompiler)

/-- The import block of the file with a worker lists the package of its messages. -/
theorem importsExact_greeterFile :
    greeterFile.ImportsExact {} (greeterFile.source {} "3.21.12").content ∧
      "example.com/types" ∈
        (listedImports (greeterFile.source {} "3.21.12").content).map Prod.fst := by
  have h : greeterFile.ImportsExact {} (greeterFile.source {} "3.21.12").content :=
    File.importsExact (by decide +kernel) (by decide +kernel) Sdk.wellNamed_default
      (by decide +kernel) (by decide)
  exact ⟨h, (h.listed _).2 ⟨by decide, ⟨"Greeting", ⟨"example.com/types", "types"⟩⟩,
    by decide +kernel, rfl⟩⟩

/-! ## Names and paths that are written as they are -/

/-- A text whose block lists a path of which nothing is referred to is not exact. -/
theorem File.not_importsExact {f : File} {text : String} (path : String)
    (hlisted : path ∈ (listedImports text).map Prod.fst)
    (h : ∀ r ∈ f.references sdk, ∀ i ∈ r.ident?, i.package.path ≠ path) :
    ¬ f.ImportsExact sdk text := by
  intro hexact
  obtain ⟨-, i, hi, hpath⟩ := (hexact.listed path).1 hlisted
  exact h _ hi i rfl hpath

/-- A file that has only what is given. -/
def bareFile (path : String) (services : List Service) : File where
  path := path
  deprecated := false
  package := ⟨"example.com/a", "a"⟩
  stem := "a"
  syntaxComments := {}
  packageComments := {}
  services := services

/-- A service without methods, whose client still refers to the engine's. -/
def idleService : Service where
  fullName := "a.S"
  name := "S"
  deprecated := false
  comments := {}
  worker := none
  methods := []

/-- A service with a method that takes a message of a package with this path. -/
def takingService (path : String) : Service :=
  { idleService with
    methods :=
      [{ name := "M"
         input := ⟨"In", ⟨path, "x"⟩⟩
         output := ⟨"Out", ⟨"example.com/a", "a"⟩⟩
         role := .activity
         deprecated := false
         comments := {} }] }

/-- Names of a file that are identifiers are not enough: each of the other conditions is needed
even if all others hold. A path of a message or of the engine may break off its line of the block
and begin another one there, a path of a file or a version of a compiler may begin a block in the
banner, and a package of the engine may have a name that is no alias. -/
theorem exists_not_importsExact :
    (¬ ∀ (f : File) (sdk : Sdk) (compiler : String), f.WellNamed → IsSingleLine f.path →
      sdk.WellNamed → sdk.PathsFit → IsSingleLine compiler →
        f.ImportsExact sdk (f.source sdk compiler).content) ∧
    (¬ ∀ (f : File) (sdk : Sdk) (compiler : String), f.WellNamed → f.PathsFit →
      sdk.WellNamed → IsSingleLine compiler →
        f.ImportsExact sdk (f.source sdk compiler).content) ∧
    (¬ ∀ (f : File) (sdk : Sdk) (compiler : String), f.WellNamed →
      (∀ s ∈ f.services, ∀ m ∈ s.methods,
        IsSingleLine m.input.package.path ∧ IsSingleLine m.output.package.path) →
      sdk.WellNamed → sdk.PathsFit → IsSingleLine compiler →
        f.ImportsExact sdk (f.source sdk compiler).content) ∧
    (¬ ∀ (f : File) (sdk : Sdk) (compiler : String), f.WellNamed → f.PathsFit →
      sdk.WellNamed → sdk.PathsFit →
        f.ImportsExact sdk (f.source sdk compiler).content) ∧
    ¬ ∀ (f : File) (sdk : Sdk) (compiler : String), f.WellNamed → f.PathsFit →
      sdk.PathsFit → IsSingleLine compiler →
        f.ImportsExact sdk (f.source sdk compiler).content := by
  refine ⟨fun h => ?_, fun h => ?_, fun h => ?_, fun h => ?_, fun h => ?_⟩
  · -- a message's path that goes on as a line of the block
    have hnamed : (bareFile "a.proto" [takingService "y\"\n\tz \"z"]).WellNamed := by decide +kernel
    refine File.not_importsExact "z" ?_ (by decide +kernel)
      (h _ {} "(unknown)" hnamed (by decide) Sdk.wellNamed_default (by decide) (by decide))
    rw [(File.block_source hnamed (by decide) Sdk.wellNamed_default (by decide)
      (by decide +kernel)).1]
    decide +kernel
  · -- the engine's path that goes on so
    have hnamed : (bareFile "a.proto" [idleService]).WellNamed := by decide +kernel
    have hsdk : Sdk.WellNamed { client := ⟨"y\"\n\tz \"z", "client"⟩ } := by decide +kernel
    refine File.not_importsExact "z" ?_ (by decide +kernel)
      (h _ _ "(unknown)" hnamed (by decide +kernel) hsdk (by decide))
    rw [(File.block_source hnamed (by decide) hsdk (by decide) (by decide +kernel)).1]
    decide +kernel
  · -- a file's path that begins a block in the banner
    refine File.not_importsExact "z" ?_ (by decide +kernel)
      (h (bareFile "a\nimport (\n\tz \"z\"\n)" []) {} "(unknown)" (by decide +kernel)
        (by decide +kernel) Sdk.wellNamed_default (by decide) (by decide))
    rw [listedImports, textLines_content]
    decide +kernel
  · -- a compiler's version that does
    refine File.not_importsExact "z" ?_ (by decide +kernel)
      (h (bareFile "a.proto" []) {} "3\nimport (\n\tz \"z\"\n)" (by decide +kernel)
        (by decide +kernel) Sdk.wellNamed_default (by decide))
    rw [listedImports, textLines_content]
    decide +kernel
  · -- a name of two words, of which the second is read as the beginning of the path
    refine File.not_importsExact " \"y" ?_ (by decide +kernel)
      (h (bareFile "a.proto" [idleService]) { client := ⟨"y", "x z"⟩ } "(unknown)"
        (by decide +kernel) (by decide +kernel) (by decide +kernel) (by decide))
    rw [listedImports, textLines_content]
    decide +kernel

end TemporalBindings.Bindings
