import TemporalBindings.Proofs.Comments
import TemporalBindings.Proofs.Declared
import TemporalBindings.Proofs.ImportBlock
import TemporalBindings.Proofs.Mentions
import TemporalBindings.Proofs.Settings
import TemporalBindings.Proofs.WithoutComments

/-!
# TemporalBindings.Proofs.Indentation

The indentation of generated files follows their blocks. The layout counts depth by the
ends of lines, and lowers it no further than to zero; a line that begins with a bracket
where nothing is open would shift all that follows it. In generated files there is none:

```
the depth at a line      is the number of braces open before it
the depth at the margin  is zero where a declaration begins and at the end
the levels of code       are the same whatever comments and texts say
```

Texts are the task queue and those among the options of a worker.
-/

namespace TemporalBindings.Source

open Text

variable {t : Imports}

/-! ## Levels of code -/

/-- Whether there is more on a line than comments. -/
def Line.isCode (l : Line) : Bool :=
  l.text ≠ [] && !l.isComment

/-- The levels of the lines of code, in lines inside `depth` blocks. -/
def codeLevels : Nat → List Line → List Nat
  | _, [] => []
  | depth, l :: ls =>
    (if l.isCode then [l.level depth] else []) ++ codeLevels (l.depthAfter depth) ls

/-- What counts of a line for the depth and for the levels of code. -/
def Line.shape (l : Line) : Bool × Bool × Bool :=
  (l.isCode, l.opens, l.closes)

theorem codeLevels_congr {ls ms : List Line} (h : ls.map Line.shape = ms.map Line.shape)
    (depth : Nat) : codeLevels depth ls = codeLevels depth ms := by
  induction ls generalizing ms depth with
  | nil =>
    rw [List.map_eq_nil_iff.1 h.symm]
  | cons l ls ih =>
    cases ms with
    | nil => simp at h
    | cons m ms =>
      obtain ⟨hshape, hrest⟩ := List.cons.inj h
      simp only [Line.shape, Prod.mk.injEq] at hshape
      obtain ⟨hcode, hopens, hcloses⟩ := hshape
      have hlevel : l.level depth = m.level depth := by rw [Line.level, Line.level, hcloses]
      have hafter : l.depthAfter depth = m.depthAfter depth := by
        rw [Line.depthAfter, Line.depthAfter, hopens, hlevel]
      rw [codeLevels, codeLevels, hcode, hlevel, hafter, ih hrest]

/-- Lines of code have the same levels without the comments around them. -/
theorem codeLevels_filterMap_bare? (ls : List Line) (depth : Nat) :
    codeLevels depth (ls.filterMap Line.bare?) = codeLevels depth ls := by
  induction ls generalizing depth with
  | nil => rfl
  | cons l ls ih =>
    by_cases hremark : l.text = [] ∨ l.isComment
    · have hcode : l.isCode = false := by
        obtain hblank | hcomment := hremark
        · simp [Line.isCode, hblank]
        · simp [Line.isCode, hcomment]
      have hflat : l.opens = false ∧ l.closes = false := by
        obtain hblank | hcomment := hremark
        · exact Line.flat_of_text_eq_nil hblank
        · simp [Line.opens, Line.closes, hcomment]
      have hbare : l.bare? = none := if_pos hremark
      rw [List.filterMap_cons_none hbare, ih, codeLevels, hcode,
        Line.depthAfter_of_flat depth hflat]
      rfl
    · have hcode : Line.isCode ⟨l.code, none⟩ = l.isCode := rfl
      have hlevel : Line.level ⟨l.code, none⟩ depth = l.level depth := rfl
      have hafter : Line.depthAfter ⟨l.code, none⟩ depth = l.depthAfter depth := rfl
      have hbare : l.bare? = some ⟨l.code, none⟩ := if_neg hremark
      rw [List.filterMap_cons_some hbare, codeLevels, codeLevels, hcode, hlevel, hafter, ih]

/-! ## Shapes -/

/-- The shapes of the lines of items. -/
def shapes (t : Imports) (items : List Item) : List (Bool × Bool × Bool) :=
  (items.flatMap (Item.lines t)).map Line.shape

theorem shapes_append (items items' : List Item) :
    shapes t (items ++ items') = shapes t items ++ shapes t items' := by
  simp [shapes]

theorem shapes_flatMap {α : Type} (xs : List α) (g : α → List Item) :
    shapes t (xs.flatMap g) = xs.flatMap fun x => shapes t (g x) := by
  rw [shapes, List.flatMap_assoc, List.map_flatMap]
  rfl

/-- All flat lines have the same shape. -/
theorem Line.shape_of_isFlat {l : Line} (h : IsFlat l.code) : l.shape = (true, false, false) := by
  obtain ⟨hopens, hcloses⟩ := flat_of_isFlat h
  have htext := text_of_isFlat h
  have hhead : l.text.head?.any isPlain = true := by
    rw [htext]
    exact h.first
  have hne : l.text ≠ [] := fun hnil => by simp [hnil] at hhead
  simp [shape, isCode, hne, (of_head?_text hhead).1, hopens, hcloses]

theorem shapes_line {c : Code} (h : IsFlat (t.codeText c)) :
    shapes t [line c] = [(true, false, false)] :=
  congrArg (· :: []) (Line.shape_of_isFlat (l := ⟨t.codeText c, none⟩) h)

theorem shapes_map_line {cs : List Code} (h : ∀ c ∈ cs, IsFlat (t.codeText c)) :
    shapes t (cs.map line) = List.replicate cs.length (true, false, false) := by
  induction cs with
  | nil => rfl
  | cons c cs ih =>
    obtain ⟨hc, hcs⟩ := List.forall_mem_cons.1 h
    rw [List.map_cons, ← List.singleton_append, shapes_append, shapes_line hc, ih hcs]
    rfl

/-- A literal has the same shape whatever the values of its fields are. -/
theorem Literal.shapes_items {type : Ident} {fields fields' : List (String × Code)}
    (hlength : fields'.length = fields.length)
    (hfields : ∀ f ∈ fields ++ fields', IsWord f.1 ∧ t.IsSound f.2)
    (before : Code) (after : String) :
    shapes t (Literal.items before ⟨type, fields'⟩ after) =
      shapes t (Literal.items before ⟨type, fields⟩ after) := by
  have hlines (w : Nat) (fs : List (String × Code))
      (hfs : ∀ f ∈ fs, IsWord f.1 ∧ t.IsSound f.2) :
      shapes t (fs.map fun f => line (.text (key w f.1 ++ " ") :: f.2 ++ [.text ","])) =
        List.replicate fs.length (true, false, false) := by
    have hflat : ∀ c ∈ fs.map fun f => .text (key w f.1 ++ " ") :: f.2 ++ [.text ","],
        IsFlat (t.codeText c) := fun c hc => by
      obtain ⟨f, hf, rfl⟩ := List.mem_map.1 hc
      exact (isFlatLine_field w (hfs f hf)).isFlat
    have hshapes := shapes_map_line hflat
    rwa [List.map_map, List.length_map] at hshapes
  cases fields with
  | nil => rw [List.length_eq_zero_iff.1 hlength]
  | cons f fields =>
    cases fields' with
    | nil => simp at hlength
    | cons f' fields' =>
      have hold := hlines (width (f :: fields)) (f :: fields) fun g hg =>
        hfields g (List.mem_append_left _ hg)
      have hnew := hlines (width (f' :: fields')) (f' :: fields') fun g hg =>
        hfields g (List.mem_append_right _ hg)
      have hitems (g : String × Code) (gs : List (String × Code)) :
          Literal.items before ⟨type, g :: gs⟩ after =
            [line (before ++ [.ident type, .text "\x7b"])] ++
              (g :: gs).map (fun f => line (.text (key (width (g :: gs)) f.1 ++ " ") :: f.2 ++
                [.text ","])) ++
              [line [.text ("\x7d" ++ after)]] := rfl
      rw [hitems, hitems, shapes_append, shapes_append, shapes_append, shapes_append, hold, hnew,
        hlength]

end TemporalBindings.Source

namespace TemporalBindings.Worker

/-! ## Texts -/

/-- A text of which only is left whether it is empty. -/
def maskedText (s : String) : String :=
  if s = "" then "" else "text"

theorem maskedText_eq_empty_iff {s : String} : maskedText s = "" ↔ s = "" := by
  unfold maskedText
  split <;> simp [*]

/-- The value of an option without its text. -/
def OptionValue.masked : OptionValue → OptionValue
  | .string s => .string (maskedText s)
  | v => v

/-- The options of a worker without the texts among them. -/
def Options.masked (o : Options) : Options :=
  { o with identity := maskedText o.identity, buildId := maskedText o.buildId }

theorem Options.get_masked (o : Options) (s : Setting) : o.masked.get s = (o.get s).masked := by
  cases s <;> rfl

theorem OptionValue.isZero_masked (v : OptionValue) : v.masked.isZero = v.isZero := by
  cases v with
  | string s => simp [masked, isZero, maskedText_eq_empty_iff]
  | bool b => rfl
  | int n => rfl
  | float d => rfl
  | duration d => rfl

/-- The same settings are written out. -/
theorem Options.nonZero_masked (o : Options) :
    o.masked.nonZero = o.nonZero.map fun e => (e.1, e.2.masked) := by
  rw [nonZero_eq_filterMap, nonZero_eq_filterMap, List.map_filterMap]
  refine List.filterMap_congr fun s _ => ?_
  rw [get_masked, OptionValue.isZero_masked]
  cases (o.get s).isZero <;> rfl

end TemporalBindings.Worker

namespace TemporalBindings.Bindings

open Source Worker

variable {t : Imports} {sdk : Sdk} {s : Service}

/-- A worker without texts. -/
def WorkerConfig.masked (w : WorkerConfig) : WorkerConfig :=
  ⟨maskedText w.taskQueue, w.options.masked⟩

/-- A service without the texts of its worker. -/
def Service.masked (s : Service) : Service :=
  { s with worker := s.worker.map WorkerConfig.masked }

/-- A file without the texts of its workers. -/
def File.masked (f : File) : File :=
  { f with services := f.services.map Service.masked }

/-- A file without comments and without the texts of its workers. -/
def File.withoutTexts (f : File) : File :=
  f.withoutComments.masked

/-! ## Declarations without texts -/

/-- The same workers are started. -/
theorem Service.startedWorker_masked (s : Service) :
    s.masked.startedWorker = s.startedWorker.map WorkerConfig.masked := by
  have hqueue : (fun w : WorkerConfig => decide (w.taskQueue ≠ "")) ∘ WorkerConfig.masked =
      fun w => decide (w.taskQueue ≠ "") := by
    funext w
    simp [WorkerConfig.masked, maskedText_eq_empty_iff]
  rw [startedWorker, masked, Option.filter_map, hqueue]
  rfl

/-- The values of options refer to the same, whatever a text says. -/
theorem valueReferences_masked (sdk : Sdk) (v : OptionValue) :
    valueReferences sdk v.masked = valueReferences sdk v := by
  cases v <;> rfl

/-- A service refers to the same without texts. -/
theorem Service.references_masked (s : Service) (sdk : Sdk) :
    s.masked.references sdk = s.references sdk := by
  have hbootstrap : s.masked.bootstrapReferences sdk = s.bootstrapReferences sdk := by
    have hmethods : s.masked.methods = s.methods := rfl
    unfold bootstrapReferences
    rw [startedWorker_masked]
    cases s.startedWorker with
    | none => rfl
    | some w =>
      simp [WorkerConfig.masked, Options.nonZero_masked, List.flatMap_map, valueReferences_masked,
        hmethods]
  rw [references, hbootstrap]
  rfl

/-- A bootstrap has the same shape: of what a text is part of, the line is flat. -/
theorem Service.shapes_bootstrapBody_masked (ht : t.HasWords) (s : Service) (sdk : Sdk)
    (w : WorkerConfig) :
    shapes t ((s.masked.bootstrapBody sdk w.masked).flatMap Stmt.items) =
      shapes t ((s.bootstrapBody sdk w).flatMap Stmt.items) := by
  have hqueue (q : String) :
      shapes t (Stmt.code ["taskQueue"] [quote q]).items = [(true, false, false)] :=
    shapes_line (isFlatLine_taskQueue q).isFlat
  have hoptions (o : Options) :
      shapes t (Stmt.literal ["opts"] [] (optionsLiteral sdk o.masked) "").items =
        shapes t (Stmt.literal ["opts"] [] (optionsLiteral sdk o) "").items := by
    refine Literal.shapes_items ?_ (fun f hf => ?_) _ _
    · simp [Options.nonZero_masked]
    · exact (List.mem_append.1 hf).elim (isSound_of_mem_optionsLiteral ht o f)
        (isSound_of_mem_optionsLiteral ht o.masked f)
  have hmethods : s.masked.methods = s.methods := rfl
  simp only [bootstrapBody, WorkerConfig.masked, List.flatMap_append, List.flatMap_cons,
    shapes_append, hqueue, hoptions, hmethods]

/-- The declarations of a service without texts: the bootstrap has another body, and the
others are the same. -/
theorem Service.decls_masked (s : Service) (sdk : Sdk) :
    s.masked.decls sdk = s.masked.bootstrap sdk ++ s.client sdk :=
  rfl

theorem Service.shapes_decls_masked (ht : t.HasWords) (s : Service) (sdk : Sdk) :
    shapes t ((s.masked.decls sdk).flatMap Decl.items) =
      shapes t ((s.decls sdk).flatMap Decl.items) := by
  have hbootstrap : shapes t ((s.masked.bootstrap sdk).flatMap Decl.items) =
      shapes t ((s.bootstrap sdk).flatMap Decl.items) := by
    unfold bootstrap
    rw [startedWorker_masked]
    cases s.startedWorker with
    | none => rfl
    | some w =>
      have hbody := shapes_bootstrapBody_masked ht s sdk w
      simp only [Option.map_some, List.flatMap_singleton, Decl.items, shapes_append, Decl.inside,
        hbody]
      rfl
  rw [decls_masked, decls, List.flatMap_append, List.flatMap_append, shapes_append, shapes_append,
    hbootstrap]

/-! ## Files without texts -/

theorem File.imports_masked (f : File) (sdk : Sdk) : f.masked.imports sdk = f.imports sdk := by
  have hidents : (f.masked.decls sdk).flatMap Decl.idents =
      (f.decls sdk).flatMap Decl.idents := by
    rw [File.decls, File.decls, File.masked, List.flatMap_map, List.flatMap_assoc,
      List.flatMap_assoc]
    refine List.flatMap_congr fun s _ => ?_
    rw [Service.idents_decls, Service.idents_decls, Service.references_masked]
  rw [imports, imports, hidents]
  rfl

theorem File.wellNamed_masked {f : File} : f.masked.WellNamed ↔ f.WellNamed := by
  simp only [File.WellNamed, File.masked, List.forall_mem_map]
  rfl

/-- The lines that are written for a file, from its beginning to its end. -/
def File.lines (f : File) (sdk : Sdk) (compiler : String) : List Line :=
  (f.source sdk compiler).preamble ++ (f.source sdk compiler).body

/-- The texts of workers do not change the levels of code. -/
theorem File.codeLevels_masked {f : File} (hf : f.WellNamed) (hsdk : sdk.WellNamed)
    (compiler : String) (depth : Nat) :
    codeLevels depth (f.masked.lines sdk compiler) = codeLevels depth (f.lines sdk compiler) := by
  have ht := File.hasWords_imports hf hsdk
  have hheader : f.masked.header compiler = f.header compiler := rfl
  have hdecls : shapes (f.imports sdk) ((f.masked.decls sdk).flatMap Decl.items) =
      shapes (f.imports sdk) ((f.decls sdk).flatMap Decl.items) := by
    rw [File.decls, File.decls, File.masked, List.flatMap_map, List.flatMap_assoc,
      List.flatMap_assoc, shapes_flatMap, shapes_flatMap]
    exact List.flatMap_congr fun s _ => s.shapes_decls_masked ht sdk
  refine codeLevels_congr ?_ depth
  rw [lines, lines, lines_source, lines_source, imports_masked, ← shapes, ← shapes, items, items,
    hheader, shapes_append, shapes_append, hdecls]

/-- Without comments a file is its package clause and its declarations. -/
theorem File.bareLines_items (t : Imports) (f : File) (sdk : Sdk) (compiler : String) :
    bareLines t (f.items sdk compiler) =
      bareLines t [.package f.package.name, .blank] ++
        bareLines t ((f.decls sdk).flatMap Decl.items) := by
  have hintro : bareLines t (f.intro compiler) = [] := by
    refine List.filterMap_eq_nil_iff.2 fun l hl => ?_
    obtain hremark | ⟨rest, hslashes⟩ := File.slashes_of_mem_intro hl
    · exact Line.bare?_of_isRemarkText hremark
    · exact Line.bare?_of_slashes hslashes
  have hrest : Item.package f.package.name :: f.rest sdk =
      [.package f.package.name, .blank] ++ (f.decls sdk).flatMap Decl.items := rfl
  rw [items_eq, bareLines_append, hintro, List.nil_append, hrest, bareLines_append]

/-- Comments do not change them either. -/
theorem File.codeLevels_withoutComments (f : File) (sdk : Sdk) (compiler : String) (depth : Nat) :
    codeLevels depth (f.withoutComments.lines sdk compiler) =
      codeLevels depth (f.lines sdk compiler) := by
  have hname : f.withoutComments.package.name = f.package.name := rfl
  rw [← codeLevels_filterMap_bare?, ← codeLevels_filterMap_bare? (f.lines sdk compiler), lines,
    lines, lines_source, lines_source, imports_withoutComments, ← bareLines, ← bareLines,
    bareLines_items, bareLines_items, bareLines_withoutComments, hname]

/-- Files that differ in comments and texts only have their code at the same levels. -/
theorem File.codeLevels_eq {f g : File} (hf : f.WellNamed) (hsdk : sdk.WellNamed)
    (compiler : String) (h : g.withoutTexts = f.withoutTexts) :
    codeLevels 0 (g.lines sdk compiler) = codeLevels 0 (f.lines sdk compiler) := by
  have hwithout {f : File} (hf : f.WellNamed) :
      codeLevels 0 (f.withoutTexts.lines sdk compiler) = codeLevels 0 (f.lines sdk compiler) := by
    rw [withoutTexts, codeLevels_masked (wellNamed_withoutComments.2 hf) hsdk,
      codeLevels_withoutComments]
  have hwellNamed (f : File) : f.withoutTexts.WellNamed ↔ f.WellNamed := by
    rw [withoutTexts, wellNamed_masked, wellNamed_withoutComments]
  have hg : g.WellNamed := by rwa [← hwellNamed, h, hwellNamed]
  rw [← hwithout hg, h, hwithout hf]

/-! ## Lines of files -/

section Lines

variable {f : File} {compiler : String} (hf : f.WellNamed) (hpath : IsSingleLine f.path)
  (hcompiler : IsSingleLine compiler)
include hf hpath hcompiler

/-- Up to the declarations there are comments and the package clause. -/
theorem File.header_lines (sdk : Sdk) :
    Nested ((f.header compiler).flatMap (Item.lines (f.imports sdk))) ∧
      ∀ l ∈ (f.header compiler).flatMap (Item.lines (f.imports sdk)), l.IsMatched := by
  have hflat := isFlat_packageClause hf.1.isWord
  have htokens := isTokens_packageClause hf.1.isWord
  have hremark := File.isRemarkText_intro sdk hpath hcompiler
  have hblank : IsRemarkText (⟨"", none⟩ : Line).code := ⟨by decide, .inl rfl⟩
  have hheader : (f.header compiler).flatMap (Item.lines (f.imports sdk)) =
      (f.intro compiler).flatMap (Item.lines (f.imports sdk)) ++
        [⟨"package " ++ f.package.name, none⟩, ⟨"", none⟩] := by
    rw [header, ← intro, List.flatMap_append]
    rfl
  have hclause (opened : List Char) :
      openBehind? .code opened ("package " ++ f.package.name).toList = some opened := by
    rw [String.toList_append, openBehind?_append]
    exact (openAfter?_eq_some_iff.1 (hf.1.isWord.openAfter? opened)).2
  rw [hheader]
  constructor
  · refine (nested_of_remarks hremark).append (.flat ⟨hflat.single, by simp⟩
      (Line.flat_of_isFlat hflat) (nested_of_remarks fun l hl => ?_))
    rw [List.mem_singleton.1 hl]
    exact ⟨hblank, rfl⟩
  · intro l hl
    simp only [List.mem_append, List.mem_cons, List.not_mem_nil, or_false] at hl
    obtain hl | rfl | rfl := hl
    · exact Line.isMatched_of_isRemarkText (hremark l hl).1 (hremark l hl).2
    · exact Line.isMatched_of_flat htokens hflat.single (by simp) (hclause [])
    · exact Line.isMatched_of_isRemarkText hblank rfl

variable (hsdk : sdk.WellNamed)
include hsdk

/-- All blocks of a file are whole, and all of its lines are matched. -/
theorem File.lines_spec :
    Nested (f.lines sdk compiler) ∧ ∀ l ∈ f.lines sdk compiler, l.IsMatched := by
  have hlaid {d : Decl} (hd : d ∈ f.decls sdk) : Laid (f.imports sdk) d.items :=
    (File.isLaid_of_mem_decls hf hsdk hd).laid_items
  obtain ⟨hnested, hmatched⟩ := File.header_lines hf hpath hcompiler sdk
  rw [lines, lines_source, items, List.flatMap_append, List.flatMap_assoc]
  constructor
  · exact hnested.append (Nested.flatMap fun d hd => (hlaid hd).nested)
  · intro l hl
    obtain hl | hl := List.mem_append.1 hl
    · exact hmatched l hl
    · obtain ⟨d, hd, hl⟩ := List.mem_flatMap.1 hl
      exact ((hlaid hd).lines l hl).2

/-- A declaration begins at depth zero: what is written before it, its documentation
included, is whole. -/
theorem File.exists_lines_eq {ds ds' : List Decl} {d : Decl}
    (hdecls : f.decls sdk = ds ++ d :: ds') :
    ∃ behind below, f.lines sdk compiler =
        (f.header compiler ++ ds.flatMap Decl.items ++ d.doc.items).flatMap
            (Item.lines (f.imports sdk)) ++
          ⟨(f.imports sdk).codeText d.head, behind⟩ :: below ∧
      depthOf 0 ((f.header compiler ++ ds.flatMap Decl.items ++ d.doc.items).flatMap
        (Item.lines (f.imports sdk))) = 0 := by
  have hwhole {e : Decl} (he : e ∈ ds ++ d :: ds') : e.IsWhole (f.imports sdk) :=
    (File.isLaid_of_mem_decls hf hsdk (hdecls ▸ he)).isWhole
  obtain ⟨behind, remarks, hhead, -, -⟩ :=
    exists_withTrailing ((f.imports sdk).codeText d.head) d.trailing
  have hcode : (Item.code d.head d.trailing).lines (f.imports sdk) =
      ⟨(f.imports sdk).codeText d.head, behind⟩ :: remarks := hhead
  refine ⟨behind, remarks ++ (d.inside ++ [line ["\x7d"], .blank] ++
    ds'.flatMap Decl.items).flatMap (Item.lines (f.imports sdk)), ?_, ?_⟩
  · rw [lines, lines_source, items, hdecls]
    simp [Decl.items, hcode]
  · have hbefore : Nested ((ds.flatMap Decl.items).flatMap (Item.lines (f.imports sdk))) := by
      rw [List.flatMap_assoc]
      exact Nested.flatMap fun e he => (hwhole (List.mem_append_left _ he)).nested
    have hdoc : Nested (d.doc.items.flatMap (Item.lines (f.imports sdk))) :=
      Doc.nested_items (hwhole (by simp)).paragraph
    rw [List.flatMap_append, List.flatMap_append]
    exact (((File.header_lines hf hpath hcompiler sdk).1.append hbefore).append hdoc).depthOf_eq 0

end Lines

/-! ## Indentation -/

/-- Whether the indentation of a generated file follows its blocks. -/
structure File.IsIndented (f : File) (sdk : Sdk) (compiler : String) : Prop where
  /-- The text is made of the lines as they are printed from depth zero on, with the import
  block behind the preamble. -/
  printed : indent 0 (f.lines sdk compiler) =
      indent 0 (f.source sdk compiler).preamble ++ indent 0 (f.source sdk compiler).body ∧
    (f.source sdk compiler).content = joinLines (tidy (indent 0 (f.source sdk compiler).preamble ++
      (f.source sdk compiler).importBlock ++ indent 0 (f.source sdk compiler).body))
  /-- The depth is not lowered at zero. -/
  lowered : ∀ above l below, f.lines sdk compiler = above ++ l :: below → l.closes = true →
    0 < depthOf 0 above
  /-- It is zero where a declaration begins, behind all that is written before. -/
  starts : ∀ ds d ds', f.decls sdk = ds ++ d :: ds' →
    ∃ behind below, f.lines sdk compiler =
        (f.header compiler ++ ds.flatMap Decl.items ++ d.doc.items).flatMap
            (Item.lines (f.imports sdk)) ++
          ⟨(f.imports sdk).codeText d.head, behind⟩ :: below ∧
      depthOf 0 ((f.header compiler ++ ds.flatMap Decl.items ++ d.doc.items).flatMap
        (Item.lines (f.imports sdk))) = 0
  /-- It is zero at the end, where all brackets are closed. -/
  ends : depthOf 0 (f.lines sdk compiler) = 0 ∧
    openBehind? .code [] (joinLines (indent 0 (f.lines sdk compiler))).toList = some []
  /-- A line is printed behind one tab for each brace that is open before it and that it does
  not close, and no other bracket is open there. -/
  indented : ∀ above s below, indent 0 (f.lines sdk compiler) = above ++ s :: below → s ≠ "" →
    openBehind? .code [] (joinLines above).toList =
      some (List.replicate (tabs s.toList + if beginsClosing s.toList then 1 else 0) '}')
  /-- No comment and no text of a worker changes the levels of code. -/
  inert : ∀ g : File, g.withoutTexts = f.withoutTexts →
    codeLevels 0 (g.lines sdk compiler) = codeLevels 0 (f.lines sdk compiler)

/-- The indentation of every generated file follows its blocks, if its names are identifiers
and nothing in its banner breaks a line. -/
theorem File.isIndented {f : File} {sdk : Sdk} {compiler : String} (hf : f.WellNamed)
    (hsdk : sdk.WellNamed) (hpath : IsSingleLine f.path) (hcompiler : IsSingleLine compiler) :
    f.IsIndented sdk compiler := by
  obtain ⟨hnested, hmatched⟩ := File.lines_spec hf hpath hcompiler hsdk
  have hcloses : ClosesOpen 0 (f.lines sdk compiler) := hnested.closesOpen 0
  have hend : depthOf 0 (f.lines sdk compiler) = 0 := hnested.depthOf_eq 0
  constructor
  case printed =>
    have hpreamble : depthOf 0 (f.source sdk compiler).preamble = 0 :=
      File.depthOf_preamble hf.1.isWord
    rw [lines, indent_append, Source.File.content, hpreamble]
    exact ⟨rfl, rfl⟩
  case lowered =>
    intro above l below hlines hl
    rw [hlines] at hcloses
    exact (closesOpen_append.1 hcloses).2.1 hl
  case starts => exact fun ds d ds' => File.exists_lines_eq hf hpath hcompiler hsdk
  case ends =>
    have hopen := openBehind?_indent hmatched hcloses
    rw [hend] at hopen
    exact ⟨hend, (openBehind?_joinLines [] _).trans hopen⟩
  case indented => exact fun above s below => openBehind?_above hmatched hcloses
  case inert => exact fun g => File.codeLevels_eq hf hsdk compiler

/-- A worker with a closing brace among its texts, and comments that open blocks. -/
theorem File.isIndented_greeterFile : greeterFile.IsIndented {} "3.21.12" :=
  File.isIndented (by decide +kernel) Sdk.wellNamed_default (by decide) (by decide)

end TemporalBindings.Bindings
