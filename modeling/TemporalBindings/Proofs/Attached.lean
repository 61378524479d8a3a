import TemporalBindings.Proofs.NormalForm
import TemporalBindings.Proofs.Roles

/-!
# TemporalBindings.Proofs.Attached

The comments above the methods of an interface. A comment in a text belongs to the line of code
that it stands directly above, while the comments of an element are written in two places:

```
leading comment     above the line of the element
trailing comment    behind that line if it has one line, and below it otherwise
```

Nothing separates the methods of an interface, so a comment below one of them, or below the
first line of the interface, stands directly above the next method, whose block is

```
lines below the element before   none if the trailing comment there has at most one line
own lines                        leading comment, `//` and the notice of deprecation
```
-/

namespace TemporalBindings.Source

open Text

/-! ## Attached comments -/

/-- Whether a line of a text is a comment. -/
def isRemarkLine (l : List Char) : Bool :=
  (unindented l).take 2 = ['/', '/']

/-- The lines of code in a text, each with the block of comment lines directly above it. The
first block begins with some lines that have been read. -/
def attached : List (List Char) → List (List Char) → List (List (List Char) × List Char)
  | _, [] => []
  | above, l :: ls =>
    if isRemarkLine l then attached (above ++ [l]) ls
    else if l = [] then attached [] ls
    else (above, l) :: attached [] ls

theorem attached_append_remarks {cs : List (List Char)} (h : ∀ c ∈ cs, isRemarkLine c = true)
    (above ls : List (List Char)) : attached above (cs ++ ls) = attached (above ++ cs) ls := by
  induction cs generalizing above with
  | nil => rw [List.nil_append, List.append_nil]
  | cons c cs ih =>
    rw [List.forall_mem_cons] at h
    rw [List.cons_append, attached, if_pos h.1, ih h.2, List.append_assoc, List.singleton_append]

theorem attached_cons_code {l : List Char} (h : isRemarkLine l = false) (hne : l ≠ [])
    (above ls : List (List Char)) : attached above (l :: ls) = (above, l) :: attached [] ls := by
  rw [attached, if_neg (Bool.eq_false_iff.1 h), if_neg hne]

/-- Lines are read after others with the block that these have left. -/
theorem exists_attached_append (above ls ms : List (List Char)) :
    ∃ left, attached above (ls ++ ms) = attached above ls ++ attached left ms := by
  induction ls generalizing above with
  | nil => exact ⟨above, rfl⟩
  | cons l ls ih =>
    rw [List.cons_append, attached, attached]
    split
    · exact ih _
    · split
      · exact ih _
      · obtain ⟨left, hleft⟩ := ih []
        exact ⟨left, by rw [hleft, List.cons_append]⟩

/-- Elements with comments above and below their lines, one after the other: what is below one
of them is attached to the next. -/
theorem exists_attached_flatMap {α : Type} {own below : α → List (List Char)} {code : α → List Char}
    {xs : List α} (hown : ∀ x ∈ xs, ∀ c ∈ own x, isRemarkLine c = true)
    (hbelow : ∀ x ∈ xs, ∀ c ∈ below x, isRemarkLine c = true)
    (hcode : ∀ x ∈ xs, isRemarkLine (code x) = false ∧ code x ≠ []) (above rest : List (List Char)) :
    ∃ left, attached above (xs.flatMap (fun x => own x ++ code x :: below x) ++ rest) =
      List.zipWith (fun c x => (c ++ own x, code x)) (above :: xs.map below) xs ++
        attached left rest := by
  induction xs generalizing above with
  | nil => exact ⟨above, rfl⟩
  | cons x xs ih =>
    simp only [List.forall_mem_cons] at hown hbelow hcode
    obtain ⟨left, hleft⟩ := ih hown.2 hbelow.2 hcode.2 (below x)
    refine ⟨left, ?_⟩
    rw [List.flatMap_cons, List.append_assoc, List.append_assoc, attached_append_remarks hown.1,
      List.cons_append, attached_cons_code hcode.1.1 hcode.1.2, attached_append_remarks hbelow.1,
      List.nil_append, hleft]
    rfl

/-! ## Trailing comments -/

/-- The comment behind a line of code: one of a single line. -/
def besideOf (comment : String) : Option String :=
  match commentLines comment with
  | [c] => some c
  | _ => none

/-- The comment lines below a line of code: those of a comment of several lines. -/
def belowOf (comment : String) : List String :=
  match commentLines comment with
  | [_] => []
  | cs => cs

theorem withTrailing_eq (code comment : String) : File.withTrailing code comment =
    ⟨code, besideOf comment⟩ :: (belowOf comment).map (⟨·, none⟩) := by
  rw [File.withTrailing, besideOf, belowOf]
  rcases commentLines comment with _ | ⟨c, _ | ⟨d, cs⟩⟩ <;> rfl

theorem belowOf_eq_nil_iff {comment : String} :
    belowOf comment = [] ↔ (commentLines comment).length ≤ 1 := by
  rw [belowOf]
  rcases commentLines comment with _ | ⟨c, _ | ⟨d, cs⟩⟩ <;> simp

theorem mem_commentLines_of_mem_belowOf {comment c : String} (h : c ∈ belowOf comment) :
    c ∈ commentLines comment := by
  rw [belowOf] at h
  split at h
  · cases h
  · exact h

/-! ## Printed comments -/

/-- A comment line as it is printed inside a block. -/
def remarkLine (c : String) : List Char :=
  '\t' :: trim c.toList

theorem isRemarkLine_remarkLine {c rest : String} (h : c = "//" ++ rest) :
    isRemarkLine (remarkLine c) = true := by
  obtain ⟨kept, hkept⟩ := Line.text_of_slashes (l := ⟨c, none⟩) h
  have htrim : trim c.toList = '/' :: '/' :: kept := hkept
  simp [isRemarkLine, remarkLine, htrim, unindented]

/-- Comment lines are printed in the block that they stand in. -/
theorem indent_remarks {cs : List String} (h : ∀ c ∈ cs, ∃ rest, c = "//" ++ rest) :
    (indent 1 (cs.map (⟨·, none⟩))).map String.toList = cs.map remarkLine := by
  induction cs with
  | nil => rfl
  | cons c cs ih =>
    rw [List.forall_mem_cons] at h
    obtain ⟨⟨rest, hc⟩, hcs⟩ := h
    have hflat := Line.flat_of_slashes (l := ⟨c, none⟩) hc
    obtain ⟨kept, hkept⟩ := Line.text_of_slashes (l := ⟨c, none⟩) hc
    have hrender := Line.toList_render (l := ⟨c, none⟩) (by simp [hkept]) 1
    rw [Line.level_of_not_closes 1 hflat.2] at hrender
    rw [List.map_cons, indent, Line.depthAfter_of_flat 1 hflat, List.map_cons, ih hcs, hrender]
    simp [Line.shown, Line.text, Line.behind, remarkLine]

/-- In the text made of some lines, what is read behind a line of code is what follows it: none
of the lines there is blank, so the layout leaves them together. -/
theorem exists_attached_joinLines {lines : List String} {above below block : List (List Char)}
    {l : List Char} (hlines : lines.map String.toList = above ++ l :: (block ++ below))
    (hcode : isRemarkLine l = false) (hl : '\n' ∉ l ∧ l ≠ [])
    (hblock : ∀ b ∈ block, '\n' ∉ b ∧ b ≠ []) :
    ∃ before docs after, attached [] (allLines (joinLines (tidy lines))) =
      before ++ (docs, l) :: attached [] (block ++ after) := by
  obtain ⟨above, rest, rfl, -, hrest⟩ := List.map_eq_append_iff.1 hlines
  obtain ⟨l, rest, rfl, rfl, hbehind⟩ := List.map_eq_cons_iff.1 hrest
  obtain ⟨block, below, rfl, rfl, -⟩ := List.map_eq_append_iff.1 hbehind
  have hne : l ≠ "" := fun h => hl.2 (by simp [h])
  have hblank : "" ∉ block := fun h => (hblock _ (List.mem_map_of_mem h)).2 rfl
  obtain ⟨front, back, htidy⟩ := exists_tidy_append_cons hne hblank above below
  have hsame : block.flatMap (fun b => b.toList.splitOn '\n') = block.map String.toList := by
    rw [List.map_eq_flatMap]
    exact List.flatMap_congr fun b hb =>
      List.splitOn_eq_singleton (hblock _ (List.mem_map_of_mem hb)).1
  obtain ⟨docs, hdocs⟩ := exists_attached_append [] (front.flatMap fun l => l.toList.splitOn '\n')
    (l.toList :: (block.map String.toList ++ back.flatMap fun l => l.toList.splitOn '\n'))
  refine ⟨attached [] (front.flatMap fun l => l.toList.splitOn '\n'), docs,
    back.flatMap fun l => l.toList.splitOn '\n', ?_⟩
  rw [htidy, allLines_joinLines_of_ne_nil (by simp), List.flatMap_append, List.flatMap_cons,
    List.splitOn_eq_singleton hl.1, List.flatMap_append, hsame, List.singleton_append, hdocs,
    attached_cons_code hcode hl.2]

/-! ## Printed declarations -/

theorem nested_belowOf (trailing : String) : Nested ((belowOf trailing).map (⟨·, none⟩)) := by
  refine nested_of_remarks fun l hl => ?_
  obtain ⟨c, hc, rfl⟩ := List.mem_map.1 hl
  exact ⟨isRemarkText_of_mem_commentLines (mem_commentLines_of_mem_belowOf hc), rfl⟩

/-- A declaration is printed as its documentation, its first line and the lines of its block. -/
theorem Decl.IsWhole.indent_items {t : Imports} {d : Decl} (h : d.IsWhole t) :
    indent 0 (d.items.flatMap (Item.lines t)) = indent 0 (d.doc.items.flatMap (Item.lines t)) ++
      Line.render ⟨t.codeText d.head, besideOf d.trailing⟩ 0 ::
        (indent 1 ((belowOf d.trailing).map (⟨·, none⟩)) ++
          indent 1 (d.inside.flatMap (Item.lines t)) ++ ["\x7d", ""]) := by
  have hdoc : Nested (d.doc.items.flatMap (Item.lines t)) := Doc.nested_items h.paragraph
  have hopens := Line.opens_of_isOpening (l := ⟨t.codeText d.head, besideOf d.trailing⟩) h.head
  have hlines : d.items.flatMap (Item.lines t) = d.doc.items.flatMap (Item.lines t) ++
      ⟨t.codeText d.head, besideOf d.trailing⟩ :: ((belowOf d.trailing).map (⟨·, none⟩) ++
        (d.inside.flatMap (Item.lines t) ++ [⟨"\x7d", none⟩, ⟨"", none⟩])) := by
    have hcode : (Item.code d.head d.trailing).lines t = _ := withTrailing_eq _ _
    have hblank : Item.blank.lines t = [⟨"", none⟩] := rfl
    simp [Decl.items, hcode, hblank]
  have hlast : indent 1 [⟨"\x7d", none⟩, ⟨"", none⟩] = ["\x7d", ""] := by decide
  rw [hlines, hdoc.indent_append, indent, Line.depthAfter_of_opens 0 hopens,
    (nested_belowOf d.trailing).indent_append, h.inside.indent_append, hlast, List.append_assoc]

end TemporalBindings.Source

namespace TemporalBindings.Bindings

open Source Text

variable {t : Imports} {sdk : Sdk}

/-! ## Methods -/

/-- The comment lines that belong above the line of a method: its leading comment and, if it is
deprecated, the notice of that. -/
def Method.remarks (m : Method) : List String :=
  commentLines m.comments.leading ++
    if m.deprecated then (if m.comments.leading = "" then [] else ["//"]) ++ [deprecation] else []

/-- The comment lines of a method as they are printed. -/
def Method.ownLines (m : Method) : List (List Char) :=
  m.remarks.map remarkLine

/-- The line of a method in an interface, with the comment behind it. -/
def Method.codeLine (t : Imports) (sdk : Sdk) (m : Method) : List Char :=
  memberLine t sdk m ++ (Line.behind (besideOf m.comments.trailing)).toList

/-- The comment lines below the line of an element. -/
def belowLines (trailing : String) : List (List Char) :=
  (belowOf trailing).map remarkLine

theorem exists_slashes_of_mem_commentLines {text c : String} (h : c ∈ commentLines text) :
    ∃ rest, c = "//" ++ rest := by
  obtain ⟨rest, hrest, -⟩ := exists_of_mem_commentLines h
  exact ⟨rest, hrest⟩

theorem Method.exists_slashes_of_mem_remarks {m : Method} {c : String} (h : c ∈ m.remarks) :
    ∃ rest, c = "//" ++ rest := by
  rw [remarks, List.mem_append] at h
  obtain h | h := h
  · exact exists_slashes_of_mem_commentLines h
  · split at h
    · obtain h | h := List.mem_append.1 h
      · split at h
        · cases h
        · exact ⟨"", by simpa using h⟩
      · exact ⟨" Deprecated: Do not use.", by simpa [deprecation] using h⟩
    · cases h

theorem exists_slashes_of_mem_belowOf {trailing c : String} (h : c ∈ belowOf trailing) :
    ∃ rest, c = "//" ++ rest :=
  exists_slashes_of_mem_commentLines (mem_commentLines_of_mem_belowOf h)

theorem indent_belowOf (trailing : String) :
    (indent 1 ((belowOf trailing).map (⟨·, none⟩))).map String.toList = belowLines trailing :=
  indent_remarks fun _ => exists_slashes_of_mem_belowOf

theorem Method.lines_doc (m : Method) :
    (m.doc []).items.flatMap (Item.lines t) = m.remarks.map (⟨·, none⟩) := by
  have hcomment (text : String) : (Item.comment text).lines t = (commentLines text).map (⟨·, none⟩) :=
    rfl
  unfold Doc.items Method.doc Method.remarks
  cases m.deprecated <;> by_cases hleading : m.comments.leading = "" <;> simp [hleading, hcomment]

/-- The lines of a method as they are printed in an interface. -/
theorem Method.indent_member (ht : t.HasWords) {m : Method} (hm : m.WellNamed) :
    (indent 1 ((m.member sdk).items.flatMap (Item.lines t))).map String.toList =
      m.ownLines ++ m.codeLine t sdk :: belowLines m.comments.trailing := by
  have hflat : IsFlat (t.codeText (m.member sdk).signature.code) :=
    (Method.isFlatLine_member ht hm).isFlat
  have hremarks : (indent 1 (m.remarks.map (⟨·, none⟩))).map String.toList = m.ownLines :=
    indent_remarks fun _ => Method.exists_slashes_of_mem_remarks
  have hnested : Nested (m.remarks.map (⟨·, none⟩)) := by
    rw [← Method.lines_doc (t := t)]
    exact Doc.nested_items (by simp [Method.doc])
  let code : Line := ⟨t.codeText (m.member sdk).signature.code, besideOf m.comments.trailing⟩
  have hcode : code.opens = false ∧ code.closes = false := Line.flat_of_isFlat hflat
  have htext : code.text = code.code.toList := Line.text_of_isFlat hflat
  have hrender : (code.render 1).toList = m.codeLine t sdk := by
    have hne : code.text ≠ [] := fun hnil => by
      have hempty : code.code.toList = [] := htext ▸ hnil
      simpa [hempty] using show code.code.toList.head?.any isPlain = true from hflat.first
    rw [Line.toList_render hne, Line.level_of_not_closes 1 hcode.2, Line.shown, htext, codeLine,
      ← Method.tabbed_member]
    simp [tabbed, code]
  have hlines : (m.member sdk).items.flatMap (Item.lines t) =
      m.remarks.map (⟨·, none⟩) ++ code :: (belowOf m.comments.trailing).map (⟨·, none⟩) := by
    rw [← Method.lines_doc (t := t), Member.items, List.flatMap_append, List.flatMap_singleton]
    exact congrArg _ (withTrailing_eq _ _)
  rw [hlines, hnested.indent_append, indent, Line.depthAfter_of_flat 1 hcode, List.map_append,
    List.map_cons, hremarks, hrender, indent_belowOf]

/-! ## Interfaces -/

/-- The first line of an interface, with the comment behind it. -/
def Service.interfaceLine (s : Service) : List Char :=
  ("type " ++ s.interfaceName ++ " interface \x7b").toList ++
    (Line.behind (besideOf s.comments.trailing)).toList

/-- The lines between the first and the last of an interface. -/
def Service.insideLines (t : Imports) (sdk : Sdk) (s : Service) : List (List Char) :=
  belowLines s.comments.trailing ++ s.methods.flatMap fun m =>
    m.ownLines ++ m.codeLine t sdk :: belowLines m.comments.trailing

/-- The lines of an interface as they are printed. -/
theorem Service.exists_indent_interface (sdk : Sdk) (ht : t.HasWords) {s : Service}
    (hs : s.WellNamed) :
    ∃ docs, (indent 0 ((s.interface sdk).items.flatMap (Item.lines t))).map String.toList =
      docs ++ s.interfaceLine :: (s.insideLines t sdk ++ [['}']] ++ [[]]) := by
  have hwhole : (s.interface sdk).IsWhole t := (Service.isLaid_interface ht hs).isWhole
  have hmethods : (indent 1 ((s.interface sdk).inside.flatMap (Item.lines t))).map String.toList =
      s.methods.flatMap fun m => m.ownLines ++ m.codeLine t sdk :: belowLines m.comments.trailing := by
    rw [interface, Decl.inside, List.flatMap_map, List.flatMap_assoc,
      indent_flatMap fun m hm => (Method.laid_member ht (hs.2 m hm)).nested, List.map_flatMap]
    exact List.flatMap_congr fun m hm => Method.indent_member ht (hs.2 m hm)
  let head : Line := ⟨t.codeText (s.interface sdk).head, besideOf s.comments.trailing⟩
  have hrender : (head.render 0).toList = s.interfaceLine := by
    have htext : head.text = ("type " ++ s.interfaceName ++ " interface \x7b").toList := by
      rw [Line.text_of_isOpening hwhole.head]
      simp [head, interface, Decl.head]
    have hcloses : head.closes = false := (Line.opens_of_isOpening hwhole.head).2
    rw [Line.toList_render (by simp [htext]), Line.level_of_not_closes 0 hcloses, Line.shown, htext]
    rfl
  have htrailing : (s.interface sdk).trailing = s.comments.trailing := rfl
  refine ⟨(indent 0 ((s.interface sdk).doc.items.flatMap (Item.lines t))).map String.toList, ?_⟩
  rw [hwhole.indent_items, htrailing, List.map_append, List.map_cons, List.map_append,
    List.map_append, hrender, indent_belowOf, hmethods, insideLines]
  simp

/-! ## Files -/

/-- The interface of a service stands somewhere in the printed file. -/
theorem File.exists_printed_eq {f : File} (hf : f.WellNamed) (hsdk : sdk.WellNamed)
    (compiler : String) {s : Service} (hs : s ∈ f.services) :
    ∃ above below, (f.source sdk compiler).printed =
      above ++ indent 0 ((s.interface sdk).items.flatMap (Item.lines (f.imports sdk))) ++ below := by
  have hmem : s.interface sdk ∈ f.decls sdk :=
    List.mem_flatMap.2 ⟨s, hs, Service.mem_decls_of_mem_client (by simp [Service.client])⟩
  obtain ⟨ds, ds', hdecls⟩ := List.append_of_mem hmem
  have hblank : Nested [⟨"", none⟩] := nested_blank (t := f.imports sdk)
  have hnested : ∀ d ∈ f.decls sdk, Nested (d.items.flatMap (Item.lines (f.imports sdk))) :=
    fun d hd => (File.isLaid_of_mem_decls hf hsdk hd).isWhole.nested
  let printed (d : Decl) : List String := indent 0 (d.items.flatMap (Item.lines (f.imports sdk)))
  have hbody : indent 0 (f.source sdk compiler).body =
      "" :: (ds.flatMap printed ++ printed (s.interface sdk) ++ ds'.flatMap printed) := by
    rw [File.body_source, hblank.indent_append, indent_flatMap hnested, hdecls]
    simp [printed, indent, Line.render, Line.text, trim]
  refine ⟨indent 0 (f.source sdk compiler).preamble ++ (f.source sdk compiler).importBlock ++
    "" :: ds.flatMap printed, ds'.flatMap printed, ?_⟩
  rw [Source.File.printed, File.depthOf_preamble hf.1.isWord, hbody]
  simp [printed]

/-- The comments that precede the methods of a service: that of the interface precedes the first
method, and that of a method the next. -/
def Service.preceding (s : Service) : List String :=
  s.comments.trailing :: s.methods.map (·.comments.trailing)

/-- Whether a line of code, with the comments directly above it, is that of a method which a
comment precedes. The block has what is below the element before, and then what belongs to the
method; it is the method's own iff the preceding comment has at most one line. -/
structure Method.IsAttached (t : Imports) (sdk : Sdk) (m : Method) (preceding : String)
    (entry : List (List Char) × List Char) : Prop where
  line : entry.2 = m.codeLine t sdk
  block : entry.1 = belowLines preceding ++ m.ownLines
  own : entry.1 = m.ownLines ↔ (commentLines preceding).length ≤ 1

theorem Method.isRemarkLine_codeLine {m : Method} (hm : m.WellNamed) :
    isRemarkLine (m.codeLine t sdk) = false ∧ m.codeLine t sdk ≠ [] := by
  obtain ⟨c, cs, hname⟩ := List.exists_cons_of_ne_nil
    fun hnil => hm.1.isWord.1 (String.toList_eq_nil_iff.1 hnil)
  have hplain : isPlain c = true := hm.1.isWord.2 c (hname ▸ List.mem_cons_self)
  have htab : c ≠ '\t' := ne_of_class hplain (by decide)
  have hslash : c ≠ '/' := ne_of_class hplain (by decide)
  simp [isRemarkLine, unindented, codeLine, memberLine, hname, htab, hslash]

theorem Service.isRemarkLine_interfaceLine (s : Service) :
    isRemarkLine s.interfaceLine = false ∧ s.interfaceLine ≠ [] := by
  simp [isRemarkLine, unindented, interfaceLine]

theorem isRemarkLine_of_mem_belowLines {trailing : String} {l : List Char}
    (h : l ∈ belowLines trailing) : isRemarkLine l = true := by
  obtain ⟨c, hc, rfl⟩ := List.mem_map.1 h
  obtain ⟨rest, hrest⟩ := exists_slashes_of_mem_belowOf hc
  exact isRemarkLine_remarkLine hrest

theorem Method.isRemarkLine_of_mem_ownLines {m : Method} {l : List Char} (h : l ∈ m.ownLines) :
    isRemarkLine l = true := by
  obtain ⟨c, hc, rfl⟩ := List.mem_map.1 h
  obtain ⟨rest, hrest⟩ := Method.exists_slashes_of_mem_remarks hc
  exact isRemarkLine_remarkLine hrest

theorem ne_nil_of_isRemarkLine {l : List Char} (h : isRemarkLine l = true) : l ≠ [] := by
  rintro rfl
  exact absurd h (by decide)

/-- No line of an interface is blank. -/
theorem Service.ne_nil_of_mem_insideLines {s : Service} (hs : s.WellNamed) {l : List Char}
    (h : l ∈ s.insideLines t sdk) : l ≠ [] := by
  rw [insideLines, List.mem_append, List.mem_flatMap] at h
  obtain h | ⟨m, hm, h⟩ := h
  · exact ne_nil_of_isRemarkLine (isRemarkLine_of_mem_belowLines h)
  · rw [List.mem_append, List.mem_cons] at h
    obtain h | rfl | h := h
    · exact ne_nil_of_isRemarkLine (Method.isRemarkLine_of_mem_ownLines h)
    · exact (Method.isRemarkLine_codeLine (hs.2 m hm)).2
    · exact ne_nil_of_isRemarkLine (isRemarkLine_of_mem_belowLines h)

/-- What is read from the lines of an interface. -/
theorem Service.exists_attached_inside (t : Imports) (sdk : Sdk) {s : Service} (hs : s.WellNamed)
    (after : List (List Char)) :
    ∃ entries last, attached [] (s.insideLines t sdk ++ [['}']] ++ after) =
        entries ++ (last, ['}']) :: attached [] after ∧
      List.Forall₂ (fun (p : String × Method) entry => p.2.IsAttached t sdk p.1 entry)
        (s.preceding.zip s.methods) entries := by
  have hown : ∀ m ∈ s.methods, ∀ c ∈ m.ownLines, isRemarkLine c = true :=
    fun m _ c => Method.isRemarkLine_of_mem_ownLines
  have hbelow : ∀ m ∈ s.methods, ∀ c ∈ belowLines m.comments.trailing, isRemarkLine c = true :=
    fun m _ c => isRemarkLine_of_mem_belowLines
  have hcode : ∀ m ∈ s.methods, isRemarkLine (m.codeLine t sdk) = false ∧ m.codeLine t sdk ≠ [] :=
    fun m hm => Method.isRemarkLine_codeLine (hs.2 m hm)
  obtain ⟨last, hlast⟩ := exists_attached_flatMap hown hbelow hcode
    (belowLines s.comments.trailing) (['}'] :: after)
  let entry (p : String × Method) : List (List Char) × List Char :=
    (belowLines p.1 ++ p.2.ownLines, p.2.codeLine t sdk)
  refine ⟨(s.preceding.zip s.methods).map entry, last, ?_, ?_⟩
  · have hpreceding : belowLines s.comments.trailing ::
        s.methods.map (fun m => belowLines m.comments.trailing) = s.preceding.map belowLines := by
      simp [preceding]
    rw [insideLines, List.append_assoc, List.append_assoc,
      attached_append_remarks fun _ => isRemarkLine_of_mem_belowLines, List.nil_append,
      List.singleton_append, hlast, hpreceding, List.zipWith_map_left,
      attached_cons_code (by decide) (by decide), List.map_zip_eq_zipWith]
    rfl
  · refine List.forall₂_map_right_iff.2 (List.forall₂_same.2 fun p _ => ⟨rfl, rfl, ?_⟩)
    rw [List.append_left_eq_self, belowLines, List.map_eq_nil_iff, belowOf_eq_nil_iff]

/-- The comments directly above the methods of every interface, whatever comments a file has. -/
theorem File.exists_attached_interface {f : File} {sdk : Sdk} (hf : f.WellNamed)
    (hsdk : sdk.WellNamed) (compiler : String) {s : Service} (hs : s ∈ f.services) :
    ∃ before docs entries last after,
      attached [] (allLines (f.source sdk compiler).content) =
          before ++ (docs, s.interfaceLine) :: (entries ++ (last, ['}']) :: after) ∧
        List.Forall₂ (fun (p : String × Method) entry =>
            p.2.IsAttached (f.imports sdk) sdk p.1 entry) (s.preceding.zip s.methods) entries := by
  have ht := File.hasWords_imports hf hsdk
  have hlaid := (Service.isLaid_interface ht (hf.2 s hs)).laid_items (d := s.interface sdk)
  obtain ⟨above, below, hprinted⟩ := File.exists_printed_eq hf hsdk compiler hs
  obtain ⟨docs, hinterface⟩ := Service.exists_indent_interface sdk ht (hf.2 s hs)
  have hlines : (f.source sdk compiler).printed.map String.toList =
      (above.map String.toList ++ docs) ++ s.interfaceLine ::
        ((s.insideLines (f.imports sdk) sdk ++ [['}']]) ++ ([] :: below.map String.toList)) := by
    rw [hprinted, List.map_append, List.map_append, hinterface]
    simp
  have hsingle : ∀ l ∈ docs ++ s.interfaceLine ::
      (s.insideLines (f.imports sdk) sdk ++ [['}']] ++ [[]]), '\n' ∉ l := by
    rw [← hinterface]
    exact List.forall_mem_map.2 fun l hl =>
      isSingleLine_of_mem_indent (fun l hl => (hlaid.lines l hl).1.isSingle) hl
  rw [List.forall_mem_append, List.forall_mem_cons, List.forall_mem_append] at hsingle
  obtain ⟨-, hfirst, hblock, -⟩ := hsingle
  have hhead := s.isRemarkLine_interfaceLine
  have hshown : ∀ b ∈ s.insideLines (f.imports sdk) sdk ++ [['}']], b ≠ [] := by
    rw [List.forall_mem_append, List.forall_mem_singleton]
    exact ⟨fun b => Service.ne_nil_of_mem_insideLines (hf.2 s hs), by decide⟩
  obtain ⟨before, docs', after, hread⟩ := exists_attached_joinLines hlines hhead.1
    ⟨hfirst, hhead.2⟩ fun b hb => ⟨hblock b hb, hshown b hb⟩
  obtain ⟨entries, last, hinside, hentries⟩ :=
    Service.exists_attached_inside (f.imports sdk) sdk (hf.2 s hs) after
  rw [hinside] at hread
  exact ⟨before, docs', entries, last, attached [] after, hread, hentries⟩

/-- A method with a comment behind it that does not fit on its line. -/
def chattyMethod : Method where
  name := "Hello"
  input := ⟨"HelloRequest", ⟨"example.com/greeter", "greeter"⟩⟩
  output := ⟨"Greeting", ⟨"example.com/types", "types"⟩⟩
  role := .workflow
  deprecated := true
  comments := { leading := " Says hello.\n", trailing := " Once only.\n Never twice.\n" }

/-- A service with such a method before another. -/
def chattyFile : File :=
  let service : Service := {
    fullName := "greeter.v1.Greeter"
    name := "Greeter"
    deprecated := false
    comments := {}
    worker := none
    methods := [chattyMethod, { chattyMethod with
      name := "Notify"
      deprecated := false
      comments := { leading := " Notifies.\n" } }] }
  { greeterFile with services := [service] }

/-- The comment of the first method is read as a comment of the second. -/
theorem exists_attached_chattyFile :
    chattyFile.WellNamed ∧ ({} : Sdk).WellNamed ∧
      ∃ before docs last after, attached [] (allLines (chattyFile.source {} "3.21.12").content) =
        before ++ (docs, "type GreeterTemporalClient interface \x7b".toList) ::
          ([(["\t// Says hello.", "\t//", "\t// Deprecated: Do not use."].map String.toList,
              "\tHello(ctx workflow.Context, in *HelloRequest) (*types.Greeting, error)".toList),
            (["\t// Once only.", "\t// Never twice.", "\t// Notifies."].map String.toList,
              "\tNotify(ctx workflow.Context, in *HelloRequest) (*types.Greeting, error)".toList)] ++
            (last, ['}']) :: after) := by
  have hnamed : chattyFile.WellNamed := by decide +kernel
  refine ⟨hnamed, Sdk.wellNamed_default, ?_⟩
  obtain ⟨before, docs, entries, last, after, hread, hentries⟩ :=
    File.exists_attached_interface hnamed Sdk.wellNamed_default "3.21.12" List.mem_cons_self
  obtain ⟨⟨hello, helloLine⟩, _, hfirst, hrest, rfl⟩ := List.forall₂_cons_left_iff.1 hentries
  obtain ⟨⟨notify, notifyLine⟩, _, hsecond, hnil, rfl⟩ := List.forall₂_cons_left_iff.1 hrest
  rw [List.forall₂_nil_left_iff.1 hnil] at hread
  obtain rfl : hello = _ := hfirst.block
  obtain rfl : helloLine =
      "\tHello(ctx workflow.Context, in *HelloRequest) (*types.Greeting, error)".toList :=
    hfirst.line.trans (by decide +kernel)
  obtain rfl : notify = _ := hsecond.block
  obtain rfl : notifyLine =
      "\tNotify(ctx workflow.Context, in *HelloRequest) (*types.Greeting, error)".toList :=
    hsecond.line.trans (by decide +kernel)
  exact ⟨before, docs, last, after, hread⟩

end TemporalBindings.Bindings
