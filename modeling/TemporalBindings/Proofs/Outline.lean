import TemporalBindings.Proofs.Blocks

/-!
# TemporalBindings.Proofs.Outline

The outline of a generated file: the lines at its margin and the names that they
introduce. It is read from the text alone:

```
type N ...            introduces N
func N(...            introduces N
func (receiver) N(... introduces N
```

Any other line at the margin is a comment, the package clause, one end of the import
block, or the brace at the end of a declaration. Of a declaration that is one block
only the first line introduces something, and that is its name.
-/

namespace TemporalBindings.Source

open Text

/-! ## Reading an outline -/

/-- Whether a line begins at the margin. -/
def isAtMargin (l : List Char) : Bool :=
  l.head? ≠ some '\t'

/-- The lines of a text that are not empty and not indented. -/
def marginLines (s : String) : List (List Char) :=
  (textLines s).filter isAtMargin

/-- The name that a line at the margin introduces. -/
def introduced? (l : List Char) : Option String :=
  match stripStart? "type ".toList l, stripStart? "func (".toList l,
    stripStart? "func ".toList l with
  | some rest, _, _ => some (String.ofList (rest.takeWhile (· ≠ ' ')))
  | none, some rest, _ =>
    (cut? ')' rest).map fun (_, rest) => String.ofList ((rest.drop 1).takeWhile (· ≠ '('))
  | none, none, some rest => some (String.ofList (rest.takeWhile (· ≠ '(')))
  | none, none, none => none

/-- The names that a text introduces at its margin, from top to bottom. -/
def introducedNames (s : String) : List String :=
  (marginLines s).filterMap introduced?

/-- The lines at the margin that introduce nothing: a comment, the package clause, the
ends of the import block, the end of a declaration. -/
def IsFraming (package : String) (l : List Char) : Prop :=
  ['/', '/'] <+: l ∨ l = ("package " ++ package).toList ∨ l = "import (".toList ∨ l = [')'] ∨
    l = ['}']

theorem introduced?_of_isFraming (package : String) {l : List Char} (h : IsFraming package l) :
    introduced? l = none := by
  obtain ⟨rest, rfl⟩ | rfl | rfl | rfl | rfl := h
  · simp [introduced?, stripStart?]
  · rw [String.toList_append]
    simp [introduced?, stripStart?]
  · decide
  · decide
  · decide

/-! ## Words in lines -/

/-- A word ends before the next character that is not plain. -/
theorem takeWhile_word {name : String} (h : IsWord name) {c : Char} (hc : isPlain c = false)
    (rest : List Char) :
    (name.toList ++ c :: rest).takeWhile (fun d => !decide (d = c)) = name.toList := by
  have hall : ∀ d ∈ name.toList, (!decide (d = c)) = true := fun d hd => by
    simpa using ne_of_class (h.2 d hd) hc
  rw [List.takeWhile_append_of_pos hall]
  simp

/-- The three ways to introduce a name. -/
theorem introduced?_type {name : String} (h : IsWord name) (rest : List Char) :
    introduced? ("type ".toList ++ (name.toList ++ ' ' :: rest)) = some name := by
  have htake := takeWhile_word h (c := ' ') (by decide) rest
  simp [introduced?, stripStart?, htake]

theorem introduced?_func {name : String} (h : IsWord name) (rest : List Char) :
    introduced? ("func ".toList ++ (name.toList ++ '(' :: rest)) = some name := by
  have htake := takeWhile_word h (c := '(') (by decide) rest
  obtain ⟨c, cs, hcs⟩ := List.exists_cons_of_ne_nil fun hs => h.1 (String.toList_eq_nil_iff.1 hs)
  have hparen : '(' ≠ c := (ne_of_class (h.2 c (by simp [hcs])) (by decide)).symm
  have hname : String.ofList (c :: cs) = name := by rw [← hcs, String.ofList_toList]
  rw [hcs] at htake ⊢
  rw [List.cons_append] at htake ⊢
  simp [introduced?, stripStart?, hparen, htake, hname]

theorem introduced?_method {name : String} (h : IsWord name) {receiver : List Char}
    (hreceiver : ')' ∉ receiver) (rest : List Char) :
    introduced? ("func (".toList ++ (receiver ++ ')' :: ' ' :: (name.toList ++ '(' :: rest))) =
      some name := by
  have htake := takeWhile_word h (c := '(') (by decide) rest
  have hcut : cut? ')' (receiver ++ ')' :: ' ' :: (name.toList ++ '(' :: rest)) =
      some (receiver, ' ' :: (name.toList ++ '(' :: rest)) :=
    cut?_eq_some_iff.2 ⟨rfl, hreceiver⟩
  simp [introduced?, stripStart?, hcut, htake]

/-! ## Margins of lines -/

/-- The lines at the margin that lines are printed as outside of all blocks. -/
def margin (ls : List Line) : List (List Char) :=
  ((indent 0 ls).flatMap textLines).filter isAtMargin

theorem Nested.margin_append {ls : List Line} (h : Nested ls) (ms : List Line) :
    margin (ls ++ ms) = margin ls ++ margin ms := by
  rw [margin, h.indent_append, List.flatMap_append, List.filter_append]
  rfl

theorem margin_flatMap {α : Type} {xs : List α} {f : α → List Line}
    (h : ∀ x ∈ xs, Nested (f x)) : margin (xs.flatMap f) = xs.flatMap fun x => margin (f x) := by
  rw [margin, indent_flatMap h, List.flatMap_assoc, List.filter_flatMap]
  rfl

/-- Nothing inside a block is at the margin. -/
theorem Nested.filter_isAtMargin {ls : List Line} (h : Nested ls) {depth : Nat}
    (hdepth : 0 < depth) : ((indent depth ls).flatMap textLines).filter isAtMargin = [] := by
  refine List.filter_eq_nil_iff.2 fun l hl => ?_
  simp [isAtMargin, h.head?_of_mem_textLines hdepth hl]

/-- A line that needs no trimming, as it is printed outside of all blocks. -/
theorem textLines_render_zero {l : Line} (hsingle : l.IsSingle) (htext : l.text = l.code.toList)
    (hne : l.code ≠ "") : ∃ behind, textLines (l.render 0) = [l.code.toList ++ behind] := by
  have hlevel : l.level 0 = 0 := by
    unfold Line.level
    split <;> rfl
  have hnil : l.text ≠ [] := by
    rw [htext]
    exact fun h => hne (String.toList_eq_nil_iff.1 h)
  obtain ⟨behind, hbehind⟩ : ∃ behind, l.render 0 = l.code ++ behind := by
    rw [Line.render, if_neg hnil, hlevel, htext]
    simp only [List.replicate_zero, List.nil_append, String.ofList_toList]
    exact ⟨_, rfl⟩
  refine ⟨behind.toList, ?_⟩
  rw [textLines_of_isSingleLine (Line.isSingleLine_render hsingle 0), hbehind, String.toList_append]
  rw [hbehind]
  exact fun h => hne (String.append_eq_empty_iff.1 h).1

/-- A flat line without a comment is printed as it is. -/
theorem render_of_isFlat {s : String} (h : IsFlat s) : Line.render ⟨s, none⟩ 0 = s := by
  have htext : Line.text ⟨s, none⟩ = s.toList := Line.text_of_isFlat h
  have hlevel := Line.level_of_not_closes (l := ⟨s, none⟩) 0 (Line.flat_of_isFlat h).2
  by_cases hs : s = ""
  · subst hs
    rfl
  · rw [Line.render, htext, if_neg fun hnil => hs (String.toList_eq_nil_iff.1 hnil), hlevel]
    simp

theorem textLines_of_isFlat {s : String} (h : IsFlat s) :
    (indent 0 [⟨s, none⟩]).flatMap textLines = [s.toList] := by
  have hne : s ≠ "" := fun hs => by simpa [hs] using h.first
  rw [indent, indent, render_of_isFlat h, List.flatMap_singleton,
    textLines_of_isSingleLine h.single hne]

/-- It is at the margin. -/
theorem margin_of_isFlat {s : String} (h : IsFlat s) : margin [⟨s, none⟩] = [s.toList] := by
  have hplain := h.first
  obtain ⟨c, cs, hcs⟩ : ∃ c cs, s.toList = c :: cs := by
    cases hs : s.toList with
    | nil => simp [hs] at hplain
    | cons c cs => exact ⟨c, cs, rfl⟩
  have hc : c ≠ '\t' := ne_of_class (by simpa [hcs] using hplain) (by decide)
  rw [margin, textLines_of_isFlat h]
  simp [isAtMargin, hcs, hc]

/-- Remarks are printed as they are, without the blank ones. -/
theorem textLines_of_remarks {ls : List Line}
    (h : ∀ l ∈ ls, IsRemarkText l.code ∧ l.trailing = none) :
    (indent 0 ls).flatMap textLines = (ls.map Line.text).filter (· ≠ []) := by
  induction ls with
  | nil => rfl
  | cons l ls ih =>
    obtain ⟨hcode, htrailing⟩ := h l List.mem_cons_self
    have hsingle : l.IsSingle := ⟨hcode.single, by simp [htrailing]⟩
    have hflat := Line.flat_of_isRemarkText hcode
    have hprinted : textLines (l.render 0) = [l.text].filter (· ≠ []) := by
      by_cases hblank : l.text = []
      · simp [Line.render, hblank]
      · have hrender : l.render 0 = String.ofList l.text := by
          simp [Line.render, hblank, htrailing, Line.level_of_not_closes 0 hflat.2]
        rw [textLines_of_isSingleLine (Line.isSingleLine_render hsingle 0) (by simp [hrender, hblank])]
        simp [hrender, hblank]
    rw [indent, Line.depthAfter_of_flat 0 hflat, List.flatMap_cons, hprinted,
      ih fun m hm => h m (List.mem_cons_of_mem l hm), ← List.filter_append]
    rfl

/-- They are comments at the margin. -/
theorem slashes_of_mem_textLines {ls : List Line}
    (h : ∀ l ∈ ls, IsRemarkText l.code ∧ l.trailing = none) {text : List Char}
    (htext : text ∈ (indent 0 ls).flatMap textLines) : ['/', '/'] <+: text := by
  rw [textLines_of_remarks h] at htext
  obtain ⟨hmem, hne⟩ := List.mem_filter.1 htext
  obtain ⟨l, hl, rfl⟩ := List.mem_map.1 hmem
  obtain hblank | ⟨rest, hslashes⟩ := Line.text_of_isRemarkText (h l hl).1
  · simp [hblank] at hne
  · exact ⟨rest, by rw [hslashes]; rfl⟩

theorem slashes_of_mem_margin {ls : List Line}
    (h : ∀ l ∈ ls, IsRemarkText l.code ∧ l.trailing = none) {text : List Char}
    (htext : text ∈ margin ls) : ['/', '/'] <+: text :=
  slashes_of_mem_textLines h (List.mem_filter.1 htext).1

variable {t : Imports}

/-- Of a block only the first and the last line are at the margin. -/
theorem margin_block (trailing : String) {c : Code} {closing : String} {inner : List Item}
    (h : IsOpening (t.codeText c)) (hinner : Nested (inner.flatMap (Item.lines t)))
    (hclosing : IsClosing closing) :
    ∃ behind, margin (([Item.code c trailing] ++ inner ++ [line [.text closing]]).flatMap
      (Item.lines t)) = [(t.codeText c).toList ++ behind, closing.toList] := by
  obtain ⟨comment, below, hlines, hcomment, hbelow⟩ := exists_withTrailing (t.codeText c) trailing
  have hfirst : (Item.code c trailing).lines t = ⟨t.codeText c, comment⟩ :: below := hlines
  have hinside := (nested_of_remarks hbelow).append hinner
  have hne : t.codeText c ≠ "" := fun hempty => by
    have := h.last
    simp [hempty] at this
  have hstart : isAtMargin (t.codeText c).toList = true := by
    have hplain := h.first
    cases hhead : (t.codeText c).toList.head? with
    | none => simp [isAtMargin, hhead]
    | some d =>
      have hd : isPlain d = true := by simpa [hhead] using hplain
      simp [isAtMargin, hhead, ne_of_class (d := '\t') hd (by decide)]
  obtain ⟨behind, hbehind⟩ := textLines_render_zero (l := ⟨t.codeText c, comment⟩)
    ⟨h.single, fun d hd => (hcomment d hd).single⟩ (Line.text_of_isOpening h) hne
  have hlast : textLines (Line.render ⟨closing, none⟩ 1) = [closing.toList] ∧
      isAtMargin closing.toList = true := by
    obtain rfl | rfl := hclosing <;> decide
  have hhead : isAtMargin ((t.codeText c).toList ++ behind) = true := by
    obtain ⟨d, ds, hds⟩ := List.exists_cons_of_ne_nil fun hs => hne (String.toList_eq_nil_iff.1 hs)
    simpa [isAtMargin, hds] using hstart
  have hall : (([Item.code c trailing] ++ inner ++ [line [.text closing]]).flatMap
      (Item.lines t)) = ⟨t.codeText c, comment⟩ ::
        ((below ++ inner.flatMap (Item.lines t)) ++ [⟨closing, none⟩]) := by
    simp [hfirst]
  refine ⟨behind, ?_⟩
  rw [hall, margin, indent, Line.depthAfter_of_opens 0 (Line.opens_of_isOpening h),
    hinside.indent_append, List.flatMap_cons, List.flatMap_append, List.filter_append,
    List.filter_append, hinside.filter_isAtMargin Nat.one_pos, hbehind]
  simp [indent, hlast, hhead]

/-! ## Declarations -/

/-- Whether the first line of a declaration introduces its name, whatever stands behind. -/
def Decl.Introduces (t : Imports) (d : Decl) : Prop :=
  ∀ behind, introduced? ((t.codeText d.head).toList ++ behind) = some d.name

theorem introduces_interface {doc : Doc} {name trailing : String} {members : List Member}
    (h : IsWord name) : (Decl.interface doc name trailing members).Introduces t := by
  intro behind
  have hread := introduced?_type h ("interface \x7b".toList ++ behind)
  simpa [Decl.head, Decl.name] using hread

theorem introduces_struct {name : String} {fields : List Param} (h : IsWord name) :
    (Decl.struct name fields).Introduces t := by
  intro behind
  have hread := introduced?_type h ("struct \x7b".toList ++ behind)
  simpa [Decl.head, Decl.name] using hread

/-- The text of a signature is its name and what follows its first parenthesis. -/
theorem exists_codeText_signature (sig : Signature) :
    ∃ rest, t.codeText sig.code = sig.name ++ ("(" ++ rest) := by
  obtain ⟨rest, hrest⟩ : ∃ rest, sig.code = .text sig.name :: .text "(" :: rest := ⟨_, rfl⟩
  refine ⟨t.codeText rest, ?_⟩
  rw [hrest, Imports.codeText_cons, Imports.codeText_cons]
  rfl

theorem introduces_func {f : Func} (h : IsWord f.signature.name)
    (hreceiver : ∀ r ∈ f.receiver, ')' ∉ (t.codeText r.code).toList) :
    (Decl.func f).Introduces t := by
  intro behind
  obtain ⟨rest, hrest⟩ := exists_codeText_signature (t := t) f.signature
  cases hr : f.receiver with
  | none =>
    have hread := introduced?_func h ((rest ++ " \x7b").toList ++ behind)
    simpa [Decl.head, Decl.name, receiverCode, hr, hrest] using hread
  | some r =>
    have hread := introduced?_method h (hreceiver r hr) ((rest ++ " \x7b").toList ++ behind)
    simpa [Decl.head, Decl.name, receiverCode, hr, hrest] using hread

/-- At the margin a declaration has comments, its first line and a closing brace. -/
theorem Decl.IsWhole.margin_eq {d : Decl} (h : d.IsWhole t) :
    ∃ docs behind, margin (d.items.flatMap (Item.lines t)) =
      docs ++ [(t.codeText d.head).toList ++ behind, ['}']] ∧ ∀ l ∈ docs, ['/', '/'] <+: l := by
  have hremark : ∀ l ∈ d.doc.items.flatMap (Item.lines t),
      IsRemarkText l.code ∧ l.trailing = none := fun l hl => by
    obtain ⟨item, hitem, hl⟩ := List.mem_flatMap.1 hl
    exact Doc.isRemark_of_mem_items h.paragraph hitem l hl
  obtain ⟨behind, hblock⟩ := margin_block d.trailing h.head h.inside (.inl rfl)
  have hnested := nested_block d.trailing h.head h.inside (.inl rfl)
  refine ⟨margin (d.doc.items.flatMap (Item.lines t)), behind, ?_,
    fun l hl => slashes_of_mem_margin hremark hl⟩
  have hall : d.items = d.doc.items ++ (([.code d.head d.trailing] ++ d.inside ++
      [line [.text "\x7d"]]) ++ [.blank]) := by
    simp [Decl.items]
  have hblank : margin ([Item.blank].flatMap (Item.lines t)) = [] :=
    show margin [⟨"", none⟩] = [] by decide
  rw [hall, List.flatMap_append, (nested_of_remarks hremark).margin_append, List.flatMap_append,
    hnested.margin_append, hblock, hblank, List.append_nil]
  rfl

/-- What a declaration introduces at the margin is its name; its other lines there frame
it. -/
theorem Decl.IsWhole.outline {d : Decl} (h : d.IsWhole t) (hname : d.Introduces t)
    (package : String) :
    (margin (d.items.flatMap (Item.lines t))).filterMap introduced? = [d.name] ∧
      ∀ l ∈ margin (d.items.flatMap (Item.lines t)),
        introduced? l = none → IsFraming package l := by
  obtain ⟨docs, behind, hmargin, hdocs⟩ := h.margin_eq
  have hbrace : introduced? ['}'] = none := by decide
  have hnone : docs.filterMap introduced? = [] :=
    List.filterMap_eq_nil_iff.2 fun l hl => introduced?_of_isFraming package (.inl (hdocs l hl))
  rw [hmargin]
  constructor
  · simp [hnone, hname behind, hbrace]
  · intro l hl hl'
    simp only [List.mem_append, List.mem_cons, List.not_mem_nil, or_false] at hl
    obtain hl | rfl | rfl := hl
    · exact .inl (hdocs l hl)
    · rw [hname behind] at hl'
      simp at hl'
    · exact .inr (.inr (.inr (.inr rfl)))

end TemporalBindings.Source
