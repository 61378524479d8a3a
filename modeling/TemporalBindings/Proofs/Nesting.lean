import Mathlib.Data.List.DropRight
import TemporalBindings.Proofs.Identifier
import TemporalBindings.Proofs.Lines

/-!
# TemporalBindings.Proofs.Nesting

Lines that open and close blocks in pairs. A line is known by its first and its last
character:

```
flat      begins with a plain character, ends with neither a blank nor a bracket that opens
opening   begins with a plain character, ends with an opening brace
closing   is a closing brace, with a parenthesis behind it or not
remark    is empty or begins with two slashes
```

Nested lines leave the depth as it was, and inside a block all of them are indented.
-/

namespace TemporalBindings.Text

/-- Trimming leaves the beginning of a text alone as far as characters that are not
blank reach. -/
theorem trim_append (start rest : List Char) (hfirst : start.head?.any (!isBlank ·) = true)
    (hlast : start.getLast?.any (!isBlank ·) = true) :
    ∃ kept, trim (start ++ rest) = start ++ kept ∧ ∀ c ∈ kept, c ∈ rest := by
  obtain ⟨c, cs, rfl⟩ : ∃ c cs, start = c :: cs := by
    cases start with
    | nil => simp at hfirst
    | cons c cs => exact ⟨c, cs, rfl⟩
  have hleft : (c :: cs ++ rest).dropWhile isBlank = c :: cs ++ rest := by
    have hc : isBlank c = false := by simpa using hfirst
    simp [hc]
  have hright : (c :: cs).reverse.dropWhile isBlank = (c :: cs).reverse := by
    rw [← List.head?_reverse] at hlast
    generalize (c :: cs).reverse = back at hlast ⊢
    cases back with
    | nil => rfl
    | cons d ds =>
      have hd : isBlank d = false := by simpa using hlast
      simp [hd]
  refine ⟨(rest.reverse.dropWhile isBlank).reverse, ?_, fun d hd => ?_⟩
  · rw [trim, hleft, List.reverse_append, List.dropWhile_append]
    split
    · next h => rw [List.isEmpty_iff.1 h, hright, List.reverse_reverse, List.reverse_nil,
        List.append_nil]
    · rw [List.reverse_append, List.reverse_reverse]
  · rw [List.mem_reverse] at hd
    exact List.mem_reverse.1 ((List.dropWhile_sublist _).subset hd)

theorem trim_eq_self {s : List Char} (hfirst : s.head?.any (!isBlank ·) = true)
    (hlast : s.getLast?.any (!isBlank ·) = true) : trim s = s := by
  obtain ⟨kept, h, hkept⟩ := trim_append s [] hfirst hlast
  rw [List.append_nil] at h
  rw [h, List.eq_nil_iff_forall_not_mem.2 fun c hc => List.not_mem_nil (hkept c hc),
    List.append_nil]

/-- Trimming takes blanks from what is around a text that does not begin or end with one. -/
theorem trim_around {inner : List Char} (hfirst : inner.head?.any (!isBlank ·) = true)
    (hlast : inner.getLast?.any (!isBlank ·) = true) (before after : List Char) :
    trim (before ++ inner ++ after) =
      before.dropWhile isBlank ++ inner ++ after.rdropWhile isBlank := by
  have hdrop (cs rest : List Char) (hcs : cs.head?.any (!isBlank ·) = true) (front : List Char) :
      (front ++ cs ++ rest).dropWhile isBlank = front.dropWhile isBlank ++ cs ++ rest := by
    obtain ⟨c, cs, rfl⟩ : ∃ c ds, cs = c :: ds := by
      cases cs with
      | nil => simp at hcs
      | cons c ds => exact ⟨c, ds, rfl⟩
    have hc : isBlank c = false := by simpa using hcs
    rw [List.append_assoc, List.dropWhile_append]
    split
    · next hnil => simp [List.isEmpty_iff.1 hnil, hc]
    · simp
  have hback : inner.reverse.head?.any (!isBlank ·) = true := by rwa [List.head?_reverse]
  rw [trim, hdrop inner after hfirst]
  have hreverse : (before.dropWhile isBlank ++ inner ++ after).reverse =
      after.reverse ++ inner.reverse ++ (before.dropWhile isBlank).reverse := by simp
  rw [hreverse, hdrop _ _ hback]
  simp [List.rdropWhile]

theorem mem_of_mem_trim {s : List Char} {c : Char} (h : c ∈ trim s) : c ∈ s := by
  rw [trim, List.mem_reverse] at h
  have := (List.dropWhile_sublist _).subset h
  exact (List.dropWhile_sublist _).subset (List.mem_reverse.1 this)

end TemporalBindings.Text

namespace TemporalBindings.Source

open Text

/-! ## Kinds of code -/

/-- Whether a flat line may end with a character. -/
def isFlatEnd (c : Char) : Bool :=
  !isBlank c && c ≠ '{' && c ≠ '('

/-- Code that neither begins nor ends a block. -/
structure IsFlat (s : String) : Prop where
  single : IsSingleLine s
  first : s.toList.head?.any isPlain = true
  last : s.toList.getLast?.any isFlatEnd = true

/-- Code that begins a block. -/
structure IsOpening (s : String) : Prop where
  single : IsSingleLine s
  first : s.toList.head?.any isPlain = true
  last : s.toList.getLast? = some '{'

/-- Code that ends a block. -/
def IsClosing (s : String) : Prop :=
  s = "\x7d" ∨ s = "\x7d)"

/-- A blank line or a comment. -/
structure IsRemarkText (s : String) : Prop where
  single : IsSingleLine s
  slashes : s = "" ∨ ∃ rest, s = "//" ++ rest

theorem any_not_isBlank {o : Option Char} (h : o.any isPlain = true) :
    o.any (!isBlank ·) = true := by
  cases o with
  | none => simp at h
  | some c => simp [isBlank_of_isPlain (c := c) (by simpa using h)]

namespace Line

/-- Whether a line has no line breaks. -/
def IsSingle (l : Line) : Prop :=
  IsSingleLine l.code ∧ ∀ comment ∈ l.trailing, IsSingleLine comment

theorem text_of_isFlat {l : Line} (h : IsFlat l.code) : l.text = l.code.toList := by
  refine trim_eq_self (any_not_isBlank h.first) ?_
  have hlast := h.last
  cases hend : l.code.toList.getLast? with
  | none => simp [hend] at hlast
  | some c =>
    have hc : isFlatEnd c = true := by simpa [hend] using hlast
    simp only [isFlatEnd, Bool.and_eq_true] at hc
    simpa using hc.1.1

theorem text_of_isOpening {l : Line} (h : IsOpening l.code) : l.text = l.code.toList :=
  trim_eq_self (any_not_isBlank h.first) (by rw [h.last]; decide)

theorem text_of_isClosing {l : Line} (h : IsClosing l.code) : l.text = l.code.toList := by
  rw [text]
  obtain h | h := h <;> rw [h] <;> decide

/-- A line whose text begins with a plain character is no comment and ends no block. -/
theorem of_head?_text {l : Line} (h : l.text.head?.any isPlain = true) :
    l.isComment = false ∧ l.closes = false := by
  cases htext : l.text with
  | nil => simp [htext] at h
  | cons c cs =>
    have hc : isPlain c = true := by simpa [htext] using h
    have hslash : c ≠ '/' := ne_of_class hc (by decide)
    have hbrace : c ≠ '}' := ne_of_class hc (by decide)
    have hparen : c ≠ ')' := ne_of_class hc (by decide)
    have hcomment : l.isComment = false := by
      simp [isComment, htext, hslash]
    simp [closes, hcomment, htext, hbrace, hparen]

theorem flat_of_isFlat {l : Line} (h : IsFlat l.code) : l.opens = false ∧ l.closes = false := by
  have htext := text_of_isFlat h
  have hhead := of_head?_text (l := l) (htext ▸ h.first)
  refine ⟨?_, hhead.2⟩
  have hlast := h.last
  rw [← htext] at hlast
  cases hend : l.text.getLast? with
  | none => simp [hend] at hlast
  | some c =>
    have hc : isFlatEnd c = true := by simpa [hend] using hlast
    simp only [isFlatEnd, Bool.and_eq_true, decide_eq_true_eq] at hc
    simp [opens, hend, hc.1.2, hc.2]

theorem opens_of_isOpening {l : Line} (h : IsOpening l.code) :
    l.opens = true ∧ l.closes = false := by
  have htext := text_of_isOpening h
  have hhead := of_head?_text (l := l) (htext ▸ h.first)
  refine ⟨?_, hhead.2⟩
  simp [opens, hhead.1, htext, h.last]

theorem closes_of_isClosing {l : Line} (h : IsClosing l.code) :
    l.opens = false ∧ l.closes = true := by
  have htext := text_of_isClosing h
  obtain h | h := h <;> rw [h] at htext <;> simp [opens, closes, isComment, htext]

/-- The text of a line behind two slashes begins with them as well. -/
theorem text_of_slashes {l : Line} {rest : String} (h : l.code = "//" ++ rest) :
    ∃ kept, l.text = '/' :: '/' :: kept := by
  obtain ⟨kept, hkept, -⟩ := trim_append ['/', '/'] rest.toList rfl rfl
  refine ⟨kept, ?_⟩
  rw [text, h, String.toList_append]
  exact hkept

theorem flat_of_slashes {l : Line} {rest : String} (h : l.code = "//" ++ rest) :
    l.opens = false ∧ l.closes = false := by
  obtain ⟨kept, hkept⟩ := text_of_slashes h
  simp [opens, closes, isComment, hkept]

theorem flat_of_text_eq_nil {l : Line} (h : l.text = []) : l.opens = false ∧ l.closes = false := by
  simp [opens, closes, isComment, h]

/-- The text of a remark is empty or begins with two slashes. -/
theorem text_of_isRemarkText {l : Line} (h : IsRemarkText l.code) :
    l.text = [] ∨ ∃ rest, l.text = '/' :: '/' :: rest := by
  obtain h | ⟨rest, h⟩ := h.slashes
  · left
    rw [text, h]
    rfl
  · exact .inr (text_of_slashes h)

theorem flat_of_isRemarkText {l : Line} (h : IsRemarkText l.code) :
    l.opens = false ∧ l.closes = false := by
  obtain h | ⟨rest, h⟩ := h.slashes
  · exact flat_of_text_eq_nil (by rw [text, h]; rfl)
  · exact flat_of_slashes h

end Line

/-! ## Nested lines -/

/-- Lines whose blocks are whole. -/
inductive Nested : List Line → Prop
  | nil : Nested []
  | flat {l : Line} {ls : List Line} (hl : l.IsSingle) (hflat : l.opens = false ∧ l.closes = false)
      (hls : Nested ls) : Nested (l :: ls)
  | block {l m : Line} {inner ls : List Line} (hl : l.IsSingle) (hm : m.IsSingle)
      (hopens : l.opens = true ∧ l.closes = false) (hinner : Nested inner)
      (hcloses : m.opens = false ∧ m.closes = true) (hls : Nested ls) :
      Nested (l :: (inner ++ m :: ls))

theorem Nested.append {ls ms : List Line} (h : Nested ls) (h' : Nested ms) :
    Nested (ls ++ ms) := by
  induction h with
  | nil => exact h'
  | flat hl hflat _ ih => exact .flat hl hflat ih
  | block hl hm hopens hinner hcloses _ _ ih =>
    rw [List.cons_append, List.append_assoc, List.cons_append]
    exact .block hl hm hopens hinner hcloses ih

theorem Nested.flatMap {α : Type} {xs : List α} {f : α → List Line}
    (h : ∀ x ∈ xs, Nested (f x)) : Nested (xs.flatMap f) := by
  induction xs with
  | nil => exact .nil
  | cons x xs ih =>
    exact (h x List.mem_cons_self).append (ih fun y hy => h y (List.mem_cons_of_mem x hy))

/-- Remarks are nested. -/
theorem nested_of_remarks {ls : List Line}
    (h : ∀ l ∈ ls, IsRemarkText l.code ∧ l.trailing = none) : Nested ls := by
  induction ls with
  | nil => exact .nil
  | cons l ls ih =>
    obtain ⟨hcode, htrailing⟩ := h l List.mem_cons_self
    exact .flat ⟨hcode.single, by simp [htrailing]⟩ (Line.flat_of_isRemarkText hcode)
      (ih fun m hm => h m (List.mem_cons_of_mem l hm))

/-! ## Depth -/

namespace Line

variable {l : Line} (depth : Nat)

theorem level_of_not_closes (h : l.closes = false) : l.level depth = depth := by
  simp [level, h]

theorem depthAfter_of_flat (h : l.opens = false ∧ l.closes = false) :
    l.depthAfter depth = depth := by
  simp [depthAfter, level, h]

theorem depthAfter_of_opens (h : l.opens = true ∧ l.closes = false) :
    l.depthAfter depth = depth + 1 := by
  simp [depthAfter, level, h]

theorem depthAfter_of_closes (h : l.opens = false ∧ l.closes = true) :
    l.depthAfter depth = depth - 1 := by
  simp [depthAfter, level, h]

end Line

theorem depthOf_of_flat {ls : List Line} (h : ∀ l ∈ ls, l.opens = false ∧ l.closes = false)
    (depth : Nat) : depthOf depth ls = depth := by
  induction ls with
  | nil => rfl
  | cons l ls ih =>
    have hl := Line.depthAfter_of_flat depth (h l List.mem_cons_self)
    have hcons : depthOf depth (l :: ls) = depthOf (l.depthAfter depth) ls := rfl
    rw [hcons, hl, ih fun m hm => h m (List.mem_cons_of_mem l hm)]

theorem depthOf_append (depth : Nat) (ls ms : List Line) :
    depthOf depth (ls ++ ms) = depthOf (depthOf depth ls) ms :=
  List.foldl_append

theorem indent_append (depth : Nat) (ls ms : List Line) :
    indent depth (ls ++ ms) = indent depth ls ++ indent (depthOf depth ls) ms := by
  induction ls generalizing depth with
  | nil => rfl
  | cons l ls ih =>
    rw [List.cons_append, indent, indent, ih]
    rfl

@[simp] theorem depthOf_cons (depth : Nat) (l : Line) (ls : List Line) :
    depthOf depth (l :: ls) = depthOf (l.depthAfter depth) ls := rfl

theorem Nested.depthOf_eq {ls : List Line} (h : Nested ls) (depth : Nat) :
    depthOf depth ls = depth := by
  induction h generalizing depth with
  | nil => rfl
  | flat _ hflat _ ih => rw [depthOf_cons, Line.depthAfter_of_flat depth hflat, ih]
  | block _ _ hopens _ hcloses _ ihinner ih =>
    rw [depthOf_cons, Line.depthAfter_of_opens depth hopens, depthOf_append, ihinner, depthOf_cons,
      Line.depthAfter_of_closes _ hcloses, ih, Nat.add_sub_cancel]

/-- Whole blocks leave what follows them where it was. -/
theorem Nested.indent_append {ls : List Line} (h : Nested ls) (depth : Nat) (ms : List Line) :
    indent depth (ls ++ ms) = indent depth ls ++ indent depth ms := by
  rw [Source.indent_append, h.depthOf_eq]

theorem indent_flatMap {α : Type} {xs : List α} {f : α → List Line}
    (h : ∀ x ∈ xs, Nested (f x)) (depth : Nat) :
    indent depth (xs.flatMap f) = xs.flatMap fun x => indent depth (f x) := by
  induction xs with
  | nil => rfl
  | cons x xs ih =>
    rw [List.flatMap_cons, (h x List.mem_cons_self).indent_append,
      ih fun y hy => h y (List.mem_cons_of_mem x hy), List.flatMap_cons]

/-! ## Indentation -/

/-- A printed line is a single line if the line is. -/
theorem Line.isSingleLine_render {l : Line} (h : l.IsSingle) (depth : Nat) :
    IsSingleLine (l.render depth) := by
  unfold render
  split
  · simp [IsSingleLine]
  · have htext : '\n' ∉ l.text := fun hmem => h.1 (mem_of_mem_trim hmem)
    have htrailing := h.2
    simp only [IsSingleLine, String.toList_append, String.toList_ofList, List.mem_append,
      List.mem_replicate, not_or]
    refine ⟨⟨by simp, htext⟩, ?_⟩
    cases hc : l.trailing with
    | none => simp
    | some comment =>
      have hcomment : '\n' ∉ comment.toList := htrailing comment hc
      simp [hcomment]

/-- A line inside at least one block is printed with a tab. -/
theorem Line.head?_of_mem_textLines_render {l : Line} (h : l.IsSingle) {depth : Nat}
    (hlevel : 0 < l.level depth) {t : List Char} (ht : t ∈ textLines (l.render depth)) :
    t.head? = some '\t' := by
  by_cases hempty : l.render depth = ""
  · simp [hempty] at ht
  · rw [textLines_of_isSingleLine (isSingleLine_render h depth) hempty, List.mem_singleton] at ht
    rw [ht]
    have htext : l.text ≠ [] := fun htext => hempty (by rw [render, if_pos htext])
    obtain ⟨n, hn⟩ := Nat.exists_eq_succ_of_ne_zero (Nat.ne_of_gt hlevel)
    rw [render, if_neg htext, hn, List.replicate_succ]
    simp

/-- Inside a block, nested lines are printed with tabs. -/
theorem Nested.head?_of_mem_textLines {ls : List Line} (h : Nested ls) {depth : Nat}
    (hdepth : 0 < depth) {t : List Char} (ht : t ∈ (indent depth ls).flatMap textLines) :
    t.head? = some '\t' := by
  induction h generalizing depth with
  | nil => simp [indent] at ht
  | flat hl hflat _ ih =>
    rw [indent, Line.depthAfter_of_flat depth hflat, List.flatMap_cons, List.mem_append] at ht
    obtain ht | ht := ht
    · refine Line.head?_of_mem_textLines_render hl ?_ ht
      rwa [Line.level_of_not_closes depth hflat.2]
    · exact ih hdepth ht
  | block hl hm hopens hinner hcloses _ ihinner ih =>
    rw [indent, Line.depthAfter_of_opens depth hopens, hinner.indent_append, indent,
      Line.depthAfter_of_closes _ hcloses, Nat.add_sub_cancel, List.flatMap_cons,
      List.flatMap_append, List.flatMap_cons, List.mem_append, List.mem_append,
      List.mem_append] at ht
    obtain ht | ht | ht | ht := ht
    · refine Line.head?_of_mem_textLines_render hl ?_ ht
      rwa [Line.level_of_not_closes depth hopens.2]
    · exact ihinner (Nat.succ_pos depth) ht
    · refine Line.head?_of_mem_textLines_render hm ?_ ht
      rwa [Line.level, if_pos hcloses.2, Nat.add_sub_cancel]
    · exact ih hdepth ht

end TemporalBindings.Source
