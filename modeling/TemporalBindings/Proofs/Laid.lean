import TemporalBindings.Proofs.Brackets

/-!
# TemporalBindings.Proofs.Laid

Items that are laid out in whole blocks. Code is read piece by piece: every piece is whole
tokens on one line, and what is open behind it is kept. There are three kinds of lines:

```
flat      closes all that it opens, begins with a plain character, ends with no bracket
opening   the same, but for a brace that it opens at its end
closing   a brace
```

A list of items is laid out if it is made of remarks, flat lines and blocks of these, so
whatever holds of such lines, and of remarks, holds of all lines of the list. Three things
are drawn from it: the lines are nested, code and comments are told apart in each, and its
brackets are those of the blocks that it begins and ends.
-/

namespace TemporalBindings.Source

open Text

variable {t : Imports}

/-! ## Texts -/

/-- What is open behind a text of whole tokens on one line; nothing is said of other texts. -/
def openAfter? (opened : List Char) (s : String) : Option (List Char) :=
  if IsSingleLine s ∧ IsTokens s then openBehind? .code opened s.toList else none

/-- To be read so far is to be whole tokens on one line, of which the brackets are matched. -/
theorem openAfter?_eq_some_iff {opened o : List Char} {s : String} :
    openAfter? opened s = some o ↔
      (IsSingleLine s ∧ IsTokens s) ∧ openBehind? .code opened s.toList = some o := by
  simp [openAfter?]

/-- Characters with no meaning of their own open nothing. -/
theorem openAfter?_of_isInert {s : String}
    (h : ∀ c ∈ s.toList, isInert c = true ∧ isBracket c = false ∧ c ≠ '\n') (opened : List Char) :
    openAfter? opened s = some opened := by
  refine openAfter?_eq_some_iff.2 ⟨⟨fun hbreak => (h _ hbreak).2.2 rfl,
    uncomment_of_isInert fun c hc => (h c hc).1⟩, ?_⟩
  exact openBehind?_of_not_isBracket (fun c hc => (h c hc).2.1) .code opened

/-- Names neither open nor close anything. -/
theorem IsWord.openAfter? {s : String} (h : IsWord s) (opened : List Char) :
    openAfter? opened s = some opened :=
  openAfter?_of_isInert (fun c hc => ⟨isInert_of_isPlain (h.2 c hc),
    not_isBracket_of_isPlain (h.2 c hc), ne_of_class (h.2 c hc) (by decide)⟩) opened

/-- A numeral opens nothing. -/
theorem openAfter?_numeral {cs : List Char} (h : ∀ c ∈ cs, isNumeralChar c = true)
    (opened : List Char) : openAfter? opened (String.ofList cs) = some opened := by
  refine openAfter?_of_isInert (fun c hc => ?_) opened
  have hnumeral := h c (by rwa [String.toList_ofList] at hc)
  refine ⟨isInert_of_isNumeralChar hnumeral, not_isBracket_of_isNumeralChar hnumeral, ?_⟩
  rintro rfl
  exact absurd hnumeral (by decide)

/-- The literal of a text opens nothing. -/
theorem openAfter?_quote (s : String) (opened : List Char) :
    openAfter? opened (quote s) = some opened :=
  openAfter?_eq_some_iff.2 ⟨⟨isSingleLine_quote s, isTokens_quote s⟩, openBehind?_quote s opened⟩

/-- Texts are read one behind the other. -/
theorem openAfter?_append {opened o o' : List Char} {s s' : String}
    (h : openAfter? opened s = some o) (h' : openAfter? o s' = some o') :
    openAfter? opened (s ++ s') = some o' := by
  obtain ⟨⟨hsingle, htokens⟩, hopen⟩ := openAfter?_eq_some_iff.1 h
  obtain ⟨⟨hsingle', htokens'⟩, hopen'⟩ := openAfter?_eq_some_iff.1 h'
  refine openAfter?_eq_some_iff.2 ⟨⟨isSingleLine_append.2 ⟨hsingle, hsingle'⟩,
    htokens.append htokens'⟩, ?_⟩
  rw [String.toList_append, openBehind?_append, hopen, Option.bind_some, htokens.2, hopen']

/-! ## Code -/

namespace Imports

/-- What is open behind some code, read piece by piece. -/
def openAfter? (t : Imports) (opened : List Char) : Code → Option (List Char)
  | [] => some opened
  | p :: code => (Source.openAfter? opened (t.pieceText p)).bind (t.openAfter? · code)

@[simp] theorem openAfter?_nil (opened : List Char) : t.openAfter? opened [] = some opened := rfl

@[simp] theorem openAfter?_cons (opened : List Char) (p : Piece) (code : Code) :
    t.openAfter? opened (p :: code) =
      (Source.openAfter? opened (t.pieceText p)).bind (t.openAfter? · code) := rfl

@[simp] theorem openAfter?_append (opened : List Char) (code code' : Code) :
    t.openAfter? opened (code ++ code') =
      (t.openAfter? opened code).bind (t.openAfter? · code') := by
  induction code generalizing opened with
  | nil => rfl
  | cons p code ih =>
    rw [List.cons_append, openAfter?_cons, openAfter?_cons, Option.bind_assoc]
    exact congrArg _ (funext fun o => ih o)

/-- Reading code piece by piece is reading its text. -/
theorem openAfter?_codeText {opened o : List Char} {code : Code}
    (h : t.openAfter? opened code = some o) :
    Source.openAfter? opened (t.codeText code) = some o := by
  induction code generalizing opened with
  | nil => exact Source.openAfter?_eq_some_iff.2 ⟨by simp +decide, h⟩
  | cons p code ih =>
    obtain ⟨o', hp, hcode⟩ := Option.bind_eq_some_iff.1 h
    rw [codeText_cons]
    exact Source.openAfter?_append hp (ih hcode)

/-- Whether code is whole tokens without line breaks and closes all that it opens. -/
def IsSound (t : Imports) (code : Code) : Prop :=
  ∀ opened, t.openAfter? opened code = some opened

theorem IsSound.eq {code : Code} (h : t.IsSound code) (opened : List Char) :
    t.openAfter? opened code = some opened :=
  h opened

theorem isSound_nil : t.IsSound [] :=
  openAfter?_nil

/-- Sound code stays so behind a text that is. -/
theorem IsSound.cons_text {s : String} {code : Code}
    (hs : ∀ opened, Source.openAfter? opened s = some opened) (h : t.IsSound code) :
    t.IsSound (.text s :: code) := by
  intro opened
  rw [openAfter?_cons, pieceText, hs, Option.bind_some, h.eq]

theorem isSound_text {s : String} (hs : ∀ opened, Source.openAfter? opened s = some opened) :
    t.IsSound [.text s] :=
  isSound_nil.cons_text hs

theorem isSound_ident {i : Ident} (h : IsWord (t.spelling i)) : t.IsSound [.ident i] := by
  intro opened
  rw [openAfter?_cons, pieceText, h.openAfter?]
  rfl

/-- Sound code is put together to sound code. -/
theorem IsSound.append {code code' : Code} (h : t.IsSound code) (h' : t.IsSound code') :
    t.IsSound (code ++ code') := by
  intro opened
  rw [openAfter?_append, h.eq, Option.bind_some, h'.eq]

/-- Sound code stays sound if it is put together with a sound separator. -/
theorem isSound_intercalate {sep : Code} {cs : List Code} (hsep : t.IsSound sep)
    (h : ∀ c ∈ cs, t.IsSound c) : t.IsSound (List.intercalate sep cs) := by
  induction cs with
  | nil => exact isSound_nil
  | cons c cs ih =>
    have hc := h c List.mem_cons_self
    have hcs := ih fun c' hc' => h c' (List.mem_cons_of_mem c hc')
    cases cs with
    | nil => simpa using hc
    | cons c' cs =>
      rw [List.intercalate_cons_cons]
      exact (hc.append hsep).append hcs

/-! ## Lines of code -/

/-- Whether a text opens a brace at its end and nothing else. -/
def OpensBlock (s : String) : Prop :=
  Source.openAfter? [] s = some ['}'] ∧ s.toList.getLast? = some '{'

instance (s : String) : Decidable (OpensBlock s) :=
  inferInstanceAs (Decidable (_ ∧ _))

/-- Code on a line that neither begins nor ends a block. -/
structure IsFlatLine (t : Imports) (c : Code) : Prop where
  sound : t.IsSound c
  begins : t.Begins c
  ends : t.Ends c

/-- Code on a line that begins a block. -/
def IsOpeningLine (t : Imports) (c : Code) : Prop :=
  ∃ before s, c = before ++ [.text s] ∧ t.IsSound before ∧ t.Begins before ∧ OpensBlock s

variable {c : Code}

/-- What has been checked piece by piece holds of the text. -/
theorem IsFlatLine.read (h : t.IsFlatLine c) :
    (IsSingleLine (t.codeText c) ∧ IsTokens (t.codeText c)) ∧
      openBehind? .code [] (t.codeText c).toList = some [] :=
  openAfter?_eq_some_iff.1 (openAfter?_codeText (h.sound []))

theorem IsFlatLine.isFlat (h : t.IsFlatLine c) : IsFlat (t.codeText c) :=
  ⟨h.read.1.1, h.begins.startsPlain, h.ends.endsFlat⟩

/-- Of a line that begins a block one brace is left open. -/
theorem IsOpeningLine.read (h : t.IsOpeningLine c) :
    (IsSingleLine (t.codeText c) ∧ IsTokens (t.codeText c)) ∧
      openBehind? .code [] (t.codeText c).toList = some ['}'] := by
  obtain ⟨before, s, rfl, hsound, -, hs⟩ := h
  refine openAfter?_eq_some_iff.1 (openAfter?_codeText ?_)
  rw [openAfter?_append, hsound.eq, Option.bind_some, openAfter?_cons, pieceText, hs.1]
  rfl

theorem IsOpeningLine.isOpening (h : t.IsOpeningLine c) : IsOpening (t.codeText c) := by
  refine ⟨h.read.1.1, ?_, ?_⟩
  · obtain ⟨before, s, rfl, -, hbegins, -⟩ := h
    exact (hbegins.append _).startsPlain
  · obtain ⟨before, s, rfl, -, -, hs⟩ := h
    rw [codeText_append, codeText_cons, codeText_nil, String.append_empty, String.toList_append,
      List.getLast?_append, pieceText, hs.2]
    rfl

end Imports

/-! ## Items -/

/-- Items that are remarks, flat lines and blocks. -/
inductive Laid (t : Imports) : List Item → Prop
  | nil : Laid t []
  /-- A blank line or a comment. -/
  | remark {item : Item} {items : List Item} (h : item.IsRemark t) (rest : Laid t items) :
      Laid t (item :: items)
  /-- A line that neither begins nor ends a block. -/
  | flat {c : Code} {trailing : String} {items : List Item} (h : t.IsFlatLine c)
      (rest : Laid t items) : Laid t (.code c trailing :: items)
  /-- A line that begins a block, what is inside, and the brace that ends it. -/
  | block {c : Code} {trailing : String} {inner items : List Item} (h : t.IsOpeningLine c)
      (inside : Laid t inner) (rest : Laid t items) :
      Laid t (.code c trailing :: (inner ++ line ["\x7d"] :: items))

namespace Laid

variable {items items' : List Item}

/-- Items that are laid out one after the other are laid out. -/
theorem append (h : Laid t items) (h' : Laid t items') : Laid t (items ++ items') := by
  induction h with
  | nil => exact h'
  | remark h _ ih => exact .remark h ih
  | flat h _ ih => exact .flat h ih
  | block h inside _ _ ih =>
    rw [List.cons_append, List.append_assoc]
    exact .block h inside ih

/-- So are those of a list. -/
theorem flatMap {α : Type} {xs : List α} {f : α → List Item} (h : ∀ x ∈ xs, Laid t (f x)) :
    Laid t (xs.flatMap f) := by
  induction xs with
  | nil => exact .nil
  | cons x xs ih =>
    exact (h x List.mem_cons_self).append (ih fun y hy => h y (List.mem_cons_of_mem x hy))

theorem of_isRemark (h : ∀ item ∈ items, item.IsRemark t) : Laid t items := by
  induction items with
  | nil => exact .nil
  | cons item items ih =>
    exact .remark (h item List.mem_cons_self) (ih fun i hi => h i (List.mem_cons_of_mem _ hi))

/-- One flat line. -/
theorem line {c : Code} (h : t.IsFlatLine c) : Laid t [line c] :=
  .flat h .nil

/-- One block, with lines inside that each are laid out. -/
theorem block_line {c : Code} {inner : List Item} (h : t.IsOpeningLine c) (inside : Laid t inner) :
    Laid t ([Source.line c] ++ inner ++ [Source.line ["\x7d"]]) := by
  rw [List.append_assoc]
  exact .block h inside .nil

/-- The lines are nested. -/
theorem nested (h : Laid t items) : Nested (items.flatMap (Item.lines t)) := by
  induction h with
  | nil => exact .nil
  | remark h _ ih => exact (nested_of_remarks h).append ih
  | flat h _ ih => exact (nested_code h.isFlat).append ih
  | @block c trailing inner items h _ _ ihinside ih =>
    have hblock := (nested_block trailing h.isOpening ihinside (.inl rfl)).append ih
    rw [← List.flatMap_append] at hblock
    simpa using hblock

/-- In every line code and comments are told apart, and the brackets are those of the blocks
that it begins and ends. -/
theorem lines (h : Laid t items) :
    ∀ l ∈ items.flatMap (Item.lines t), l.IsParted ∧ l.IsMatched := by
  have hremark {l : Line} (h : IsRemarkText l.code ∧ l.trailing = none) :
      l.IsParted ∧ l.IsMatched :=
    ⟨.inl h, Line.isMatched_of_isRemarkText h.1 h.2⟩
  -- code with a comment behind it, which may go on below
  have hcode {c : Code} (trailing : String) (hmatched : ∀ behind : Option String,
      (∀ r ∈ behind, IsRemarkText r) → Line.IsMatched ⟨t.codeText c, behind⟩)
      (hread : IsSingleLine (t.codeText c) ∧ IsTokens (t.codeText c)) :
      ∀ l ∈ (Item.code c trailing).lines t, l.IsParted ∧ l.IsMatched := by
    obtain ⟨behind, below, hlines, hbehind, hbelow⟩ := exists_withTrailing (t.codeText c) trailing
    rw [Item.lines, hlines]
    exact List.forall_mem_cons.2 ⟨⟨.inr ⟨hread.2, hread.1, hbehind⟩, hmatched behind hbehind⟩,
      fun l hl => hremark (hbelow l hl)⟩
  induction h with
  | nil => simp
  | remark h _ ih =>
    rw [List.flatMap_cons, List.forall_mem_append]
    exact ⟨fun l hl => hremark (h l hl), ih⟩
  | flat h _ ih =>
    rw [List.flatMap_cons, List.forall_mem_append]
    exact ⟨hcode _ (fun _ hbehind => Line.isMatched_of_flat h.read.1.2 h.read.1.1 hbehind h.read.2)
      h.read.1, ih⟩
  | block h _ _ ihinside ih =>
    simp only [List.flatMap_cons, List.flatMap_append, List.forall_mem_append]
    refine ⟨hcode _ (fun _ hbehind => Line.isMatched_of_opening h.read.1.2 h.read.1.1 hbehind
      h.read.2 h.isOpening.last) h.read.1, ihinside, ?_, ih⟩
    exact hcode "" (fun _ hbehind => Line.isMatched_of_isClosing (by simp) hbehind)
      (by simp +decide)

end Laid

/-! ## Statements -/

/-- A field of a literal is a flat line. -/
theorem Literal.isFlatLine_field {f : String × Code} (w : Nat)
    (h : IsWord f.1 ∧ t.IsSound f.2) :
    t.IsFlatLine (.text (key w f.1 ++ " ") :: f.2 ++ [.text ","]) := by
  obtain ⟨hname, hvalue⟩ := h
  have hblanks (n : Nat) (opened : List Char) :
      openAfter? opened (String.ofList (List.replicate n ' ')) = some opened := by
    refine openAfter?_of_isInert (fun c hc => ?_) opened
    rw [String.toList_ofList] at hc
    rw [List.eq_of_mem_replicate hc]
    decide
  have hkey (opened : List Char) : openAfter? opened (key w f.1 ++ " ") = some opened :=
    openAfter?_append (openAfter?_append (openAfter?_append (hname.openAfter? opened) rfl)
      (hblanks _ opened)) rfl
  have hcomma : t.IsSound [.text ","] := Imports.isSound_text fun _ => rfl
  have hends : t.Ends [.text ","] := by simp +decide
  exact ⟨(hvalue.append hcomma).cons_text hkey,
    Imports.begins_cons.2 (((hname.startsPlain.append _).append _).append _), hends.append_left _⟩

section

variable {l : Literal} {before : Code}

/-- A literal without fields is one line. -/
theorem Literal.laid_of_nil {after : String} (hl : l.fields = [])
    (h : t.IsFlatLine (before ++ [.ident l.type, .text ("\x7b\x7d" ++ after)])) :
    Laid t (l.items before after) := by
  rw [items, hl]
  exact .line h

variable (hsound : t.IsSound (before ++ [.ident l.type]))
  (hbegins : t.Begins (before ++ [.ident l.type]))
include hsound hbegins

theorem Literal.isFlatLine_of_nil :
    t.IsFlatLine (before ++ [.ident l.type, .text ("\x7b\x7d" ++ "")]) := by
  have hends : t.Ends [.text ("\x7b\x7d" ++ "")] := by simp +decide
  rw [← List.singleton_append, ← List.append_assoc]
  exact ⟨hsound.append (Imports.isSound_text fun _ => rfl), hbegins.append _, hends.append_left _⟩

/-- The first line of a literal that has fields. -/
theorem Literal.isOpeningLine : t.IsOpeningLine (before ++ [.ident l.type, .text "\x7b"]) :=
  ⟨before ++ [.ident l.type], "\x7b", by simp, hsound, hbegins, by decide⟩

/-- A literal with nothing behind it is a block, with a line for each of its fields, or one
line if it has none. -/
theorem Literal.laid_items (hfields : ∀ f ∈ l.fields, IsWord f.1 ∧ t.IsSound f.2) :
    Laid t (l.items before "") := by
  by_cases hl : l.fields = []
  · exact laid_of_nil hl (isFlatLine_of_nil hsound hbegins)
  · unfold items
    split
    · next hnil => exact absurd hnil hl
    refine .block_line (isOpeningLine hsound hbegins) ?_
    rw [List.map_eq_flatMap]
    exact .flatMap fun f hf => .line (isFlatLine_field _ (hfields f hf))

end

namespace Stmt

theorem laid_code {names : List String} {value : Code}
    (h : t.IsFlatLine (defining names ++ value)) :
    Laid t (code names value).items :=
  .line h

theorem laid_declare {name : String} {type : Code}
    (h : t.IsFlatLine (.text ("var " ++ name ++ " ") :: type)) :
    Laid t (declare name type).items :=
  .line h

theorem laid_blank : Laid t blank.items :=
  .remark isRemark_blank .nil

/-- The first line of a branch. -/
theorem isOpeningLine_branch {start : Option (String × Code)} {condition : Code}
    (h : t.IsSound (branchStart start ++ condition)) :
    t.IsOpeningLine (.text "if " :: (branchStart start ++ condition ++ [.text " \x7b"])) :=
  ⟨.text "if " :: (branchStart start ++ condition), " \x7b", (List.cons_append ..).symm,
    h.cons_text fun _ => rfl, by simp +decide, by decide⟩

/-- A branch is a block of its own. -/
theorem laid_branch {start : Option (String × Code)} {condition : Code} {body : List Code}
    (h : t.IsSound (branchStart start ++ condition)) (hbody : ∀ c ∈ body, t.IsFlatLine c) :
    Laid t (branch start condition body).items := by
  refine .block_line (isOpeningLine_branch h) ?_
  rw [List.map_eq_flatMap]
  exact .flatMap fun c hc => .line (hbody c hc)

end Stmt

/-! ## Signatures -/

/-- Whether the parts of a parameter can stand in a line. -/
def Param.IsSound (t : Imports) (p : Param) : Prop :=
  IsWord p.name ∧ t.IsSound p.type

theorem Param.isSound_code {p : Param} (h : p.IsSound t) : t.IsSound p.code :=
  h.2.cons_text fun opened => openAfter?_append (h.1.openAfter? opened) rfl

/-- A signature closes both of its parentheses. -/
theorem Signature.isSound_code {sig : Signature} (hname : IsWord sig.name)
    (hparams : ∀ p ∈ sig.params, p.IsSound t) (hresult : t.IsSound sig.result) :
    t.IsSound sig.code := by
  have hlist : t.IsSound (List.intercalate [Piece.text ", "] (sig.params.map Param.code)) := by
    refine Imports.isSound_intercalate (Imports.isSound_text fun _ => rfl) fun c hc => ?_
    obtain ⟨p, hp, rfl⟩ := List.mem_map.1 hc
    exact Param.isSound_code (hparams p hp)
  have hopen (opened : List Char) : openAfter? opened "(" = some (')' :: opened) := rfl
  have hclose (opened : List Char) : openAfter? (')' :: opened) ")" = some opened := rfl
  have hspace (opened : List Char) : openAfter? opened " " = some opened := rfl
  intro opened
  unfold Signature.code
  split
  · simp [hname.openAfter?, hopen, hlist.eq, hclose]
  · simp [hname.openAfter?, hopen, hlist.eq, hclose, hspace, hresult.eq]

/-- The first line of a function. -/
theorem Func.isOpeningLine_head {f : Func} (hreceiver : ∀ r ∈ f.receiver, r.IsSound t)
    (hsignature : t.IsSound f.signature.code) : t.IsOpeningLine (Decl.func f).head := by
  have hopen (opened : List Char) : openAfter? opened "(" = some (')' :: opened) := rfl
  have hclose (opened : List Char) : openAfter? (')' :: opened) ") " = some opened := rfl
  have hcode : t.IsSound (receiverCode f.receiver) := by
    cases hr : f.receiver with
    | none => exact Imports.isSound_nil
    | some r =>
      have hr' := Param.isSound_code (hreceiver r hr)
      intro opened
      simp [receiverCode, hopen, hr'.eq, hclose]
  exact ⟨_, " \x7b", (List.cons_append ..).symm, (hcode.append hsignature).cons_text fun _ => rfl,
    by simp +decide, by decide⟩

/-- The first line of an interface or a structure. -/
theorem isOpeningLine_type {name ending : String} (hname : IsWord name)
    (hending : Imports.OpensBlock ending) :
    t.IsOpeningLine ["type ", .text name, .text ending] :=
  ⟨["type ", .text name], ending, rfl,
    (Imports.isSound_text hname.openAfter?).cons_text fun _ => rfl, by simp +decide, hending⟩

/-! ## Declarations -/

/-- Whether a declaration is laid out as one block, behind documentation that is comments. -/
structure Decl.IsLaid (t : Imports) (d : Decl) : Prop where
  paragraph : ∀ l ∈ d.doc.paragraph, IsSingleLine l
  head : t.IsOpeningLine d.head
  inside : Laid t d.inside

/-- A declaration that is laid out is one block. -/
theorem Decl.IsLaid.isWhole {d : Decl} (h : d.IsLaid t) : d.IsWhole t :=
  ⟨h.paragraph, h.head.isOpening, h.inside.nested⟩

/-- Its items are its documentation, the block and a blank line. -/
theorem Decl.IsLaid.laid_items {d : Decl} (h : d.IsLaid t) : Laid t d.items := by
  have hdoc : Laid t d.doc.items := .of_isRemark fun _ => Doc.isRemark_of_mem_items h.paragraph
  have hblock : Laid t (.code d.head d.trailing :: (d.inside ++ line ["\x7d"] :: [.blank])) :=
    .block h.head h.inside (.remark isRemark_blank .nil)
  have hall := hdoc.append hblock
  simpa [Decl.items] using hall

end TemporalBindings.Source
