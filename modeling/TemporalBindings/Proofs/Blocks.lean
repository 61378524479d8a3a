import TemporalBindings.Proofs.ImportTable
import TemporalBindings.Proofs.Nesting

/-!
# TemporalBindings.Proofs.Blocks

Lines of code laid out in blocks. Code begins with a plain character and its brackets
stand at the ends of lines, so it is enough to look at the first and the last piece of
each line:

```
first piece  begins with a plain character
last piece   decides whether the line is flat or opens a block
```

Documentation and the comments behind code are remarks, and a declaration is remarks and
one block.
-/

namespace TemporalBindings.Source

open Text

/-! ## Beginnings and ends -/

/-- Whether a text begins with a plain character. -/
def StartsPlain (s : String) : Prop :=
  s.toList.head?.any isPlain = true

/-- Whether a text ends as a flat line may. -/
def EndsFlat (s : String) : Prop :=
  s.toList.getLast?.any isFlatEnd = true

instance (s : String) : Decidable (StartsPlain s) :=
  inferInstanceAs (Decidable (_ = _))

instance (s : String) : Decidable (EndsFlat s) :=
  inferInstanceAs (Decidable (_ = _))

theorem StartsPlain.append {s : String} (h : StartsPlain s) (s' : String) :
    StartsPlain (s ++ s') := by
  unfold StartsPlain at h ⊢
  rw [String.toList_append, List.head?_append]
  cases hs : s.toList.head? with
  | none => simp [hs] at h
  | some c => simpa [hs] using h

theorem EndsFlat.append_left {s : String} (h : EndsFlat s) (s' : String) :
    EndsFlat (s' ++ s) := by
  unfold EndsFlat at h ⊢
  rw [String.toList_append, List.getLast?_append]
  cases hs : s.toList.getLast? with
  | none => simp [hs] at h
  | some c => simpa [hs] using h

/-- A text has no line break if its parts have none. -/
@[simp] theorem isSingleLine_append {s s' : String} :
    IsSingleLine (s ++ s') ↔ IsSingleLine s ∧ IsSingleLine s' := by
  simp [IsSingleLine, not_or]

/-! ## Words -/

theorem isFlatEnd_of_isPlain {c : Char} (h : isPlain c = true) : isFlatEnd c = true := by
  simp [isFlatEnd, isBlank_of_isPlain h, ne_of_class (d := '{') h (by decide),
    ne_of_class (d := '(') h (by decide)]

theorem IsWord.isSingleLine {s : String} (h : IsWord s) : IsSingleLine s :=
  fun hbreak => absurd (h.2 _ hbreak) (by decide)

/-- Names begin with a plain character and end with one. -/
theorem IsWord.startsPlain {s : String} (h : IsWord s) : StartsPlain s := by
  obtain ⟨hne, hplain⟩ := h
  cases hs : s.toList with
  | nil => exact absurd (String.toList_eq_nil_iff.1 hs) hne
  | cons c cs =>
    rw [StartsPlain, hs]
    exact hplain c (hs ▸ List.mem_cons_self)

theorem IsWord.endsFlat {s : String} (h : IsWord s) : EndsFlat s := by
  obtain ⟨hne, hplain⟩ := h
  have hne' : s.toList ≠ [] := fun hs => hne (String.toList_eq_nil_iff.1 hs)
  rw [EndsFlat, List.getLast?_eq_some_getLast hne']
  exact isFlatEnd_of_isPlain (hplain _ (List.getLast_mem hne'))

namespace Imports

/-- Whether the aliases of an import table are words. -/
def HasWords (t : Imports) : Prop :=
  ∀ e ∈ t.aliases, IsWord e.2

/-- Whether the aliases of an import table are identifiers. -/
def HasIdentifiers (t : Imports) : Prop :=
  ∀ e ∈ t.aliases, IsIdentifier e.2

theorem HasIdentifiers.hasWords {t : Imports} (h : t.HasIdentifiers) : t.HasWords :=
  fun e he => (h e he).isWord

/-- Candidates for the alias of a package whose name is an identifier are identifiers. -/
theorem isIdentifier_candidate {name : String} (h : IsIdentifier name) (n : Nat) :
    IsIdentifier (candidate name n) := by
  cases n with
  | zero => exact h
  | succ n =>
    exact h.append_digits fun _ hd => Nat.isDigit_of_mem_toDigits (by decide) (by decide) hd

/-- Aliases are identifiers if the names of packages are, numbered or not. -/
theorem hasIdentifiers_requireAll {home : String} {is : List Ident}
    (h : ∀ i ∈ is, IsIdentifier i.package.name) :
    ((empty home).requireAll is).HasIdentifiers := by
  intro e he
  obtain he | ⟨i, hi, -, n, hn⟩ := mem_aliases_requireAll he
  · simp [empty] at he
  · rw [hn]
    exact isIdentifier_candidate (h i hi) n

/-- Under such aliases identifiers are spelled as words, with or without an alias. -/
theorem HasWords.spelling {t : Imports} (ht : t.HasWords) {i : Ident} (hi : IsWord i.name) :
    IsWord (t.spelling i) := by
  unfold Imports.spelling
  split
  · exact hi
  · split
    · next a ha =>
      have hdot : IsWord (a ++ ".") :=
        (ht _ (mem_of_lookup ha)).append (show IsWord "." by decide).2
      exact hdot.append hi.2
    · exact hi

/-! ## Code -/

variable {t : Imports} {code : Code}

/-- Whether the first piece of code begins with a plain character. -/
def Begins (t : Imports) (code : Code) : Prop :=
  ∃ p ∈ code.head?, StartsPlain (t.pieceText p)

/-- Whether the last piece of code ends as a flat line may. -/
def Ends (t : Imports) (code : Code) : Prop :=
  ∃ p ∈ code.getLast?, EndsFlat (t.pieceText p)

@[simp] theorem begins_cons {p : Piece} :
    t.Begins (p :: code) ↔ StartsPlain (t.pieceText p) := by
  simp [Begins]

@[simp] theorem ends_singleton {p : Piece} : t.Ends [p] ↔ EndsFlat (t.pieceText p) := by
  simp [Ends]

@[simp] theorem ends_cons_cons {p q : Piece} : t.Ends (p :: q :: code) ↔ t.Ends (q :: code) := by
  simp [Ends]

theorem Begins.append (h : t.Begins code) (code' : Code) : t.Begins (code ++ code') := by
  obtain ⟨p, hp, hplain⟩ := h
  exact ⟨p, List.mem_head?_append_of_mem_head? hp, hplain⟩

theorem Ends.append_left (h : t.Ends code) (code' : Code) : t.Ends (code' ++ code) := by
  obtain ⟨p, hp, hflat⟩ := h
  exact ⟨p, List.mem_getLast?_append_of_mem_getLast? hp, hflat⟩

/-- How code begins and ends is how its text does. -/
theorem Begins.startsPlain (h : t.Begins code) : StartsPlain (t.codeText code) := by
  obtain ⟨p, hp, hplain⟩ := h
  obtain ⟨rest, rfl⟩ := List.head?_eq_some_iff.1 hp
  rw [codeText_cons]
  exact hplain.append _

theorem Ends.endsFlat (h : t.Ends code) : EndsFlat (t.codeText code) := by
  obtain ⟨p, hp, hflat⟩ := h
  obtain ⟨rest, rfl⟩ := List.getLast?_eq_some_iff.1 hp
  rw [codeText_append, codeText_cons, codeText_nil, String.append_empty]
  exact hflat.append_left _

end Imports

/-! ## Items -/

variable {t : Imports}

/-- The lines of a comment: two slashes and no line break. -/
theorem exists_of_mem_commentLines {text l : String} (h : l ∈ commentLines text) :
    ∃ rest, l = "//" ++ rest ∧ IsSingleLine rest := by
  unfold commentLines at h
  split at h
  · simp at h
  · obtain ⟨cs, hcs, rfl⟩ := List.mem_map.1 h
    have hbreak : '\n' ∉ cs := not_mem_of_mem_splitOn hcs
    exact ⟨String.ofList cs, rfl, by simpa [IsSingleLine] using hbreak⟩

/-- Every line of a comment is a remark. -/
theorem isRemarkText_of_mem_commentLines {text l : String} (h : l ∈ commentLines text) :
    IsRemarkText l := by
  obtain ⟨rest, rfl, hrest⟩ := exists_of_mem_commentLines h
  exact ⟨isSingleLine_append.2 ⟨by decide, hrest⟩, .inr ⟨rest, rfl⟩⟩

/-- Code with a comment behind it: a line, and remarks below. -/
theorem exists_withTrailing (code comment : String) :
    ∃ behind below, File.withTrailing code comment = ⟨code, behind⟩ :: below ∧
      (∀ c ∈ behind, IsRemarkText c) ∧ ∀ l ∈ below, IsRemarkText l.code ∧ l.trailing = none := by
  have hremark : ∀ c ∈ commentLines comment, IsRemarkText c := fun c hc =>
    isRemarkText_of_mem_commentLines hc
  unfold File.withTrailing
  split
  · next c hc =>
    refine ⟨some c, [], rfl, fun c' hc' => ?_, by simp⟩
    obtain rfl : c = c' := by simpa using hc'
    exact hremark c (by simp [hc])
  · refine ⟨none, _, rfl, by simp, fun l hl => ?_⟩
    obtain ⟨c, hc, rfl⟩ := List.mem_map.1 hl
    exact ⟨hremark c hc, rfl⟩

/-- A line without a comment behind it. -/
@[simp] theorem lines_line (c : Code) : (line c).lines t = [⟨t.codeText c, none⟩] := rfl

/-- A flat line stays flat with comments behind it. -/
theorem nested_code {c : Code} {trailing : String} (h : IsFlat (t.codeText c)) :
    Nested ((Item.code c trailing).lines t) := by
  obtain ⟨behind, below, hlines, hbehind, hbelow⟩ := exists_withTrailing (t.codeText c) trailing
  rw [Item.lines, hlines]
  exact .flat ⟨h.single, fun c hc => (hbehind c hc).single⟩ (Line.flat_of_isFlat h)
    (nested_of_remarks hbelow)

/-- A block: a line that opens it, nested items and a line that closes it. -/
theorem nested_block (trailing : String) {c : Code} {closing : String} {inner : List Item}
    (h : IsOpening (t.codeText c)) (hinner : Nested (inner.flatMap (Item.lines t)))
    (hclosing : IsClosing closing) :
    Nested (([Item.code c trailing] ++ inner ++ [line [.text closing]]).flatMap
      (Item.lines t)) := by
  obtain ⟨behind, below, hlines, hbehind, hbelow⟩ := exists_withTrailing (t.codeText c) trailing
  have hsingle : IsSingleLine closing := by
    obtain rfl | rfl := hclosing <;> decide
  have hblock := Nested.block (l := ⟨t.codeText c, behind⟩) (m := ⟨closing, none⟩)
    ⟨h.single, fun c hc => (hbehind c hc).single⟩ ⟨hsingle, by simp⟩ (Line.opens_of_isOpening h)
    ((nested_of_remarks hbelow).append hinner) (Line.closes_of_isClosing hclosing) .nil
  have hfirst : (Item.code c trailing).lines t = ⟨t.codeText c, behind⟩ :: below := hlines
  simpa [hfirst] using hblock

/-! ## Documentation -/

/-- Whether an item is a blank line or a comment when it is written. -/
def Item.IsRemark (t : Imports) (item : Item) : Prop :=
  ∀ l ∈ item.lines t, IsRemarkText l.code ∧ l.trailing = none

theorem isRemark_blank : Item.blank.IsRemark t := by
  intro l hl
  rw [List.mem_singleton.1 hl]
  exact ⟨⟨by decide, .inl rfl⟩, rfl⟩

theorem isRemark_comment (text : String) : (Item.comment text).IsRemark t := by
  intro l hl
  obtain ⟨c, hc, rfl⟩ := List.mem_map.1 hl
  exact ⟨isRemarkText_of_mem_commentLines hc, rfl⟩

/-- A line of text behind two slashes. -/
theorem isRemark_line {c : Code} (rest : String) (h : t.codeText c = "//" ++ rest)
    (hrest : IsSingleLine rest) : (line c).IsRemark t := by
  intro l hl
  rw [lines_line, List.mem_singleton] at hl
  subst hl
  refine ⟨⟨?_, .inr ⟨rest, h⟩⟩, rfl⟩
  rw [h, isSingleLine_append]
  exact ⟨by decide, hrest⟩

/-- Documentation is comments, if its further paragraph has no line breaks. -/
theorem Doc.isRemark_of_mem_items {d : Doc} (h : ∀ l ∈ d.paragraph, IsSingleLine l) {item : Item}
    (hitem : item ∈ d.items) : item.IsRemark t := by
  obtain rfl | rfl | rfl | ⟨l, hl, rfl⟩ := Doc.eq_of_mem_items hitem
  · exact isRemark_comment _
  · exact isRemark_line "" (by simp) (by decide)
  · refine isRemark_line " Deprecated: Do not use." ?_ (by decide)
    simp [deprecation]
  · refine isRemark_line (" " ++ l) ?_ ?_
    · simp [← String.append_assoc]
    · rw [isSingleLine_append]
      exact ⟨by decide, h l hl⟩

/-- Remarks are nested, since no brackets count in them. -/
theorem nested_of_isRemark {items : List Item} (h : ∀ item ∈ items, item.IsRemark t) :
    Nested (items.flatMap (Item.lines t)) :=
  Nested.flatMap fun item hitem => nested_of_remarks (h item hitem)

theorem nested_blank : Nested ([Item.blank].flatMap (Item.lines t)) :=
  nested_of_isRemark fun _ h => List.mem_singleton.1 h ▸ isRemark_blank

theorem Doc.nested_items {d : Doc} (h : ∀ l ∈ d.paragraph, IsSingleLine l) :
    Nested (d.items.flatMap (Item.lines t)) :=
  nested_of_isRemark fun _ => Doc.isRemark_of_mem_items h

/-! ## Declarations -/

/-- Whether a declaration is one block, behind documentation that is comments. -/
structure Decl.IsWhole (t : Imports) (d : Decl) : Prop where
  paragraph : ∀ l ∈ d.doc.paragraph, IsSingleLine l
  head : IsOpening (t.codeText d.head)
  inside : Nested (d.inside.flatMap (Item.lines t))

/-- A whole declaration is nested. -/
theorem Decl.IsWhole.nested {d : Decl} (h : d.IsWhole t) :
    Nested (d.items.flatMap (Item.lines t)) := by
  have hblock := nested_block d.trailing h.head h.inside (.inl rfl)
  have hdoc : Nested (d.doc.items.flatMap (Item.lines t)) := Doc.nested_items h.paragraph
  have hblank : Nested ([Item.blank].flatMap (Item.lines t)) := nested_blank
  have hall := (hdoc.append hblock).append hblank
  simpa [Decl.items] using hall

end TemporalBindings.Source
