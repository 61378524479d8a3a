import TemporalBindings.Proofs.Comments

/-!
# TemporalBindings.Proofs.Printed

The code that items are printed as. Each line of code is printed with a tab for every block
that it stands in, and nothing is printed for a remark:

```
Prints t depth items out   items at a depth are printed as the lines out, whatever follows
```

What is printed for items one after the other is printed one after the other, so it is
enough to know this of single lines and of blocks.
-/

namespace TemporalBindings.Source

open Text

variable {t : Imports} {depth : Nat}

/-! ## Lines -/

/-- A line of code as it is printed inside some blocks. -/
def tabbed (depth : Nat) (s : String) : List Char :=
  List.replicate depth '\t' ++ s.toList

/-- The code in lines that begin inside some blocks. -/
def codeAt (depth : Nat) (ls : List Line) : List (List Char) :=
  (indent depth ls).flatMap codeLines

theorem codeAt_cons (l : Line) (ls : List Line) :
    codeAt depth (l :: ls) = codeLines (l.render depth) ++ codeAt (l.depthAfter depth) ls := rfl

/-- Whole tokens without blanks around them are printed behind tabs. -/
theorem codeLines_render {s : String} (htokens : IsTokens s) (hsingle : IsSingleLine s)
    (htext : Line.text ⟨s, none⟩ = s.toList) (hlast : s.toList.getLast?.any (!isBlank ·) = true)
    (depth : Nat) :
    codeLines (Line.render ⟨s, none⟩ depth) = [tabbed (Line.level ⟨s, none⟩ depth) s] := by
  have hne : s.toList ≠ [] := fun h => by simp [h] at hlast
  have htabs : ∀ c ∈ List.replicate (Line.level ⟨s, none⟩ depth) '\t', isInert c = true :=
    fun c hc => by rw [List.eq_of_mem_replicate hc]; decide
  obtain ⟨hkept, hafter⟩ := uncomment_of_isInert htabs
  have hrender : (Line.render ⟨s, none⟩ depth).toList = tabbed (Line.level ⟨s, none⟩ depth) s := by
    simp [Line.render, htext, hne, tabbed]
  have huncomment : uncomment .code (Line.render ⟨s, none⟩ depth).toList =
      tabbed (Line.level ⟨s, none⟩ depth) s := by
    rw [hrender, tabbed, uncomment_append (by rw [hafter]; rfl), hkept, hafter, htokens.1]
  have hbreak : '\n' ∉ tabbed (Line.level ⟨s, none⟩ depth) s := by
    rw [tabbed, List.mem_append, not_or]
    exact ⟨by simp, hsingle⟩
  have hblank : (tabbed (Line.level ⟨s, none⟩ depth) s).rdropWhile isBlank =
      tabbed (Line.level ⟨s, none⟩ depth) s := by
    refine List.rdropWhile_eq_self_iff.2 fun htabbed => ?_
    rw [List.getLast?_eq_some_getLast hne] at hlast
    simp only [tabbed, List.getLast_append_of_ne_nil htabbed hne]
    simpa using hlast
  rw [codeLines_of_uncomment huncomment hbreak, hblank]
  simp [tabbed, hne]

theorem codeAt_flat {s : String} (h : IsFlat s) (htokens : IsTokens s) (ls : List Line) :
    codeAt depth (⟨s, none⟩ :: ls) = tabbed depth s :: codeAt depth ls := by
  have hflat := Line.flat_of_isFlat (l := ⟨s, none⟩) h
  have hlast : s.toList.getLast?.any (!isBlank ·) = true := by
    have hend := h.last
    cases hs : s.toList.getLast? with
    | none => simp [hs] at hend
    | some c =>
      have hc : isFlatEnd c = true := by simpa [hs] using hend
      simp only [isFlatEnd, Bool.and_eq_true] at hc
      simpa using hc.1.1
  rw [codeAt_cons, codeLines_render htokens h.single (Line.text_of_isFlat h) hlast,
    Line.level_of_not_closes depth hflat.2, Line.depthAfter_of_flat depth hflat]
  rfl

theorem codeAt_opening {s : String} (h : IsOpening s) (htokens : IsTokens s) (ls : List Line) :
    codeAt depth (⟨s, none⟩ :: ls) = tabbed depth s :: codeAt (depth + 1) ls := by
  have hopens := Line.opens_of_isOpening (l := ⟨s, none⟩) h
  rw [codeAt_cons, codeLines_render htokens h.single (Line.text_of_isOpening h)
    (by rw [h.last]; decide), Line.level_of_not_closes depth hopens.2,
    Line.depthAfter_of_opens depth hopens]
  rfl

theorem codeAt_closing {s : String} (h : IsClosing s) (ls : List Line) :
    codeAt (depth + 1) (⟨s, none⟩ :: ls) = tabbed depth s :: codeAt depth ls := by
  have hcloses := Line.closes_of_isClosing (l := ⟨s, none⟩) h
  have hlevel : Line.level ⟨s, none⟩ (depth + 1) = depth := if_pos hcloses.2
  have hlast : IsTokens s ∧ IsSingleLine s ∧ s.toList.getLast?.any (!isBlank ·) = true := by
    obtain rfl | rfl := h <;> decide
  rw [codeAt_cons, codeLines_render hlast.1 hlast.2.1 (Line.text_of_isClosing h) hlast.2.2, hlevel,
    Line.depthAfter_of_closes _ hcloses]
  rfl

/-! ## Items -/

/-- Whether items inside some blocks are printed as lines of code, with a tab for each block
at least. They leave what follows where it is. -/
structure Prints (t : Imports) (depth : Nat) (items : List Item) (out : List (List Char)) :
    Prop where
  code : ∀ ls, codeAt depth (bareLines t items ++ ls) = out ++ codeAt depth ls
  tabs : ∀ l ∈ out, List.replicate depth '\t' <+: l

namespace Prints

theorem nil : Prints t depth [] [] :=
  ⟨fun _ => rfl, by simp⟩

theorem append {items items' : List Item} {out out' : List (List Char)}
    (h : Prints t depth items out) (h' : Prints t depth items' out') :
    Prints t depth (items ++ items') (out ++ out') where
  code ls := by
    rw [bareLines_append, List.append_assoc, h.code, h'.code, List.append_assoc]
  tabs l hl := (List.mem_append.1 hl).elim (h.tabs l) (h'.tabs l)

/-- Items that belong to elements one by one. -/
theorem flatMap {α β : Type} {xs : List α} {ys : List β} {f : α → List Item}
    {g : β → List (List Char)}
    (h : List.Forall₂ (fun x y => Prints t depth (f x) (g y)) xs ys) :
    Prints t depth (xs.flatMap f) (ys.flatMap g) := by
  induction h with
  | nil => exact nil
  | cons h _ ih => exact h.append ih

/-- Items that are printed as one line each. -/
theorem map {α : Type} {xs : List α} {f : α → List Item} {g : α → List Char}
    (h : ∀ x ∈ xs, Prints t depth (f x) [g x]) : Prints t depth (xs.flatMap f) (xs.map g) := by
  rw [List.map_eq_flatMap]
  exact flatMap (List.forall₂_same.2 h)

/-- Nothing is printed for documentation. -/
theorem doc (d : Doc) : Prints t depth d.items [] where
  code ls := by rw [bareLines_doc]; rfl
  tabs := by simp

theorem blank : Prints t depth [.blank] [] :=
  ⟨fun _ => rfl, by simp⟩

/-- A comment behind a line is not printed. -/
theorem remarked {c : Code} {out : List (List Char)} (h : Prints t depth [line c] out)
    (trailing : String) : Prints t depth [.code c trailing] out where
  code ls := by rw [bareLines_code, h.code]
  tabs := h.tabs

/-- What is left of a line with whole tokens is all of it. -/
theorem bareLines_line {c : Code} (hread : IsSingleLine (t.codeText c) ∧ IsTokens (t.codeText c))
    (htext : Line.text ⟨t.codeText c, none⟩ ≠ []) :
    bareLines t [line c] = [⟨t.codeText c, none⟩] := by
  have hcomment : Line.isComment ⟨t.codeText c, none⟩ = false :=
    Line.isComment_of_isTokens hread.2 hread.1
  have hbare : Line.bare? ⟨t.codeText c, none⟩ = some ⟨t.codeText c, none⟩ :=
    if_neg (by simp [htext, hcomment])
  rw [bareLines, List.flatMap_singleton, lines_line, List.filterMap_cons_some hbare]
  rfl

theorem flat {c : Code} (h : t.IsFlatLine c) :
    Prints t depth [line c] [tabbed depth (t.codeText c)] where
  code ls := by
    have htext : Line.text ⟨t.codeText c, none⟩ ≠ [] := fun hnil => by
      have htrimmed : Line.text ⟨t.codeText c, none⟩ = (t.codeText c).toList :=
        Line.text_of_isFlat h.isFlat
      have hfirst := h.isFlat.first
      simp [← htrimmed, hnil] at hfirst
    rw [bareLines_line h.read.1 htext]
    exact codeAt_flat h.isFlat h.read.1.2 ls
  tabs l hl := ⟨_, (List.mem_singleton.1 hl).symm⟩

/-- A block is printed with what is inside of it one deeper. -/
theorem block {c : Code} {inner : List Item} {out : List (List Char)} (h : t.IsOpeningLine c)
    (hinner : Prints t (depth + 1) inner out) :
    Prints t depth ([line c] ++ inner ++ [line ["\x7d"]])
      ([tabbed depth (t.codeText c)] ++ out ++ [tabbed depth "\x7d"]) where
  code ls := by
    have htext : Line.text ⟨t.codeText c, none⟩ ≠ [] := fun hnil => by
      have htrimmed : Line.text ⟨t.codeText c, none⟩ = (t.codeText c).toList :=
        Line.text_of_isOpening h.isOpening
      have hlast := h.isOpening.last
      simp [← htrimmed, hnil] at hlast
    have hend : bareLines t [line ["\x7d"]] = [⟨"\x7d", none⟩] := by
      rw [bareLines_line (by simp +decide) (by simp +decide)]
      simp
    rw [bareLines_append, bareLines_append, bareLines_line h.read.1 htext, hend,
      List.append_assoc, List.append_assoc, List.singleton_append,
      codeAt_opening h.isOpening h.read.1.2, hinner.code, List.singleton_append,
      codeAt_closing (.inl rfl)]
    simp
  tabs l hl := by
    simp only [List.mem_append, List.mem_singleton] at hl
    obtain (rfl | hl) | rfl := hl
    · exact ⟨_, rfl⟩
    · have htabs := hinner.tabs l hl
      rw [List.replicate_succ'] at htabs
      exact (List.prefix_append _ _).trans htabs
    · exact ⟨_, rfl⟩

end Prints

/-! ## Statements -/

/-- A literal without fields is one line. -/
theorem Literal.prints_of_nil {l : Literal} {before : Code} {after : String}
    (hfields : l.fields = [])
    (h : t.IsFlatLine (before ++ [.ident l.type, .text ("\x7b\x7d" ++ after)])) :
    Prints t depth (l.items before after)
      [tabbed depth (t.codeText before ++ t.spelling l.type ++ ("\x7b\x7d" ++ after))] := by
  have htext : t.codeText (before ++ [.ident l.type, .text ("\x7b\x7d" ++ after)]) =
      t.codeText before ++ t.spelling l.type ++ ("\x7b\x7d" ++ after) := by
    simp [String.append_assoc]
  rw [Literal.items, hfields, ← htext]
  exact Prints.flat h

/-- What is printed for a literal: a line that begins with the code before it, and lines that
are deeper or begin with a brace. -/
theorem Literal.exists_prints {l : Literal} (before : Code)
    (hsound : t.IsSound (before ++ [.ident l.type]))
    (hbegins : t.Begins (before ++ [.ident l.type]))
    (hfields : ∀ f ∈ l.fields, IsWord f.1 ∧ t.IsSound f.2) :
    ∃ rest inside, Prints t 1 (l.items before "")
        (('\t' :: (t.codeText before).toList ++ rest) :: inside) ∧
      ∀ line ∈ inside, (∃ rest, line = '\t' :: '\t' :: rest) ∨ ∃ rest, line = '\t' :: '}' :: rest := by
  by_cases hnone : l.fields = []
  · have hprints : Prints t 1 (l.items before "") _ :=
      prints_of_nil hnone (isFlatLine_of_nil hsound hbegins)
    refine ⟨(t.spelling l.type ++ ("\x7b\x7d" ++ "")).toList, [], ?_, by simp⟩
    simpa [tabbed] using hprints
  · have hitems : l.items before "" = [line (before ++ [.ident l.type, .text "\x7b"])] ++
        l.fields.flatMap (fun f =>
          [line (.text (key (width l.fields) f.1 ++ " ") :: f.2 ++ [.text ","])]) ++
        [line ["\x7d"]] := by
      rw [Literal.items]
      split
      · next h => exact absurd h hnone
      · rw [List.map_eq_flatMap]
        rfl
    have hinner : Prints t 2 _ (l.fields.map fun f => tabbed 2
        (t.codeText (.text (key (width l.fields) f.1 ++ " ") :: f.2 ++ [.text ","]))) :=
      Prints.map fun f hf => Prints.flat (isFlatLine_field (width l.fields) (hfields f hf))
    have hprints := Prints.block (isOpeningLine hsound hbegins) hinner
    rw [← hitems, List.append_assoc] at hprints
    refine ⟨(t.spelling l.type ++ "\x7b").toList, _, by simpa [tabbed] using hprints,
      fun line hline => ?_⟩
    obtain hline | rfl := by simpa using hline
    · obtain ⟨a, b, -, rfl⟩ := hline
      exact .inl ⟨_, rfl⟩
    · exact .inr ⟨_, rfl⟩

/-- Code on one line, as it is printed in a function. -/
theorem Stmt.prints_code (names : List String) (value : Code)
    (h : t.IsFlatLine (defining names ++ value)) :
    Prints t 1 (Stmt.code names value).items
      ['\t' :: (t.codeText (defining names ++ value)).toList] :=
  Prints.flat h

/-- A branch is printed as a block. -/
theorem Stmt.prints_branch (start : Option (String × Code)) (condition : Code) (body : List Code)
    (h : t.IsSound (branchStart start ++ condition)) (hbody : ∀ c ∈ body, t.IsFlatLine c) :
    Prints t 1 (Stmt.branch start condition body).items
      (['\t' :: "if ".toList ++ (t.codeText (branchStart start ++ condition)).toList ++
          " \x7b".toList] ++ body.map (fun c => tabbed 2 (t.codeText c)) ++ [['\t', '}']]) := by
  have hinner : Prints t 2 (body.map line) (body.map fun c => tabbed 2 (t.codeText c)) := by
    rw [List.map_eq_flatMap]
    exact Prints.map fun c hc => Prints.flat (hbody c hc)
  have hprints := Prints.block (isOpeningLine_branch h) hinner
  rw [Stmt.items]
  simpa [tabbed] using hprints

/-! ## Declarations -/

/-- A declaration in the code of a file: its first line and the lines inside of it. -/
structure Block where
  head : List Char
  inside : List (List Char)

/-- All lines of a declaration: a brace at the margin ends it. -/
def Block.lines (b : Block) : List (List Char) :=
  b.head :: b.inside ++ [['}']]

/-- The declarations in lines of code. Each begins with a line that introduces a name. -/
def blocks : List (List Char) → List Block
  | [] => []
  | l :: ls =>
    if (introduced? l).isSome then ⟨l, ls.takeWhile (· ≠ ['}'])⟩ :: blocks ls else blocks ls

/-- Whether a declaration introduces a name and all lines inside of it are indented. -/
structure Block.IsWhole (b : Block) : Prop where
  head : (introduced? b.head).isSome = true
  inside : ∀ l ∈ b.inside, ['\t'] <+: l

theorem blocks_append_of_tabs {ls : List (List Char)} (h : ∀ l ∈ ls, ['\t'] <+: l)
    (ms : List (List Char)) : blocks (ls ++ ms) = blocks ms := by
  induction ls with
  | nil => rfl
  | cons l ls ih =>
    obtain ⟨⟨rest, rfl⟩, hls⟩ := List.forall_mem_cons.1 h
    have hnone : introduced? (['\t'] ++ rest) = none := by simp [introduced?, stripStart?]
    rw [List.cons_append, blocks, hnone, if_neg (by simp), ih hls]

/-- Declarations are found in their lines, one after the other. -/
theorem blocks_flatMap_lines {bs : List Block} (h : ∀ b ∈ bs, b.IsWhole) :
    blocks (bs.flatMap Block.lines) = bs := by
  induction bs with
  | nil => rfl
  | cons b bs ih =>
    obtain ⟨hb, hbs⟩ := List.forall_mem_cons.1 h
    have hbrace : introduced? ['}'] = none := by decide
    have hinside : (b.inside ++ (['}'] :: bs.flatMap Block.lines)).takeWhile (· ≠ ['}']) =
        b.inside := by
      rw [List.takeWhile_append_of_pos fun l hl => ?_, List.takeWhile_cons_of_neg (by simp),
        List.append_nil]
      obtain ⟨rest, rfl⟩ := hb.inside l hl
      simp
    rw [List.flatMap_cons, Block.lines, List.append_assoc, List.cons_append, List.singleton_append,
      blocks, if_pos hb.head, hinside, blocks_append_of_tabs hb.inside, blocks, hbrace,
      if_neg (by simp), ih hbs]

/-- Whether items are printed as declarations, outside of everything. -/
structure PrintsBlocks (t : Imports) (items : List Item) (bs : List Block) : Prop where
  prints : Prints t 0 items (bs.flatMap Block.lines)
  whole : ∀ b ∈ bs, b.IsWhole

namespace PrintsBlocks

theorem nil : PrintsBlocks t [] [] :=
  ⟨.nil, by simp⟩

theorem append {items items' : List Item} {bs bs' : List Block} (h : PrintsBlocks t items bs)
    (h' : PrintsBlocks t items' bs') : PrintsBlocks t (items ++ items') (bs ++ bs') where
  prints := by
    rw [List.flatMap_append]
    exact h.prints.append h'.prints
  whole b hb := (List.mem_append.1 hb).elim (h.whole b) (h'.whole b)

/-- Items that belong to elements one by one. -/
theorem flatMap {α : Type} {xs : List α} {f : α → List Item} {groups : List (List Block)}
    (h : List.Forall₂ (fun x bs => PrintsBlocks t (f x) bs) xs groups) :
    PrintsBlocks t (xs.flatMap f) groups.flatten := by
  induction h with
  | nil => exact nil
  | cons h _ ih => exact h.append ih

end PrintsBlocks

/-- A declaration is printed as its first line and what is printed for what is inside. -/
theorem prints_decl {d : Decl} {inside : List (List Char)} (h : t.IsOpeningLine d.head)
    (hinside : Prints t 1 d.inside inside) :
    Prints t 0 d.items (Block.lines ⟨(t.codeText d.head).toList, inside⟩) := by
  have hblock := Prints.block h hinside
  have hremarked : Prints t 0 ([.code d.head d.trailing] ++ d.inside ++ [line ["\x7d"]])
      ([tabbed 0 (t.codeText d.head)] ++ inside ++ [tabbed 0 "\x7d"]) := by
    refine ⟨fun ls => ?_, hblock.tabs⟩
    rw [← hblock.code, bareLines_append, bareLines_append, bareLines_code, ← bareLines_append,
      ← bareLines_append]
  have hall := ((Prints.doc d.doc).append hremarked).append Prints.blank
  simpa [Decl.items, Block.lines, tabbed] using hall

end TemporalBindings.Source
