import TemporalBindings.Proofs.Brackets

/-!
# TemporalBindings.Proofs.Words

The words of a text as a reader of the generated language sees them. A word is made of
characters of names and of points, and it is as long as it can be; literals and comments
have none:

```
run, err := c.t.Execute(ctx, "a.b") // d.e     run  err  c.t.Execute  ctx
```

A word ends where a character follows that is part of no word, so a text that is put
together at such a character has the words of its parts. A printed line has the words of
its code.
-/

namespace TemporalBindings.Source

open Text

/-! ## Reading words -/

/-- Whether a character is part of a word. -/
def isWordChar (c : Char) : Bool :=
  isNameChar c || c = '.'

/-- A word that has ended; nothing if there was none. -/
def ended (w : List Char) : List String :=
  if w = [] then [] else [String.ofList w]

/-- The words of a text of which a word `w` has been read already. -/
def wordsBehind : Scan → List Char → List Char → List String
  | _, w, [] => ended w
  | m, w, c :: cs =>
    if m.isCode && isWordChar c then wordsBehind (m.next c) (w ++ [c]) cs
    else ended w ++ wordsBehind (m.next c) [] cs

/-- The words of a text. -/
def words (cs : List Char) : List String :=
  wordsBehind .code [] cs

/-- Whether a word is a name behind a point and another name. Numerals are no names, and what
is behind a point alone belongs to no name. -/
def isQualified (s : String) : Bool :=
  '.' ∈ s.toList && s.toList.head?.any fun c => c ≠ '.' && !c.isDigit

example : words "run, err := c.t.Execute(ctx, \"a.b\", 0.5).Get(/* x.y */) // d.e".toList =
    ["run", "err", "c.t.Execute", "ctx", "0.5", ".Get"] := by decide

/-! ## In parts -/

theorem isInert_of_isWordChar {c : Char} (h : isWordChar c = true) : isInert c = true := by
  simp only [isWordChar, Bool.or_eq_true, decide_eq_true_eq] at h
  obtain h | rfl := h
  · exact isInert_of_isPlain (isPlain_of_isNameChar h)
  · decide

/-- Characters of words go on with the word. -/
theorem wordsBehind_append_word {s : List Char} (h : ∀ c ∈ s, isWordChar c = true)
    (w rest : List Char) : wordsBehind .code w (s ++ rest) = wordsBehind .code (w ++ s) rest := by
  induction s generalizing w with
  | nil => simp
  | cons c s ih =>
    have hc := h c List.mem_cons_self
    rw [List.cons_append, wordsBehind, Scan.next_of_isInert (isInert_of_isWordChar hc), hc,
      Scan.isCode, Bool.and_self, if_pos rfl, ih fun d hd => h d (List.mem_cons_of_mem c hd)]
    simp

/-- Any other character ends the word. Everything about texts that are put together follows
from this equation. -/
theorem wordsBehind_append_cons {m : Scan} {cs : List Char} {c : Char}
    (h : ((m.after cs).isCode && isWordChar c) = false) (w ds : List Char) :
    wordsBehind m w (cs ++ c :: ds) =
      wordsBehind m w cs ++ wordsBehind ((m.after cs).next c) [] ds := by
  induction cs generalizing m w with
  | nil =>
    have hend : (m.isCode && isWordChar c) = false := h
    have hnil : wordsBehind m w [] = ended w := rfl
    rw [hnil, List.nil_append, wordsBehind, hend, if_neg Bool.false_ne_true, Scan.after_nil]
  | cons d cs ih =>
    rw [List.cons_append, wordsBehind, wordsBehind]
    split
    · exact ih h _
    · rw [ih h [], List.append_assoc]
      rfl

/-- In literals and comments there are no words. -/
theorem wordsBehind_of_hides {m : Scan} {cs : List Char} (h : m.hides cs = true) :
    wordsBehind m [] cs = [] := by
  induction cs generalizing m with
  | nil => rfl
  | cons c cs ih =>
    rw [Scan.hides, Bool.and_eq_true, Bool.not_eq_true'] at h
    rw [wordsBehind, h.1, Bool.false_and, if_neg Bool.false_ne_true, ih h.2]
    rfl

theorem words_slashes {rest : List Char} (h : '\n' ∉ rest) : words ('/' :: '/' :: rest) = [] := by
  change wordsBehind .line [] rest = []
  exact wordsBehind_of_hides (Scan.hides_line h)

/-- A remark has no words. -/
theorem words_of_isRemarkText {s : String} (h : IsRemarkText s) : words s.toList = [] := by
  obtain rfl | ⟨rest, rfl⟩ := h.slashes
  · rfl
  · have hrest : '\n' ∉ rest.toList := fun hmem => h.single (by simp [hmem])
    rw [String.toList_append]
    exact words_slashes hrest

/-- The literal of a text has no words. -/
theorem wordsBehind_quote (w : List Char) (s : String) (rest : List Char) :
    wordsBehind .code w ((quote s).toList ++ rest) = ended w ++ words rest := by
  have hinside := isInsideQuotes_flatMap_escape s.toList
  have hend : isWordChar '"' = false := by decide
  rw [toList_quote, List.cons_append, List.append_assoc, wordsBehind, hend, Bool.and_false,
    if_neg Bool.false_ne_true]
  change ended w ++ wordsBehind (.quoted true false) [] _ = _
  rw [List.singleton_append, wordsBehind_append_cons (by rw [hend, Bool.and_false]),
    wordsBehind_of_hides hinside.hidden, hinside.after]
  rfl

/-! ## Parts of words -/

/-- Whether a text is part of a word wherever it stands. -/
def IsWordPart (s : String) : Prop :=
  s ≠ "" ∧ ∀ c ∈ s.toList, isWordChar c = true

theorem IsName.isWordPart {s : String} (h : IsName s) : IsWordPart s :=
  ⟨h.1, fun c hc => by rw [isWordChar, h.2 c hc, Bool.true_or]⟩

/-- A name alone is not qualified. -/
theorem IsName.isQualified {s : String} (h : IsName s) : isQualified s = false := by
  have hpoint : '.' ∉ s.toList := fun hmem => absurd (h.2 _ hmem) (by decide)
  simp [Source.isQualified, hpoint]

/-- Identifiers are spelled as one word, with or without an alias. -/
theorem isWordPart_spelling {t : Imports} (ht : t.HasIdentifiers) {i : Ident}
    (hi : IsName i.name) : IsWordPart (t.spelling i) := by
  unfold Imports.spelling
  split
  · exact hi.isWordPart
  · split
    · next a ha =>
      have halias := (ht _ (mem_of_lookup ha)).isName.isWordPart
      refine ⟨by simp, fun c hc => ?_⟩
      rw [String.toList_append, String.toList_append, List.mem_append, List.mem_append] at hc
      obtain (hc | hc) | hc := hc
      · exact halias.2 c hc
      · rw [List.mem_singleton.1 (show c ∈ ['.'] from hc)]
        decide
      · exact hi.isWordPart.2 c hc
    · exact hi.isWordPart

/-- How a part of a word is read: it goes on with the word that has been begun, and that is
the word if the text ends there. -/
theorem IsWordPart.read {s : String} (h : IsWordPart s) :
    ((∀ w rest, wordsBehind .code w (s.toList ++ rest) = wordsBehind .code (w ++ s.toList) rest) ∧
      ∀ w, wordsBehind .code w s.toList = [String.ofList w ++ s]) ∧ s ≠ "" := by
  refine ⟨⟨fun w rest => wordsBehind_append_word h.2 w rest, fun w => ?_⟩, h.1⟩
  have hread := wordsBehind_append_word h.2 w []
  rw [List.append_nil] at hread
  rw [hread, wordsBehind, ended, if_neg (by simp [h.1]), String.ofList_append, String.ofList_toList]

/-! ## Trimmed text -/

theorem isWordChar_of_isBlank {c : Char} (h : isBlank c = true) : isWordChar c = false := by
  by_contra hword
  simp only [isWordChar, Bool.not_eq_false, Bool.or_eq_true, decide_eq_true_eq] at hword
  obtain hname | rfl := hword
  · simp [isBlank_of_isPlain (isPlain_of_isNameChar hname)] at h
  · exact absurd h (by decide)

theorem words_cons_of_isBlank {c : Char} (h : isBlank c = true) (cs : List Char) :
    words (c :: cs) = words cs := by
  rw [words, wordsBehind, isWordChar_of_isBlank h, Bool.and_false, if_neg Bool.false_ne_true,
    Scan.next_of_isInert (isInert_of_isBlank h)]
  rfl

/-- Blanks at the ends of a text are no words. -/
theorem words_trim (cs : List Char) : words (trim cs) = words cs := by
  have hfront : words (cs.dropWhile isBlank) = words cs := by
    induction cs with
    | nil => rfl
    | cons c cs ih =>
      by_cases hc : isBlank c
      · rw [List.dropWhile_cons_of_pos hc, ih, words_cons_of_isBlank hc]
      · rw [List.dropWhile_cons_of_neg hc]
  have hback (ds : List Char) : words (ds.rdropWhile isBlank) = words ds := by
    induction ds using List.reverseRecOn with
    | nil => rfl
    | append_singleton ds c ih =>
      by_cases hc : isBlank c
      · have hend : ((Scan.code.after ds).isCode && isWordChar c) = false := by
          rw [isWordChar_of_isBlank hc, Bool.and_false]
        rw [List.rdropWhile_concat_pos _ _ _ hc, ih, words, words, wordsBehind_append_cons hend]
        exact (List.append_nil _).symm
      · rw [List.rdropWhile_concat_neg _ _ _ hc]
  exact (hback _).trans hfront

theorem words_replicate {c : Char} (h : isBlank c = true) (n : Nat) (cs : List Char) :
    words (List.replicate n c ++ cs) = words cs := by
  induction n with
  | zero => rfl
  | succ n ih => rw [List.replicate_succ, List.cons_append, words_cons_of_isBlank h, ih]

/-! ## Printed lines -/

/-- The words of lines. -/
def wordsOf (ls : List (List Char)) : List String :=
  words (ls.flatMap (· ++ ['\n']))

namespace Line

/-- A line in which code and comments are told apart is printed with the words of its code. -/
theorem IsParted.words_render {l : Line} (h : l.IsParted) (depth : Nat) :
    words (l.render depth).toList = words l.code.toList ∧ IsClosed (l.render depth) := by
  obtain ⟨hcode, htrailing⟩ | ⟨htokens, hsingle, htrailing⟩ := h
  · refine ⟨?_, (codeLines_render_of_isRemarkText hcode htrailing depth).2⟩
    rw [words_of_isRemarkText hcode]
    obtain hrender | ⟨rest, hrest, hrender⟩ := render_of_isRemarkText hcode htrailing depth
    · rw [hrender]
      rfl
    · rw [hrender, words_replicate (by decide), words_slashes hrest]
  · refine ⟨?_, (codeLines_render_of_isTokens htokens hsingle htrailing depth).2⟩
    rw [← words_trim l.code.toList, ← text]
    by_cases hblank : l.text = []
    · rw [hblank, show l.render depth = "" from if_pos hblank]
      rfl
    rw [toList_render hblank, words_replicate (by decide), shown]
    cases hbehind : l.trailing with
    | none => simp [behind]
    | some comment =>
      have hbetween : (Scan.code.after l.text).IsBetween := (htokens.trim hsingle).2
      have hend : ((Scan.code.after l.text).isCode && isWordChar ' ') = false := by
        rw [isWordChar_of_isBlank (by decide), Bool.and_false]
      have hlist : (behind (some comment)).toList = ' ' :: comment.toList := by simp [behind]
      have hcomment := words_of_isRemarkText (htrailing comment (by rw [hbehind]; rfl))
      rw [hlist, words, wordsBehind_append_cons hend, (hbetween.blank (by decide)).2]
      exact (congrArg _ hcomment).trans (List.append_nil _)

end Line

theorem words_append_newline {s : String} (h : IsClosed s) (rest : List Char) :
    words (s.toList ++ '\n' :: rest) = words s.toList ++ words rest := by
  have hend : ((Scan.code.after s.toList).isCode && isWordChar '\n') = false := by
    rw [isWordChar_of_isBlank (by decide), Bool.and_false]
  rw [words, wordsBehind_append_cons hend, h]
  rfl

/-- Printed lines have the words of their code, in order. -/
theorem wordsOf_indent {ls : List Line} (h : ∀ l ∈ ls, l.IsParted) (depth : Nat)
    (rest : List (List Char)) :
    wordsOf ((indent depth ls).flatMap textLines ++ rest) =
      (ls.flatMap fun l => words l.code.toList) ++ wordsOf rest := by
  induction ls generalizing depth with
  | nil => rfl
  | cons l ls ih =>
    obtain ⟨hparted, hls⟩ := List.forall_mem_cons.1 h
    obtain ⟨hwords, hclosed⟩ := hparted.words_render depth
    have hrest := ih hls (l.depthAfter depth)
    rw [indent, List.flatMap_cons, List.flatMap_cons, List.append_assoc, List.append_assoc, ← hrest,
      ← hwords]
    by_cases hempty : l.render depth = ""
    · rw [hempty, textLines_empty]
      rfl
    · have hsingle := Line.isSingleLine_render hparted.isSingle depth
      rw [textLines_of_isSingleLine hsingle hempty, wordsOf,
        List.singleton_append, List.flatMap_cons, List.append_assoc, List.singleton_append,
        words_append_newline hclosed]
      rfl

end TemporalBindings.Source
