import TemporalBindings.Proofs.NormalForm

/-!
# TemporalBindings.Proofs.Brackets

The braces and parentheses of a text as a reader of the generated language sees them: those
in literals and in comments do not count. The reader keeps the brackets that are open,
innermost first and each as the one that closes it, and fails where one closes that is not
the innermost:

```
f(ctx, T{       opens  )  and then  }
})              closes  }  and then  )
"f({" // f({    opens nothing
```

The layout knows blocks by the first and the last character of a line. A line on which the
two agree matches, and printed lines that match are behind as many tabs as there are brackets
open before them.
-/

namespace TemporalBindings.Source

open Text

/-! ## Reading brackets -/

/-- What is open behind one more character of code. -/
def bracket? (opened : List Char) (c : Char) : Option (List Char) :=
  if c = '{' then some ('}' :: opened)
  else if c = '(' then some (')' :: opened)
  else if c = '}' ∨ c = ')' then if opened.head? = some c then some opened.tail else none
  else some opened

/-- What is open behind some more characters. -/
def openBehind? : Scan → List Char → List Char → Option (List Char)
  | _, opened, [] => some opened
  | m, opened, c :: cs =>
    (if m.isCode then bracket? opened c else some opened).bind fun o => openBehind? (m.next c) o cs

example : openBehind? .code [] "if s := f(\"\x7d\"); s == '\x7b' \x7b // (".toList = some ['}'] := by decide

theorem openBehind?_append (m : Scan) (opened cs ds : List Char) :
    openBehind? m opened (cs ++ ds) =
      (openBehind? m opened cs).bind fun o => openBehind? (m.after cs) o ds := by
  induction cs generalizing m opened with
  | nil => rfl
  | cons c cs ih =>
    rw [List.cons_append, openBehind?, openBehind?, Option.bind_assoc]
    exact congrArg _ (funext fun o => ih (m.next c) o)

/-- Brackets that are not closed do not matter. -/
theorem openBehind?_frame {m : Scan} {opened opened' cs : List Char}
    (h : openBehind? m opened cs = some opened') (base : List Char) :
    openBehind? m (opened ++ base) cs = some (opened' ++ base) := by
  have hstep {o o' : List Char} {c : Char} (hc : bracket? o c = some o') :
      bracket? (o ++ base) c = some (o' ++ base) := by
    unfold bracket? at hc ⊢
    split_ifs at hc with hbrace hparen hclose hhead
    · obtain rfl := Option.some.inj hc
      rw [if_pos hbrace]
      rfl
    · obtain rfl := Option.some.inj hc
      rw [if_neg hbrace, if_pos hparen]
      rfl
    · obtain rfl := Option.some.inj hc
      obtain ⟨rest, rfl⟩ := List.head?_eq_some_iff.1 hhead
      simp [hbrace, hparen, hclose]
    · obtain rfl := Option.some.inj hc
      rw [if_neg hbrace, if_neg hparen, if_neg hclose]
  induction cs generalizing m opened with
  | nil =>
    obtain rfl := Option.some.inj h
    rfl
  | cons c cs ih =>
    rw [openBehind?] at h ⊢
    obtain ⟨o, ho, hcs⟩ := Option.bind_eq_some_iff.1 h
    cases hcode : m.isCode with
    | true =>
      rw [if_pos hcode] at ho
      rw [if_pos rfl, hstep ho]
      exact ih hcs
    | false =>
      rw [if_neg (by simp [hcode]), Option.some.injEq] at ho
      rw [if_neg (by simp), ho]
      exact ih hcs

/-! ## Texts that leave all as it was -/

/-- Whether a character is a brace or a parenthesis. -/
def isBracket (c : Char) : Bool :=
  c = '{' || c = '(' || c = '}' || c = ')'

theorem bracket?_of_not_isBracket {c : Char} (h : isBracket c = false) (opened : List Char) :
    bracket? opened c = some opened := by
  simp only [isBracket, Bool.or_eq_false_iff, decide_eq_false_iff_not] at h
  simp [bracket?, h]

/-- Without brackets nothing changes, whatever is read. -/
theorem openBehind?_of_not_isBracket {cs : List Char} (h : ∀ c ∈ cs, isBracket c = false)
    (m : Scan) (opened : List Char) : openBehind? m opened cs = some opened := by
  induction cs generalizing m with
  | nil => rfl
  | cons c cs ih =>
    rw [openBehind?, bracket?_of_not_isBracket (h c List.mem_cons_self), ite_self, Option.bind_some]
    exact ih (fun d hd => h d (List.mem_cons_of_mem c hd)) (m.next c)

theorem openBehind?_singleton {c : Char} (h : isBracket c = false) (m : Scan)
    (opened : List Char) : openBehind? m opened [c] = some opened :=
  openBehind?_of_not_isBracket (fun _ hd => List.mem_singleton.1 hd ▸ h) m opened

/-- The characters of a class without brackets are no brackets. -/
theorem not_isBracket_of_class {p : Char → Bool} {c : Char} (h : p c = true)
    (hp : ['{', '(', '}', ')'].any p = false) : isBracket c = false := by
  have hne : ∀ d ∈ ['{', '(', '}', ')'], c ≠ d := fun d hd =>
    ne_of_class h (by simpa using List.any_eq_false.1 hp d hd)
  simp only [List.forall_mem_cons] at hne
  simp [isBracket, hne]

theorem not_isBracket_of_isPlain {c : Char} (h : isPlain c = true) : isBracket c = false :=
  not_isBracket_of_class h (by decide)

theorem not_isBracket_of_isBlank {c : Char} (h : isBlank c = true) : isBracket c = false :=
  not_isBracket_of_class h (by decide)

theorem not_isBracket_of_isNumeralChar {c : Char} (h : isNumeralChar c = true) :
    isBracket c = false :=
  not_isBracket_of_class h (by decide)

/-- In literals and comments no bracket counts. -/
theorem openBehind?_of_hides {m : Scan} {cs : List Char} (h : m.hides cs = true)
    (opened : List Char) : openBehind? m opened cs = some opened := by
  induction cs generalizing m with
  | nil => rfl
  | cons c cs ih =>
    rw [Scan.hides, Bool.and_eq_true, Bool.not_eq_true'] at h
    rw [openBehind?, h.1]
    exact ih h.2

theorem openBehind?_slashes {rest : List Char} (h : '\n' ∉ rest) (opened : List Char) :
    openBehind? .code opened ('/' :: '/' :: rest) = some opened :=
  openBehind?_of_hides (Scan.hides_line h) opened

/-- The literal of a text has no brackets that count. -/
theorem openBehind?_quote (s : String) (opened : List Char) :
    openBehind? .code opened (quote s).toList = some opened := by
  have hinside := isInsideQuotes_flatMap_escape s.toList
  rw [toList_quote]
  change openBehind? (.quoted true false) opened (s.toList.flatMap escape ++ ['"']) = some opened
  rw [openBehind?_append, openBehind?_of_hides hinside.hidden, hinside.after]
  rfl

/-! ## Trimmed text -/

/-- Blanks at its ends do not change what a text opens. -/
theorem openBehind?_trim (opened cs : List Char) :
    openBehind? .code opened (trim cs) = openBehind? .code opened cs := by
  have hfront : openBehind? .code opened (cs.dropWhile isBlank) = openBehind? .code opened cs := by
    induction cs with
    | nil => rfl
    | cons c cs ih =>
      by_cases hc : isBlank c
      · rw [List.dropWhile_cons_of_pos hc, ih, openBehind?,
          Scan.next_of_isInert (isInert_of_isBlank hc),
          bracket?_of_not_isBracket (not_isBracket_of_isBlank hc), ite_self, Option.bind_some]
      · rw [List.dropWhile_cons_of_neg hc]
  have hback (ds : List Char) :
      openBehind? .code opened (ds.rdropWhile isBlank) = openBehind? .code opened ds := by
    induction ds using List.reverseRecOn with
    | nil => rfl
    | append_singleton ds c ih =>
      by_cases hc : isBlank c
      · rw [List.rdropWhile_concat_pos _ _ _ hc, ih, openBehind?_append]
        simp [openBehind?_singleton (not_isBracket_of_isBlank hc)]
      · rw [List.rdropWhile_concat_neg _ _ _ hc]
  exact (hback _).trans hfront

/-- What a text ends with is left if it is not a blank. -/
theorem getLast?_trim {s : List Char} {c : Char} (h : s.getLast? = some c)
    (hc : isBlank c = false) : (trim s).getLast? = some c := by
  obtain ⟨cs, rfl⟩ := List.getLast?_eq_some_iff.1 h
  have hsingle : [c].dropWhile isBlank = [c] := List.dropWhile_cons_of_neg (by simp [hc])
  obtain ⟨ds, hds⟩ : ∃ ds, (cs ++ [c]).dropWhile isBlank = ds ++ [c] := by
    rw [List.dropWhile_append, hsingle]
    split
    · exact ⟨[], rfl⟩
    · exact ⟨_, rfl⟩
  have htrim : trim (cs ++ [c]) = ((cs ++ [c]).dropWhile isBlank).rdropWhile isBlank := rfl
  rw [htrim, hds, List.rdropWhile_concat_neg _ _ _ (by simp [hc]), List.getLast?_concat]

/-! ## Printed lines -/

namespace Line

/-- Whether the brackets of a line, however deep it is printed, are those of the blocks that
it ends and begins, and the next line begins outside of all literals and comments. -/
def IsMatched (l : Line) : Prop :=
  ∀ depth, IsClosed (l.render depth) ∧
    openBehind? .code (if l.closes then ['}'] else []) (l.render depth).toList =
      some (if l.opens then ['}'] else [])

theorem openBehind?_tabs (n : Nat) (opened : List Char) :
    openBehind? .code opened (List.replicate n '\t') = some opened ∧
      Scan.code.after (List.replicate n '\t') = .code := by
  have htabs : ∀ c ∈ List.replicate n '\t', isInert c = true ∧ isBracket c = false :=
    fun c hc => by rw [List.eq_of_mem_replicate hc]; decide
  exact ⟨openBehind?_of_not_isBracket (fun c hc => (htabs c hc).2) .code opened,
    (uncomment_of_isInert fun c hc => (htabs c hc).1).2⟩

/-- Remarks have no brackets that count. -/
theorem isMatched_of_isRemarkText {l : Line} (hcode : IsRemarkText l.code)
    (htrailing : l.trailing = none) : l.IsMatched := by
  obtain ⟨hopens, hcloses⟩ := flat_of_isRemarkText hcode
  intro depth
  refine ⟨(codeLines_render_of_isRemarkText hcode htrailing depth).2, ?_⟩
  rw [hopens, hcloses]
  obtain hrender | ⟨rest, hrest, hrender⟩ := render_of_isRemarkText hcode htrailing depth
  · rw [hrender]
    rfl
  · obtain ⟨htabs, hafter⟩ := openBehind?_tabs (l.level depth) []
    rw [hrender, openBehind?_append, hafter]
    simp only [Bool.false_eq_true, if_false]
    rw [htabs]
    exact openBehind?_slashes hrest []

/-- A line of whole tokens has the brackets of its code, wherever it is printed. -/
theorem openBehind?_render {l : Line} (h : IsTokens l.code) (hs : IsSingleLine l.code)
    (htrailing : ∀ c ∈ l.trailing, IsRemarkText c) (depth : Nat) (opened : List Char) :
    openBehind? .code opened (l.render depth).toList = openBehind? .code opened l.code.toList := by
  rw [← openBehind?_trim opened l.code.toList, ← text]
  by_cases hblank : l.text = []
  · have hrender : l.render depth = "" := if_pos hblank
    rw [hrender, hblank]
    rfl
  have hbetween : (Scan.code.after l.text).IsBetween := (h.trim hs).2
  have hbehind (o : List Char) :
      openBehind? (Scan.code.after l.text) o (behind l.trailing).toList = some o := by
    cases hcomment : l.trailing with
    | none => rfl
    | some comment =>
      have hremark := htrailing comment (by rw [hcomment]; rfl)
      have hlist : (behind (some comment)).toList = [' '] ++ comment.toList := by simp [behind]
      rw [hlist, openBehind?_append, openBehind?_singleton (by decide), Scan.after_cons,
        (hbetween.blank (c := ' ') (by decide)).2]
      obtain rfl | ⟨rest, rfl⟩ := hremark.slashes
      · rfl
      · have hrest : '\n' ∉ rest.toList := fun hmem => hremark.single (by simp [hmem])
        rw [String.toList_append]
        exact openBehind?_slashes hrest o
  obtain ⟨htabs, hafter⟩ := openBehind?_tabs (l.level depth) opened
  rw [toList_render hblank, shown, openBehind?_append, htabs, hafter]
  change openBehind? .code opened (l.text ++ (behind l.trailing).toList) = _
  rw [openBehind?_append]
  cases openBehind? .code opened l.text with
  | none => rfl
  | some o => exact hbehind o

/-! ## Lines of whole tokens -/

/-- A bracket that opens does not bring a reader back between two tokens. -/
theorem isCode_of_next {m : Scan} {c : Char} (hc : c = '{' ∨ c = '(') (h : (m.next c).IsBetween) :
    m.isCode = true := by
  cases m with
  | code => rfl
  | slash => rfl
  | quoted double escaped =>
    obtain rfl | rfl := hc <;> cases double <;> cases escaped <;>
      simp [Scan.next, Scan.IsBetween] at h
  | raw => obtain rfl | rfl := hc <;> simp [Scan.next, Scan.IsBetween] at h
  | line => obtain rfl | rfl := hc <;> simp [Scan.next, Scan.IsBetween] at h
  | block star => obtain rfl | rfl := hc <;> simp [Scan.next, Scan.IsBetween] at h

/-- If code needs no bracket before it, it does not begin with one that closes. -/
theorem closes_eq_false {l : Line} {opened : List Char}
    (hcode : openBehind? .code [] l.code.toList = some opened) : l.closes = false := by
  rw [← openBehind?_trim, ← text] at hcode
  cases htext : l.text with
  | nil => exact (flat_of_text_eq_nil htext).2
  | cons c cs =>
    have hbrace : c ≠ '}' := fun heq => by
      simp [htext, heq, openBehind?, bracket?, Scan.isCode] at hcode
    have hparen : c ≠ ')' := fun heq => by
      simp [htext, heq, openBehind?, bracket?, Scan.isCode] at hcode
    simp [closes, htext, hbrace, hparen]

section Tokens

variable {l : Line} (h : IsTokens l.code) (hs : IsSingleLine l.code)
include h hs

/-- If nothing is open behind code, it does not end with a bracket that opens. -/
theorem opens_eq_false (hcode : openBehind? .code [] l.code.toList = some []) :
    l.opens = false := by
  rw [← openBehind?_trim, ← text] at hcode
  have hbetween : (Scan.code.after l.text).IsBetween := (h.trim hs).2
  obtain htext | ⟨cs, c, htext⟩ := l.text.eq_nil_or_concat'
  · exact (flat_of_text_eq_nil htext).1
  · have hc : c ≠ '{' ∧ c ≠ '(' := by
      rw [← not_or]
      intro hc
      rw [htext, Scan.after_append] at hbetween
      rw [htext, openBehind?_append] at hcode
      obtain ⟨o, -, hlast⟩ := Option.bind_eq_some_iff.1 hcode
      have hin : (Scan.code.after cs).isCode = true := isCode_of_next hc hbetween
      obtain rfl | rfl := hc <;> simp [openBehind?, hin, bracket?] at hlast
    simp [opens, htext, hc]

variable (htrailing : ∀ c ∈ l.trailing, IsRemarkText c)
include htrailing

/-- Code without brackets, or with pairs of them. -/
theorem isMatched_of_flat (hcode : openBehind? .code [] l.code.toList = some []) :
    l.IsMatched := by
  intro depth
  rw [closes_eq_false hcode, opens_eq_false h hs hcode]
  exact ⟨(codeLines_render_of_isTokens h hs htrailing depth).2,
    (openBehind?_render h hs htrailing depth []).trans hcode⟩

/-- Code that leaves a brace open at its end. -/
theorem isMatched_of_opening (hcode : openBehind? .code [] l.code.toList = some ['}'])
    (hlast : l.code.toList.getLast? = some '{') : l.IsMatched := by
  have hcloses := closes_eq_false hcode
  have hopens : l.opens = true := by
    have hend : l.text.getLast? = some '{' := getLast?_trim hlast (by decide)
    simp [opens, isComment_of_isTokens h hs, hend]
  intro depth
  rw [hcloses, hopens]
  exact ⟨(codeLines_render_of_isTokens h hs htrailing depth).2,
    (openBehind?_render h hs htrailing depth []).trans hcode⟩

end Tokens

/-- A brace that closes alone. -/
theorem isMatched_of_isClosing {l : Line} (h : l.code = "\x7d")
    (htrailing : ∀ c ∈ l.trailing, IsRemarkText c) : l.IsMatched := by
  obtain ⟨hopens, hcloses⟩ := closes_of_isClosing (.inl h)
  intro depth
  rw [hopens, hcloses]
  have htokens : IsTokens l.code := by rw [h]; decide
  have hs : IsSingleLine l.code := by rw [h]; decide
  refine ⟨(codeLines_render_of_isTokens htokens hs htrailing depth).2,
    (openBehind?_render htokens hs htrailing depth _).trans ?_⟩
  rw [h]
  rfl

end Line

/-! ## Depth -/

/-- Whether blocks end only where one has begun, in lines inside `depth` blocks. -/
def ClosesOpen : Nat → List Line → Prop
  | _, [] => True
  | depth, l :: ls => (l.closes = true → 0 < depth) ∧ ClosesOpen (l.depthAfter depth) ls

theorem closesOpen_append {depth : Nat} {ls ms : List Line} :
    ClosesOpen depth (ls ++ ms) ↔ ClosesOpen depth ls ∧ ClosesOpen (depthOf depth ls) ms := by
  induction ls generalizing depth with
  | nil => simp [ClosesOpen, depthOf]
  | cons l ls ih => rw [List.cons_append, ClosesOpen, ClosesOpen, ih, depthOf_cons, and_assoc]

/-- Whole blocks end where they have begun. -/
theorem Nested.closesOpen {ls : List Line} (h : Nested ls) (depth : Nat) : ClosesOpen depth ls := by
  induction h generalizing depth with
  | nil => trivial
  | flat _ hflat _ ih => exact ⟨by simp [hflat.2], ih _⟩
  | block _ _ hopens hinner hcloses _ ihinner ih =>
    refine ⟨by simp [hopens.2], closesOpen_append.2 ⟨ihinner _, ?_, ih _⟩⟩
    rw [hinner.depthOf_eq, Line.depthAfter_of_opens depth hopens]
    exact fun _ => Nat.succ_pos depth

/-! ## Brackets and depth -/

/-- What a matched line does to the braces around it is what it does to the depth. -/
theorem Line.IsMatched.openBehind?_printed {l : Line} (h : l.IsMatched) {depth : Nat}
    (hdepth : l.closes = true → 0 < depth) :
    openBehind? .code (List.replicate depth '}') ((l.render depth).toList ++ ['\n']) =
        some (List.replicate (l.depthAfter depth) '}') ∧
      Scan.code.after ((l.render depth).toList ++ ['\n']) = .code := by
  obtain ⟨hclosed, hbrackets⟩ := h depth
  have hbefore : List.replicate depth '}' =
      (if l.closes then ['}'] else []) ++ List.replicate (l.level depth) '}' := by
    cases hcloses : l.closes with
    | false => simp [level, hcloses]
    | true =>
      obtain ⟨n, rfl⟩ := Nat.exists_eq_succ_of_ne_zero (Nat.ne_of_gt (hdepth hcloses))
      simp [level, hcloses, List.replicate_succ]
  have hbehind : (if l.opens then ['}'] else []) ++ List.replicate (l.level depth) '}' =
      List.replicate (l.depthAfter depth) '}' := by
    cases hopens : l.opens <;> simp [depthAfter, hopens, List.replicate_succ]
  constructor
  · rw [hbefore, openBehind?_append, openBehind?_frame hbrackets, Option.bind_some,
      openBehind?_singleton (by decide), hbehind]
  · rw [Scan.after_append]
    exact hclosed

/-- The braces open behind printed lines are as many as the depth says. -/
theorem openBehind?_indent {ls : List Line} (h : ∀ l ∈ ls, l.IsMatched) {depth : Nat}
    (hdepth : ClosesOpen depth ls) :
    openBehind? .code (List.replicate depth '}')
        ((indent depth ls).flatMap fun s => s.toList ++ ['\n']) =
      some (List.replicate (depthOf depth ls) '}') := by
  induction ls generalizing depth with
  | nil => rfl
  | cons l ls ih =>
    obtain ⟨hl, hls⟩ := List.forall_mem_cons.1 h
    obtain ⟨hbrackets, hafter⟩ := hl.openBehind?_printed hdepth.1
    rw [indent, List.flatMap_cons, openBehind?_append, hbrackets, hafter, Option.bind_some,
      ih hls hdepth.2, depthOf_cons]

/-- Reading the text made of lines is reading the lines. -/
theorem openBehind?_joinLines (opened : List Char) (ls : List String) :
    openBehind? .code opened (joinLines ls).toList =
      openBehind? .code opened (ls.flatMap fun s => s.toList ++ ['\n']) := by
  by_cases hls : ls = []
  · subst hls
    rfl
  · rw [toList_joinLines hls]

/-- A printed line is the rendering of a line. -/
theorem exists_of_indent_eq {ls : List Line} {depth : Nat} {above below : List String} {s : String}
    (h : indent depth ls = above ++ s :: below) :
    ∃ ms l ns, ls = ms ++ l :: ns ∧ above = indent depth ms ∧ s = l.render (depthOf depth ms) := by
  induction ls generalizing depth above with
  | nil => simp [indent] at h
  | cons l ls ih =>
    rw [indent] at h
    cases above with
    | nil =>
      obtain ⟨rfl, -⟩ := List.cons.inj h
      exact ⟨[], l, ls, rfl, rfl, rfl⟩
    | cons a above =>
      obtain ⟨rfl, hrest⟩ := List.cons.inj h
      obtain ⟨ms, m, ns, rfl, rfl, rfl⟩ := ih hrest
      exact ⟨l :: ms, m, ns, rfl, rfl, rfl⟩

/-! ## Tabs -/

/-- The number of tabs that a line begins with. -/
def tabs (l : List Char) : Nat :=
  (l.takeWhile (· = '\t')).length

/-- Whether a line begins with a bracket that closes, behind its tabs. -/
def beginsClosing (l : List Char) : Bool :=
  (unindented l).head? = some '}' || (unindented l).head? = some ')'

/-- A line is printed behind as many tabs as its level is. -/
theorem tabs_render {l : Line} (h : l.text ≠ []) (depth : Nat) :
    tabs (l.render depth).toList = l.level depth := by
  have hshown := Line.unindented_render h depth
  have hlength : tabs (l.render depth).toList + (unindented (l.render depth).toList).length =
      (l.render depth).toList.length := by
    rw [tabs, unindented, ← List.length_append, List.takeWhile_append_dropWhile]
  rw [hshown, Line.toList_render h, List.length_append, List.length_replicate] at hlength
  rw [Line.toList_render h]
  omega

theorem beginsClosing_render {l : Line} (h : l.text ≠ []) (depth : Nat) :
    beginsClosing (l.render depth).toList = l.closes := by
  obtain ⟨c, cs, htext⟩ := List.exists_cons_of_ne_nil h
  rw [beginsClosing, Line.unindented_render h, Line.shown, Line.closes, htext]
  cases hcomment : l.isComment with
  | false => rfl
  | true =>
    have hslash : c = '/' := by
      simp only [Line.isComment, htext, decide_eq_true_eq] at hcomment
      simpa using (List.cons.inj hcomment).1
    simp [hslash]

/-- Matched lines are printed behind one tab for each brace that is open before them, not
counting the one that the line itself closes. -/
theorem openBehind?_above {ls : List Line} (h : ∀ l ∈ ls, l.IsMatched) (hdepth : ClosesOpen 0 ls)
    {above below : List String} {s : String} (hs : indent 0 ls = above ++ s :: below)
    (hne : s ≠ "") :
    openBehind? .code [] (joinLines above).toList =
      some (List.replicate (tabs s.toList + if beginsClosing s.toList then 1 else 0) '}') := by
  obtain ⟨ms, l, ns, rfl, rfl, rfl⟩ := exists_of_indent_eq hs
  obtain ⟨hbefore, hline⟩ := closesOpen_append.1 hdepth
  have htext : l.text ≠ [] := fun hblank => hne (if_pos hblank)
  have hlevel : l.level (depthOf 0 ms) + (if l.closes then 1 else 0) = depthOf 0 ms := by
    cases hcloses : l.closes with
    | false => simp [Line.level, hcloses]
    | true =>
      have hpos := hline.1 hcloses
      simp only [Line.level, hcloses, if_true]
      omega
  rw [openBehind?_joinLines, tabs_render htext, beginsClosing_render htext, hlevel]
  exact openBehind?_indent (fun m hm => h m (List.mem_append_left _ hm)) hbefore

end TemporalBindings.Source
