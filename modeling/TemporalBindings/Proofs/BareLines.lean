import TemporalBindings.Proofs.Tokens

/-!
# TemporalBindings.Proofs.BareLines

Lines without their comments. A line of a file is a remark, which is blank or a comment,
or it has whole tokens and a comment behind them or none. In both cases the comment is
not part of the code, and it has no say in how the lines around it are indented. So the
code in printed lines is that of the bare lines.
-/

namespace TemporalBindings.Source

open Text

/-! ## Trimming -/

namespace Scan

/-- Whether a reader is between two tokens, or behind a slash that is one so far. -/
def IsBetween (m : Scan) : Prop :=
  m = .code ∨ m = .slash

/-- A blank does not end a literal or a comment, unless it is a line break. -/
theorem isBetween_of_next {m : Scan} {c : Char} (hc : isBlank c = true) (hbreak : c ≠ '\n')
    (h : (m.next c).IsBetween) : m.IsBetween := by
  have hne (d : Char) (hd : isBlank d = false) : c ≠ d := fun hcd => by simp [← hcd, hc] at hd
  have hslash : c ≠ '/' := hne '/' (by decide)
  have hback : c ≠ '`' := hne '`' (by decide)
  cases m with
  | code => exact .inl rfl
  | slash => exact .inr rfl
  | quoted double escaped =>
    have hquote : c ≠ (if double then '"' else '\'') := hne _ (by cases double <;> decide)
    cases escaped <;> simp [next, hbreak, hquote, IsBetween] at h
  | raw => simp [next, hback, IsBetween] at h
  | line => simp [next, hbreak, IsBetween] at h
  | block star => simp [next, hslash, IsBetween] at h

/-- Between two tokens a blank is kept, and a reader stays there. -/
theorem IsBetween.blank {m : Scan} (h : m.IsBetween) {c : Char} (hc : isBlank c = true) :
    m.kept c = m.pending ++ [c] ∧ m.next c = .code := by
  have hinert := isInert_of_isBlank hc
  have hslash : c ≠ '/' := fun hcd => absurd (hcd ▸ hc) (by decide)
  have hstar : c ≠ '*' := fun hcd => absurd (hcd ▸ hc) (by decide)
  obtain rfl | rfl := h
  · exact ⟨kept_of_isInert hinert, next_of_isInert hinert⟩
  · refine ⟨by simp [kept, pending, hslash], ?_⟩
    rw [next, if_neg hslash, if_neg hstar]
    exact next_of_isInert hinert

theorem IsBetween.next_newline {m : Scan} (h : m.IsBetween) : m.next '\n' = .code := by
  obtain rfl | rfl := h <;> rfl

end Scan

theorem uncomment_dropWhile {cs : List Char} (h : uncomment .code cs = cs) :
    uncomment .code (cs.dropWhile isBlank) = cs.dropWhile isBlank ∧
      Scan.code.after (cs.dropWhile isBlank) = Scan.code.after cs := by
  induction cs with
  | nil => exact ⟨rfl, rfl⟩
  | cons c cs ih =>
    by_cases hc : isBlank c
    · have hinert := isInert_of_isBlank hc
      rw [uncomment, Scan.kept_of_isInert hinert, Scan.next_of_isInert hinert,
        List.singleton_append, List.cons.injEq] at h
      rw [List.dropWhile_cons_of_pos hc, Scan.after_cons, Scan.next_of_isInert hinert]
      exact ih h.2
    · rw [List.dropWhile_cons_of_neg hc]
      exact ⟨h, rfl⟩

theorem uncomment_rdropWhile {cs : List Char} (hbreak : '\n' ∉ cs)
    (h : uncomment .code cs = cs) (hbetween : (Scan.code.after cs).IsBetween) :
    uncomment .code (cs.rdropWhile isBlank) = cs.rdropWhile isBlank ∧
      (Scan.code.after (cs.rdropWhile isBlank)).IsBetween := by
  induction cs using List.reverseRecOn with
  | nil => exact ⟨rfl, hbetween⟩
  | append_singleton cs c ih =>
    by_cases hc : isBlank c
    · rw [List.mem_append, List.mem_singleton, not_or] at hbreak
      rw [Scan.after_append, Scan.after_cons, Scan.after_nil] at hbetween
      have hcs := Scan.isBetween_of_next hc (Ne.symm hbreak.2) hbetween
      obtain ⟨hkept, hnext⟩ := hcs.blank hc
      rw [uncomment_append_cons hkept, hnext] at h
      rw [List.rdropWhile_concat_pos _ _ _ hc]
      exact ih hbreak.1 (List.append_cancel_right h) hcs
    · rw [List.rdropWhile_concat_neg _ _ _ hc]
      exact ⟨h, hbetween⟩

/-- Whole tokens on a line stay whole without the blanks around them. -/
theorem IsTokens.trim {s : String} (h : IsTokens s) (hs : IsSingleLine s) :
    uncomment .code (trim s.toList) = trim s.toList ∧
      (Scan.code.after (trim s.toList)).IsBetween := by
  obtain ⟨hkept, hafter⟩ := uncomment_dropWhile h.1
  refine uncomment_rdropWhile (fun hmem => hs ?_) hkept (.inl (hafter.trans h.2))
  exact (List.dropWhile_sublist _).subset hmem

/-! ## Comments -/

theorem uncomment_line {cs : List Char} (h : '\n' ∉ cs) :
    uncomment .line cs = [] ∧ Scan.line.after cs = .line := by
  induction cs with
  | nil => exact ⟨rfl, rfl⟩
  | cons c cs ih =>
    rw [List.mem_cons, not_or] at h
    have hc : c ≠ '\n' := Ne.symm h.1
    have hnext : Scan.line.next c = .line := if_neg hc
    have hkept : Scan.line.kept c = [] := if_neg hc
    rw [uncomment, Scan.after_cons, hnext, hkept, List.nil_append]
    exact ih h.2

/-- Of a comment alone nothing is left. -/
theorem uncomment_comment {rest : List Char} (h : '\n' ∉ rest) :
    uncomment .code ('/' :: '/' :: rest) = [] ∧
      Scan.code.after ('/' :: '/' :: rest) = .line :=
  uncomment_line h

/-- Of whole tokens and a comment behind them the tokens are left. -/
theorem uncomment_append_comment {cs rest : List Char} (hcs : uncomment .code cs = cs)
    (hafter : Scan.code.after cs = .code) (hrest : '\n' ∉ rest) :
    uncomment .code (cs ++ '/' :: '/' :: rest) = cs ∧
      Scan.code.after (cs ++ '/' :: '/' :: rest) = .line := by
  obtain ⟨hnone, hline⟩ := uncomment_comment hrest
  constructor
  · rw [uncomment_append (by rw [hafter]; rfl), hcs, hafter, hnone, List.append_nil]
  · rw [Scan.after_append, hafter, hline]

/-! ## Printed lines -/

namespace Line

/-- A remark is printed as nothing or behind two slashes. -/
theorem render_of_isRemarkText {l : Line} (hcode : IsRemarkText l.code)
    (htrailing : l.trailing = none) (depth : Nat) :
    l.render depth = "" ∨ ∃ rest, '\n' ∉ rest ∧
      (l.render depth).toList = List.replicate (l.level depth) '\t' ++ '/' :: '/' :: rest := by
  obtain hblank | ⟨rest, hslashes⟩ := text_of_isRemarkText hcode
  · exact .inl (if_pos hblank)
  · refine .inr ⟨rest, fun hmem => hcode.single (mem_of_mem_trim ?_), ?_⟩
    · rw [← text, hslashes]
      exact List.mem_cons_of_mem _ (List.mem_cons_of_mem _ hmem)
    · simp [render, hslashes, htrailing]

/-- A remark is printed without any code. -/
theorem codeLines_render_of_isRemarkText {l : Line} (hcode : IsRemarkText l.code)
    (htrailing : l.trailing = none) (depth : Nat) :
    codeLines (l.render depth) = [] ∧ IsClosed (l.render depth) := by
  obtain hrender | ⟨rest, hrest, hrender⟩ := render_of_isRemarkText hcode htrailing depth
  · rw [hrender]
    exact ⟨codeLines_empty, isClosed_empty⟩
  · have htabs : ∀ c ∈ List.replicate (l.level depth) '\t', isInert c = true ∧ isBlank c = true :=
      fun c hc => by rw [List.eq_of_mem_replicate hc]; decide
    obtain ⟨hkept, hafter⟩ := uncomment_of_isInert fun c hc => (htabs c hc).1
    obtain ⟨huncomment, hline⟩ := uncomment_append_comment hkept hafter hrest
    rw [← hrender] at huncomment hline
    constructor
    · rw [codeLines_of_uncomment huncomment (by simp),
        List.rdropWhile_eq_nil_iff.2 fun c hc => (htabs c hc).2]
      rfl
    · rw [IsClosed, hline]
      rfl

/-- What a comment behind a line adds to it. -/
def behind : Option String → String
  | some comment => " " ++ comment
  | none => ""

/-- Whole tokens are printed as whole tokens, with their comment behind them. -/
theorem exists_render_eq {code : String} (h : IsTokens code) (hs : IsSingleLine code)
    (hne : text ⟨code, none⟩ ≠ []) (depth : Nat) :
    ∃ cs, (∀ o, render ⟨code, o⟩ depth = String.ofList cs ++ behind o) ∧ '\n' ∉ cs ∧
      uncomment .code cs = cs ∧ (Scan.code.after cs).IsBetween := by
  have hinert : ∀ c ∈ List.replicate (level ⟨code, none⟩ depth) '\t', isInert c = true :=
    fun c hc => by rw [List.eq_of_mem_replicate hc]; decide
  obtain ⟨htabs, hafter⟩ := uncomment_of_isInert hinert
  obtain ⟨htrim, hbetween⟩ := h.trim hs
  refine ⟨List.replicate (level ⟨code, none⟩ depth) '\t' ++ trim code.toList, fun o => ?_, ?_, ?_,
    ?_⟩
  · have hrender : render ⟨code, o⟩ depth =
        String.ofList (List.replicate (level ⟨code, none⟩ depth) '\t' ++ trim code.toList) ++
          match o with
          | some comment => " " ++ comment
          | none => "" := if_neg hne
    rw [hrender]
    cases o <;> rfl
  · rw [List.mem_append, not_or]
    exact ⟨by simp, fun hmem => hs (mem_of_mem_trim hmem)⟩
  · rw [uncomment_append (by rw [hafter]; rfl), htabs, hafter, htrim]
  · rw [Scan.after_append, hafter]
    exact hbetween

/-- They are printed with the same code whether there is a comment or not. -/
theorem codeLines_render_of_isTokens {code : String} (h : IsTokens code) (hs : IsSingleLine code)
    {trailing : Option String} (htrailing : ∀ c ∈ trailing, IsRemarkText c) (depth : Nat) :
    codeLines (render ⟨code, trailing⟩ depth) = codeLines (render ⟨code, none⟩ depth) ∧
      IsClosed (render ⟨code, trailing⟩ depth) := by
  by_cases hblank : text ⟨code, none⟩ = []
  · have hrender (o : Option String) : render ⟨code, o⟩ depth = "" := if_pos hblank
    rw [hrender, hrender]
    exact ⟨rfl, isClosed_empty⟩
  obtain ⟨cs, hrender, hbreak, hkept, hbetween⟩ := exists_render_eq h hs hblank depth
  cases trailing with
  | none =>
    refine ⟨rfl, ?_⟩
    rw [hrender, behind, String.append_empty, IsClosed, String.toList_ofList]
    exact hbetween.next_newline
  | some comment =>
    have hcomment := htrailing comment rfl
    -- the blank in front of the comment belongs to the code, and nothing of the comment does
    have hnone : uncomment .code comment.toList = [] ∧
        (Scan.code.after comment.toList).next '\n' = .code := by
      obtain rfl | ⟨rest, rfl⟩ := hcomment.slashes
      · exact ⟨rfl, rfl⟩
      · have hrest : '\n' ∉ rest.toList := fun hmem => hcomment.single (by simp [hmem])
        obtain ⟨huncomment, hafter⟩ := uncomment_comment hrest
        rw [String.toList_append]
        exact ⟨huncomment, congrArg (Scan.next · '\n') hafter⟩
    obtain ⟨hblankKept, hblankNext⟩ := hbetween.blank (c := ' ') (by decide)
    have hprinted : (render ⟨code, some comment⟩ depth).toList = cs ++ ' ' :: comment.toList := by
      rw [hrender, behind]
      simp
    have huncomment : uncomment .code (render ⟨code, some comment⟩ depth).toList = cs ++ [' '] := by
      rw [hprinted, uncomment_append_cons hblankKept, hblankNext, hkept, hnone.1]
    have hplain : uncomment .code (render ⟨code, none⟩ depth).toList = cs := by
      rw [hrender, behind, String.append_empty, String.toList_ofList, hkept]
    constructor
    · rw [codeLines_of_uncomment huncomment (by simp [hbreak]),
        codeLines_of_uncomment hplain hbreak,
        List.rdropWhile_concat_pos _ _ _ (show isBlank ' ' = true by decide)]
    · rw [IsClosed, hprinted, Scan.after_append, Scan.after_cons, hblankNext]
      exact hnone.2

/-! ## Bare lines -/

/-- The line without the comment behind it. Nothing is left of a remark. -/
def bare? (l : Line) : Option Line :=
  if l.text = [] ∨ l.isComment then none else some ⟨l.code, none⟩

/-- Whether code and comments are told apart in a line: it is a remark, or it has whole
tokens and a comment behind them or none. -/
def IsParted (l : Line) : Prop :=
  (IsRemarkText l.code ∧ l.trailing = none) ∨
    (IsTokens l.code ∧ IsSingleLine l.code ∧ ∀ c ∈ l.trailing, IsRemarkText c)

/-- Such a line is not broken. -/
theorem IsParted.isSingle {l : Line} (h : l.IsParted) : l.IsSingle := by
  obtain ⟨hcode, htrailing⟩ | ⟨-, hsingle, htrailing⟩ := h
  · exact ⟨hcode.single, by simp [htrailing]⟩
  · exact ⟨hsingle, fun c hc => (htrailing c hc).single⟩

/-- Nothing is left of text behind two slashes, even if it breaks the line. -/
theorem bare?_of_slashes {l : Line} {rest : String} (h : l.code = "//" ++ rest) :
    l.bare? = none := by
  obtain ⟨kept, hkept⟩ := text_of_slashes h
  exact if_pos (.inr (by simp [isComment, hkept]))

theorem bare?_of_isRemarkText {l : Line} (h : IsRemarkText l.code) : l.bare? = none := by
  obtain hblank | ⟨rest, hslashes⟩ := h.slashes
  · exact if_pos (.inl (by rw [text, hblank]; rfl))
  · exact bare?_of_slashes hslashes

/-- Whole tokens are no comment. -/
theorem isComment_of_isTokens {l : Line} (h : IsTokens l.code) (hs : IsSingleLine l.code) :
    l.isComment = false := by
  by_contra hcomment
  have htake : l.text.take 2 = ['/', '/'] := by simpa [isComment] using hcomment
  obtain ⟨rest, htext⟩ : ∃ rest, l.text = '/' :: '/' :: rest :=
    ⟨l.text.drop 2, by rw [← List.take_append_drop 2 l.text, htake]; simp⟩
  have hrest : '\n' ∉ rest := fun hmem => hs <| mem_of_mem_trim <| by
    rw [← text, htext]
    exact List.mem_cons_of_mem _ (List.mem_cons_of_mem _ hmem)
  have hnone := (uncomment_comment hrest).1
  have hkept := (h.trim hs).1
  rw [← text, htext] at hkept
  exact absurd (hkept.symm.trans hnone) (by simp)

end Line

/-- The code in printed lines is that of the bare lines, and every line is closed. -/
theorem codeLines_indent {ls : List Line} (h : ∀ l ∈ ls, l.IsParted) (depth : Nat) :
    (indent depth ls).flatMap codeLines =
        (indent depth (ls.filterMap Line.bare?)).flatMap codeLines ∧
      ∀ l ∈ indent depth ls, IsClosed l := by
  induction ls generalizing depth with
  | nil => exact ⟨rfl, by simp [indent]⟩
  | cons l ls ih =>
    have hls := ih fun m hm => h m (List.mem_cons_of_mem l hm)
    -- a line that prints no code leaves the depth as it is
    have hskip (hbare : l.bare? = none) (hflat : l.opens = false ∧ l.closes = false)
        (hprinted : codeLines (l.render depth) = [] ∧ IsClosed (l.render depth)) :
        (indent depth (l :: ls)).flatMap codeLines =
            (indent depth ((l :: ls).filterMap Line.bare?)).flatMap codeLines ∧
          ∀ m ∈ indent depth (l :: ls), IsClosed m := by
      rw [List.filterMap_cons_none hbare, indent, Line.depthAfter_of_flat depth hflat,
        List.flatMap_cons, hprinted.1, List.nil_append]
      exact ⟨(hls depth).1, List.forall_mem_cons.2 ⟨hprinted.2, (hls depth).2⟩⟩
    obtain ⟨hcode, htrailing⟩ | ⟨htokens, hsingle, htrailing⟩ := h l List.mem_cons_self
    · exact hskip (Line.bare?_of_isRemarkText hcode) (Line.flat_of_isRemarkText hcode)
        (Line.codeLines_render_of_isRemarkText hcode htrailing depth)
    · by_cases hblank : l.text = []
      · have hrender : l.render depth = "" := if_pos hblank
        exact hskip (if_pos (.inl hblank)) (Line.flat_of_text_eq_nil hblank)
          (by rw [hrender]; exact ⟨codeLines_empty, isClosed_empty⟩)
      · have hcomment := Line.isComment_of_isTokens htokens hsingle
        have hbare : l.bare? = some ⟨l.code, none⟩ := if_neg (by simp [hblank, hcomment])
        have hafter : Line.depthAfter ⟨l.code, none⟩ depth = l.depthAfter depth := rfl
        obtain ⟨hsame, hclosed⟩ :=
          Line.codeLines_render_of_isTokens htokens hsingle htrailing depth
        obtain ⟨hrest, hrestClosed⟩ := hls (l.depthAfter depth)
        rw [List.filterMap_cons_some hbare, indent, indent, hafter, List.flatMap_cons,
          List.flatMap_cons, hsame, hrest]
        exact ⟨rfl, List.forall_mem_cons.2 ⟨hclosed, hrestClosed⟩⟩

end TemporalBindings.Source
