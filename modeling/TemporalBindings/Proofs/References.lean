import TemporalBindings.Proofs.Emitted
import TemporalBindings.Proofs.Numerals
import TemporalBindings.Proofs.Words

/-!
# TemporalBindings.Proofs.References

The references of a file among the words of its code. The words of a line are read from its
text, and each of them is one of two things:

```
a reference    an identifier as the imports spell it, or a member of a variable
any other      a name, a keyword or a numeral, none of which is qualified
```

So the references of a file stand among its words in the order of the table, and a qualified
word is one of them. This is shown line by line: the words of each emitted line are listed, and
beside them what the table says of it.
-/

namespace TemporalBindings.Source

open Text Number

variable {t : Imports}

/-! ## Words of code -/

/-- The words of code. -/
def Imports.codeWords (t : Imports) (c : Code) : List String :=
  words (t.codeText c).toList

@[simp] theorem words_eq (cs : List Char) : words cs = wordsBehind .code [] cs := rfl

@[simp] theorem Imports.codeWords_eq (c : Code) :
    t.codeWords c = wordsBehind .code [] (t.codeText c).toList := rfl

@[simp] theorem wordsBehind_nil (w : List Char) :
    wordsBehind .code w [] = if w = [] then [] else [String.ofList w] := rfl

/-- Between tokens a character goes on with the word that has been begun, or ends it. -/
@[simp] theorem wordsBehind_cons (w : List Char) (c : Char) (cs : List Char) :
    wordsBehind .code w (c :: cs) =
      if isWordChar c then wordsBehind .code (w ++ [c]) cs
      else (if w = [] then [] else [String.ofList w]) ++
        wordsBehind (if isInert c then .code else Scan.start c) [] cs := by
  by_cases h : isWordChar c
  · rw [if_pos h]
    exact wordsBehind_append_word (List.forall_mem_singleton.2 h) w cs
  · have hend : wordsBehind .code w (c :: cs) =
        ended w ++ wordsBehind (Scan.code.next c) [] cs := by
      rw [wordsBehind, Bool.eq_false_iff.2 h, Bool.and_false, if_neg Bool.false_ne_true]
    have hnext : Scan.code.next c = if isInert c then .code else Scan.start c := by
      split
      · next hinert => exact Scan.next_of_isInert hinert
      · rfl
    rw [if_neg h, ← hnext]
    exact hend

/-- The result of a signature stands behind a blank. -/
theorem Signature.code_mk {name : String} {params : List Param} {result : Code}
    (h : result ≠ []) : Signature.code ⟨name, params, result⟩ = [.text name, .text "("] ++
      List.intercalate [.text ", "] (params.map Param.code) ++ [.text ")"] ++
        .text " " :: result := by
  unfold Signature.code
  split
  · next hnil => exact absurd hnil h
  · rfl

/-! ## Words of items -/

/-- The words on the lines of items. -/
def itemWords (t : Imports) (items : List Item) : List String :=
  (items.flatMap (Item.lines t)).flatMap fun l => words l.code.toList

variable {items items' : List Item}

@[simp] theorem itemWords_nil : itemWords t [] = [] := rfl

@[simp] theorem itemWords_append :
    itemWords t (items ++ items') = itemWords t items ++ itemWords t items' := by
  simp [itemWords]

@[simp] theorem itemWords_flatMap {α : Type} (xs : List α) (f : α → List Item) :
    itemWords t (xs.flatMap f) = xs.flatMap fun x => itemWords t (f x) := by
  simp [itemWords, List.flatMap_assoc]

/-- Remarks have no words. -/
theorem itemWords_of_isRemark (h : ∀ item ∈ items, item.IsRemark t) : itemWords t items = [] := by
  rw [itemWords, List.flatMap_assoc, List.flatMap_eq_nil_iff]
  intro item hitem
  rw [List.flatMap_eq_nil_iff]
  exact fun l hl => words_of_isRemarkText (h item hitem l hl).1

@[simp] theorem itemWords_blank (items : List Item) :
    itemWords t (.blank :: items) = itemWords t items := rfl

/-- A line has the words of its code, whatever comment is behind it. -/
@[simp] theorem itemWords_code (c : Code) (trailing : String) (items : List Item) :
    itemWords t (.code c trailing :: items) = t.codeWords c ++ itemWords t items := by
  obtain ⟨behind, below, hlines, -, hbelow⟩ := exists_withTrailing (t.codeText c) trailing
  have hremarks : below.flatMap (fun l => words l.code.toList) = [] :=
    List.flatMap_eq_nil_iff.2 fun l hl => words_of_isRemarkText (hbelow l hl).1
  rw [itemWords, List.flatMap_cons, Item.lines, hlines, List.flatMap_append, List.flatMap_cons,
    hremarks, List.append_nil]
  rfl

@[simp] theorem itemWords_line (c : Code) (items : List Item) :
    itemWords t (line c :: items) = t.codeWords c ++ itemWords t items :=
  itemWords_code c "" items

theorem itemWords_map_line {α : Type} (xs : List α) (f : α → Code) :
    itemWords t (xs.map fun x => line (f x)) = xs.flatMap fun x => t.codeWords (f x) := by
  rw [List.map_eq_flatMap, itemWords_flatMap]
  exact List.flatMap_congr fun x _ => (itemWords_line (f x) []).trans (List.append_nil _)

/-- A declaration has the words of its first line and those of the lines inside. -/
theorem itemWords_decl {d : Decl} (h : ∀ l ∈ d.doc.paragraph, IsSingleLine l) :
    itemWords t d.items = t.codeWords d.head ++ itemWords t d.inside := by
  have hdoc : itemWords t d.doc.items = [] :=
    itemWords_of_isRemark fun _ => Doc.isRemark_of_mem_items h
  have hclose : itemWords t [line ["\x7d"], .blank] = [] := by simp +decide [Imports.pieceText]
  rw [Decl.items, itemWords_append, itemWords_append, itemWords_append, itemWords_code, hdoc,
    hclose, List.nil_append, List.append_nil, itemWords_nil, List.append_nil]

/-! ## Words of numerals -/

/-- Characters of one word that begins with a digit. -/
structure IsFigures (cs : List Char) : Prop where
  begins : ∃ c ∈ cs.head?, c.isDigit = true
  chars : ∀ c ∈ cs, isWordChar c = true

theorem isWordChar_of_isDigit {c : Char} (h : c.isDigit = true) : isWordChar c = true := by
  rw [isWordChar, isNameChar_of_isNumeral (isNumeral_of_isDigit h), Bool.true_or]

theorem IsDigits.isFigures {cs : List Char} (h : IsDigits cs) : IsFigures cs := by
  obtain ⟨hne, hdigits⟩ := h
  cases cs with
  | nil => exact absurd rfl hne
  | cons c cs =>
    exact ⟨⟨c, rfl, hdigits c List.mem_cons_self⟩, fun d hd => isWordChar_of_isDigit (hdigits d hd)⟩

namespace IsFigures

variable {cs ds : List Char}

theorem append (h : IsFigures cs) (hds : ∀ c ∈ ds, isWordChar c = true) : IsFigures (cs ++ ds) := by
  obtain ⟨c, hc, hdigit⟩ := h.begins
  refine ⟨⟨c, ?_, hdigit⟩, List.forall_mem_append.2 ⟨h.chars, hds⟩⟩
  rw [List.head?_append, Option.mem_def.1 hc]
  rfl

/-- Figures are one word, which is not qualified whatever points there are in it. -/
theorem forall_words (h : IsFigures cs) : ∀ w ∈ words cs, isQualified w = false := by
  obtain ⟨c, hc, hdigit⟩ := h.begins
  have hne : cs ≠ [] := by
    rintro rfl
    cases hc
  have hread := wordsBehind_append_word h.chars [] []
  rw [List.append_nil, List.nil_append, wordsBehind_nil, if_neg hne] at hread
  rw [words, hread, List.forall_mem_singleton, isQualified, String.toList_ofList,
    Option.mem_def.1 hc]
  simp [hdigit]

end IsFigures

/-- Numerals end where a character follows that is in no word. -/
theorem words_numeral {cs : List Char} (hcs : ∀ d ∈ cs, isNumeralChar d = true) {c : Char}
    (hc : isWordChar c = false ∧ isInert c = true) (ds : List Char) :
    words (cs ++ c :: ds) = words cs ++ words ds := by
  have hafter : Scan.code.after cs = .code :=
    (uncomment_of_isInert fun d hd => isInert_of_isNumeralChar (hcs d hd)).2
  rw [words, wordsBehind_append_cons (by rw [hc.1, Bool.and_false]), hafter,
    Scan.next_of_isInert hc.2]
  rfl

theorem isFigures_positional (n : Decimal) : IsFigures (positional n) := by
  obtain ⟨-, heq⟩ | ⟨whole, fraction, heq, hwhole, hfraction, -⟩ := positional_cases n
  · rw [heq]
    exact (isDigits_natText _).isFigures.append fun c hc =>
      isWordChar_of_isDigit (isDigit_of_mem_zeros hc)
  · rw [heq]
    exact hwhole.isFigures.append (List.forall_mem_cons.2
      ⟨by decide, fun c hc => isWordChar_of_isDigit (hfraction.2 c hc)⟩)

/-- With an exponent there are figures on both sides of its sign. -/
theorem forall_words_scientific (n : Decimal) :
    ∀ w ∈ words (scientific n), isQualified w = false := by
  have hdigits : IsDigits n.digits := isDigits_natText n.coefficient
  have hsign {c : Char} (hc : c = '-' ∨ c = '+') : isWordChar c = false ∧ isInert c = true := by
    obtain rfl | rfl := hc <;> decide
  have hsplit {front : List Char} (heq : scientific n = front ++ exponentText n.leading)
      (hfront : IsFigures front) : ∀ w ∈ words (scientific n), isQualified w = false := by
    have hbehind : IsFigures (List.replicate (2 - (natText n.leading.natAbs).length) '0' ++
        natText n.leading.natAbs) := ((isDigits_natText _).padded _).isFigures
    have hchars : ∀ d ∈ front, isNumeralChar d = true := fun d hd =>
      isNumeralChar_of_mem_scientific (heq ▸ List.mem_append_left _ hd)
    rw [heq, exponentText, words_numeral hchars (hsign (by split <;> simp))]
    exact List.forall_mem_append.2 ⟨hfront.forall_words, hbehind.forall_words⟩
  obtain ⟨c, hc, heq⟩ | ⟨c, cs, -, hc, heq⟩ := scientific_cases n
  · have hfront : IsFigures ([c] ++ ['e']) :=
      (hc ▸ hdigits).isFigures.append (List.forall_mem_singleton.2 (by decide))
    exact hsplit (by simp [heq]) hfront
  · rw [hc] at hdigits
    obtain ⟨hfirst, hothers⟩ := List.forall_mem_cons.1 hdigits.2
    have hfront : IsFigures ([c] ++ ('.' :: (cs ++ ['e']))) :=
      (show IsDigits [c] from ⟨by simp, by simpa using hfirst⟩).isFigures.append
        (List.forall_mem_cons.2 ⟨by decide, List.forall_mem_append.2
          ⟨fun d hd => isWordChar_of_isDigit (hothers d hd),
            List.forall_mem_singleton.2 (by decide)⟩⟩)
    exact hsplit (by simp [heq]) hfront

/-- No word of a numeral is qualified, whatever its form is. -/
theorem forall_words_floatText (d : Double) :
    ∀ w ∈ words (floatText d), isQualified w = false := by
  have hmagnitude (n : Decimal) : ∀ w ∈ words (magnitudeText n), isQualified w = false := by
    unfold magnitudeText
    split
    · exact (isFigures_positional n).forall_words
    · exact forall_words_scientific n
  have hunsigned : ∀ w ∈ words (if !d.isFinite then ['i', 'n', 'f'] else if d.isZero then ['0']
      else magnitudeText (.ofDouble d)), isQualified w = false := by
    split
    · decide
    · split
      · decide
      · exact hmagnitude _
  unfold floatText
  split
  · decide
  · split
    · exact hunsigned
    · exact hunsigned

/-- Neither is one of an integer, which is figures behind a sign. -/
theorem forall_words_intText (n : Int) : ∀ w ∈ words (intText n), isQualified w = false := by
  have hfigures (k : Nat) : ∀ w ∈ words (natText k), isQualified w = false :=
    (isDigits_natText k).isFigures.forall_words
  unfold intText
  split
  · exact hfigures _
  · exact hfigures _

end TemporalBindings.Source

namespace TemporalBindings.Bindings

open Source Text Worker

/-! ## References among words -/

/-- A reference as the word that it is spelled as. -/
def Reference.text (t : Imports) : Reference → String
  | .ident i => t.spelling i
  | .member x name => x ++ "." ++ name

/-- Whether words have some references among them, and no other word is qualified. -/
inductive Refers (t : Imports) : List Reference → List String → Prop
  | nil : Refers t [] []
  | word {w : String} {rs : List Reference} {ws : List String} (h : isQualified w = false)
      (rest : Refers t rs ws) : Refers t rs (w :: ws)
  | reference (r : Reference) {rs : List Reference} {ws : List String} (rest : Refers t rs ws) :
      Refers t (r :: rs) (r.text t :: ws)

variable {t : Imports} {sdk : Sdk} {m : Method} {s : Service}

namespace Refers

variable {rs rs' : List Reference} {ws ws' : List String}

theorem append (h : Refers t rs ws) (h' : Refers t rs' ws') : Refers t (rs ++ rs') (ws ++ ws') := by
  induction h with
  | nil => exact h'
  | word h _ ih => exact .word h ih
  | reference r _ ih => exact .reference r ih

theorem flatMap {α : Type} {xs : List α} {f : α → List Reference} {g : α → List String}
    (h : ∀ x ∈ xs, Refers t (f x) (g x)) : Refers t (xs.flatMap f) (xs.flatMap g) := by
  induction xs with
  | nil => exact .nil
  | cons x xs ih =>
    exact (h x List.mem_cons_self).append (ih fun y hy => h y (List.mem_cons_of_mem x hy))

/-- Words of which none is qualified refer to nothing. -/
theorem of_unqualified (h : ∀ w ∈ ws, isQualified w = false) : Refers t [] ws := by
  induction ws with
  | nil => exact .nil
  | cons w ws ih =>
    exact .word (h w List.mem_cons_self) (ih fun v hv => h v (List.mem_cons_of_mem w hv))

/-- The references stand among the words, in their order. -/
theorem sublist (h : Refers t rs ws) : (rs.map (Reference.text t)).Sublist ws := by
  induction h with
  | nil => exact .slnil
  | word _ _ ih => exact ih.cons _
  | reference _ _ ih => exact ih.cons_cons _

/-- The qualified words are those of references. -/
theorem filter_isQualified (h : Refers t rs ws) :
    ws.filter isQualified = (rs.map (Reference.text t)).filter isQualified := by
  induction h with
  | nil => rfl
  | word h _ ih => rw [List.filter_cons_of_neg (by simp [h]), ih]
  | reference r _ ih => rw [List.map_cons, List.filter_cons, List.filter_cons, ih]

end Refers

/-! ## Helpers -/

/-- What the call in a helper refers to. -/
def Verb.callReferences (sdk : Sdk) (m : Method) (v : Verb) : List Reference :=
  if v.target = .workflow then [.member "c" "t.ExecuteWorkflow", .member "c" m.name]
  else [sdk.workflow.ident v.function, .member "c" m.name]

variable (sdk) (ht : t.HasIdentifiers)
include ht

/-- An identifier of the engine or of the standard library is spelled as one word. -/
theorem isWordPart_spelling_ident (p : Package) {name : String} (h : IsName name) :
    IsWordPart (t.spelling (p.ident name)) :=
  isWordPart_spelling ht h

/-- The statement that puts the options of a call into effect. -/
theorem Target.refers_configure (target : Target) :
    Refers t ((target.configure sdk).idents.map .ident)
      (itemWords t (target.configure sdk).items) := by
  obtain ⟨hfields, hname⟩ := target.options_spec sdk
  have htype := isWordPart_spelling ht hname
  have hdefine : Refers t [(target.options sdk).type]
      (itemWords t (Stmt.literal ["opts"] [] (target.options sdk) "").items) := by
    have hwords : itemWords t (Stmt.literal ["opts"] [] (target.options sdk) "").items =
        ["opts", t.spelling (target.options sdk).type] := by
      simp +decide [Stmt.items, Literal.items, defining, hfields, Imports.pieceText, htype.read]
    rw [hwords]
    exact .word rfl (.reference _ .nil)
  have hcontext {function : String} (hf : IsName function) :
      Refers t [sdk.workflow.ident function, (target.options sdk).type] (itemWords t
        (Stmt.literal [] [.name "ctx", " = ", sdk.workflow.ident function, "(", .name "ctx", ", "]
          (target.options sdk) ")").items) := by
    have hfunction := isWordPart_spelling_ident ht sdk.workflow hf
    have hwords : itemWords t
        (Stmt.literal [] [.name "ctx", " = ", sdk.workflow.ident function, "(", .name "ctx", ", "]
          (target.options sdk) ")").items =
        ["ctx", t.spelling (sdk.workflow.ident function), "ctx",
          t.spelling (target.options sdk).type] := by
      simp +decide [Stmt.items, Literal.items, defining, hfields, Imports.pieceText,
        hfunction.read, htype.read]
    rw [hwords]
    exact .word rfl (.reference _ (.word rfl (.reference _ .nil)))
  cases target with
  | workflow => exact hdefine
  | childWorkflow => exact hcontext (by decide)
  | activity => exact hcontext (by decide)
  | localActivity => exact hcontext (by decide)

section Helper

variable (hm : m.WellNamed)
include hm

/-- The words of a call, whatever follows it. -/
theorem Verb.exists_words_invocation (v : Verb) :
    ∃ ws, Refers t (v.callReferences sdk m) ws ∧
      ∀ rest, wordsBehind .code [] ((t.codeText (v.invocation sdk m)).toList ++ rest) =
        ws ++ wordsBehind .code [] rest := by
  have hname := hm.1.isName.isWordPart
  have hfunction := isWordPart_spelling_ident ht sdk.workflow v.isName_function
  by_cases hv : v.target = .workflow
  · refine ⟨["c" ++ "." ++ "t.ExecuteWorkflow", "ctx", "opts", "c" ++ "." ++ m.name, "in"], ?_,
      fun rest => ?_⟩
    · rw [callReferences, if_pos hv]
      exact .reference _ (.word rfl (.word rfl (.reference _ (.word rfl .nil))))
    · rw [invocation, hv]
      simp +decide [Imports.pieceText, hname.read, ← String.append_assoc]
  · refine ⟨[t.spelling (sdk.workflow.ident v.function), "ctx", "c" ++ "." ++ m.name, "in"], ?_,
      fun rest => ?_⟩
    · rw [callReferences, if_neg hv]
      exact .reference _ (.word rfl (.reference _ (.word rfl .nil)))
    · unfold invocation
      split
      · next hworkflow => exact absurd hworkflow hv
      · simp +decide [Imports.pieceText, hname.read, hfunction.read, ← String.append_assoc]

/-- A call that is started is returned as it is. -/
theorem Verb.refers_start (target : Target) :
    Refers t (callReferences sdk m ⟨.start, target⟩)
      (itemWords t ((call sdk m ⟨.start, target⟩).flatMap Stmt.items)) := by
  obtain ⟨ws, hrefers, hwords⟩ := exists_words_invocation sdk ht hm ⟨.start, target⟩
  have hbare := hwords []
  rw [List.append_nil, wordsBehind_nil, if_pos rfl, List.append_nil] at hbare
  have hcall : itemWords t ((call sdk m ⟨.start, target⟩).flatMap Stmt.items) = "return" :: ws := by
    simp +decide [call, Stmt.items, defining, Imports.pieceText, hbare]
  rw [hcall]
  exact .word rfl hrefers

/-- A workflow that is executed is started first, and its run is waited for. -/
theorem Verb.refers_run :
    Refers t (callReferences sdk m ⟨.execute, .workflow⟩ ++ [.ident m.output, .member "run" "Get"])
      (itemWords t ((call sdk m ⟨.execute, .workflow⟩).flatMap Stmt.items)) := by
  have hout := isWordPart_spelling ht hm.2.2.1.isName
  obtain ⟨ws, hrefers, hwords⟩ := exists_words_invocation sdk ht hm ⟨.execute, .workflow⟩
  have hbare := hwords []
  rw [List.append_nil, wordsBehind_nil, if_pos rfl, List.append_nil] at hbare
  have hcall : itemWords t ((call sdk m ⟨.execute, .workflow⟩).flatMap Stmt.items) =
      "run" :: "err" :: (ws ++ (["if", "err", "nil", "return", "nil", "err", "var", "out"] ++
        [t.spelling m.output, "err", "run" ++ "." ++ "Get", "ctx", "out", "return", "out",
          "err"])) := by
    simp +decide [call, Stmt.items, defining, branchStart, Imports.pieceText, hout.read, hbare]
  have hbranch : Refers t [] ["if", "err", "nil", "return", "nil", "err", "var", "out"] :=
    .of_unqualified (by decide)
  have hget : Refers t [.ident m.output, .member "run" "Get"] [t.spelling m.output, "err",
      "run" ++ "." ++ "Get", "ctx", "out", "return", "out", "err"] :=
    .reference _ (.word rfl (.reference _ (.of_unqualified (by decide))))
  rw [hcall]
  exact .word rfl (.word rfl (hrefers.append (hbranch.append hget)))

/-- Anything else that is executed is waited for on the line of the call. -/
theorem Verb.refers_wait {target : Target} (hother : target ≠ .workflow) :
    Refers t (.ident m.output :: callReferences sdk m ⟨.execute, target⟩)
      (itemWords t ((call sdk m ⟨.execute, target⟩).flatMap Stmt.items)) := by
  have hout := isWordPart_spelling ht hm.2.2.1.isName
  obtain ⟨ws, hrefers, hwords⟩ := exists_words_invocation sdk ht hm ⟨.execute, target⟩
  have hcall : itemWords t ((call sdk m ⟨.execute, target⟩).flatMap Stmt.items) =
      "var" :: "out" :: t.spelling m.output :: "err" ::
        (ws ++ [".Get", "ctx", "out", "return", "out", "err"]) := by
    cases target <;> first
      | exact absurd rfl hother
      | simp +decide [call, Stmt.items, defining, Imports.pieceText, hout.read, hwords]
  have hbehind : Refers t [] [".Get", "ctx", "out", "return", "out", "err"] :=
    .of_unqualified (by decide)
  have happend := hrefers.append hbehind
  rw [List.append_nil] at happend
  rw [hcall]
  exact .word rfl (.word rfl (.reference _ (.word rfl happend)))

/-- What follows the options: the call and what is done with its result, for each of the three
ways of calling. -/
theorem Verb.refers_call (v : Verb) :
    Refers t
      (match v.mode, v.target with
        | .start, _ => v.callReferences sdk m
        | .execute, .workflow => v.callReferences sdk m ++ [.ident m.output, .member "run" "Get"]
        | .execute, _ => .ident m.output :: v.callReferences sdk m)
      (itemWords t ((v.call sdk m).flatMap Stmt.items)) := by
  obtain ⟨mode, target⟩ := v
  cases mode with
  | start => exact refers_start sdk ht hm target
  | execute =>
    cases target with
    | workflow => exact refers_run sdk ht hm
    | childWorkflow => exact refers_wait sdk ht hm (by decide)
    | activity => exact refers_wait sdk ht hm (by decide)
    | localActivity => exact refers_wait sdk ht hm (by decide)

/-- The words of what a helper returns, up to a blank behind it. -/
theorem Verb.exists_words_result (v : Verb) :
    ∃ ws, Refers t ((codeIdents (v.result sdk m)).map .ident) ws ∧
      ∀ rest, wordsBehind .code [] ((t.codeText (v.result sdk m)).toList ++ ' ' :: rest) =
        ws ++ wordsBehind .code [] rest := by
  have hone {i : Ident} (hi : IsName i.name) : ∃ ws, Refers t [.ident i] ws ∧
      ∀ rest, wordsBehind .code [] ((t.codeText [.ident i]).toList ++ ' ' :: rest) =
        ws ++ wordsBehind .code [] rest := by
    have hread := (isWordPart_spelling ht hi).read
    exact ⟨_, .reference _ .nil, fun rest => by
      simp +decide [Imports.pieceText, hread, Reference.text]⟩
  have hpair {i : Ident} (hi : IsName i.name) {before : String}
      (hbefore : before = "(" ∨ before = "(*") : ∃ ws, Refers t [.ident i] ws ∧
        ∀ rest, wordsBehind .code []
          ((t.codeText [.text before, .ident i, ", ", .name "error", ")"]).toList ++ ' ' :: rest) =
            ws ++ wordsBehind .code [] rest := by
    have hread := (isWordPart_spelling ht hi).read
    refine ⟨_, .reference _ (.word (w := "error") rfl .nil), fun rest => ?_⟩
    obtain rfl | rfl := hbefore <;> simp +decide [Imports.pieceText, hread, Reference.text]
  obtain ⟨mode, target⟩ := v
  cases mode with
  | start =>
    cases target with
    | workflow => exact hpair (show IsName "WorkflowRun" by decide) (.inl rfl)
    | childWorkflow => exact hone (show IsName "ChildWorkflowFuture" by decide)
    | activity => exact hone (show IsName "Future" by decide)
    | localActivity => exact hone (show IsName "Future" by decide)
  | execute => exact hpair hm.2.2.1.isName (.inr rfl)

variable (hs : s.WellNamed)
include hs

/-- The first line of a helper. -/
theorem Service.refers_helper_head (v : Verb) :
    Refers t (m.paramReferences (v.target.contextPackage sdk) ++
      (codeIdents (v.result sdk m)).map .ident) (t.codeWords (s.helper sdk m v).head) := by
  have hcontext :=
    isWordPart_spelling_ident ht (v.target.contextPackage sdk) (show IsName "Context" by decide)
  have hin := isWordPart_spelling ht hm.2.1.1.isName
  have hstruct := isName_structName hs
  have hhelper := v.isName_helperName hs.1.isName hm.1.isName
  obtain ⟨ws, hrefers, hwords⟩ := v.exists_words_result sdk ht hm
  have hne : v.result sdk m ≠ [] := by
    obtain ⟨mode, target⟩ := v
    cases mode <;> cases target <;> simp [Verb.result, Method.result]
  have hhead : t.codeWords (s.helper sdk m v).head = "func" :: "c" :: s.structName ::
      v.helperName s.name m.name :: "ctx" ::
        t.spelling ((v.target.contextPackage sdk).ident "Context") :: "in" ::
          t.spelling m.input :: ws := by
    simp +decide [helper, Decl.head, receiverCode, Param.code, Signature.code_mk hne,
      Method.params, Imports.pieceText, hcontext.read, hin.read, hstruct.isWordPart.read,
      hhelper.isWordPart.read, hwords, List.intercalate_cons_cons]
  rw [hhead]
  exact .word rfl (.word rfl (.word hstruct.isQualified (.word hhelper.isQualified (.word rfl
    (.reference _ (.word rfl (.reference _ hrefers)))))))

/-- A helper is its first line, the options and the call. -/
theorem Service.refers_helper (v : Verb) :
    Refers t (m.helperReferences sdk v) (itemWords t (s.helper sdk m v).items) := by
  have hinside : itemWords t (s.helper sdk m v).inside =
      itemWords t (v.target.configure sdk).items ++
        itemWords t ((v.call sdk m).flatMap Stmt.items) := itemWords_append
  have hrefers := (refers_helper_head sdk ht hm hs v).append
    ((v.target.refers_configure sdk ht).append (v.refers_call sdk ht hm))
  rw [itemWords_decl (d := s.helper sdk m v) v.isSingleLine_of_mem_paragraph, hinside]
  obtain ⟨mode, target⟩ := v
  cases mode <;> cases target <;> exact hrefers

end Helper

/-! ## Bootstraps -/

/-- The words of the value of an option, up to the comma behind it. -/
theorem exists_words_value (v : OptionValue) :
    ∃ ws, Refers t (valueReferences sdk v) ws ∧
      ∀ rest, wordsBehind .code [] ((t.codeText (valueCode sdk v)).toList ++ ',' :: rest) =
        ws ++ wordsBehind .code [] rest := by
  have hcomma {cs : List Char} (hcs : ∀ d ∈ cs, isNumeralChar d = true) (rest : List Char) :
      wordsBehind .code [] (cs ++ ',' :: rest) = words cs ++ wordsBehind .code [] rest :=
    words_numeral hcs (by decide) rest
  have hblank (d : Number.Double) (rest : List Char) :
      wordsBehind .code [] (floatText d ++ ' ' :: rest) =
        words (floatText d) ++ wordsBehind .code [] rest :=
    words_numeral (fun _ => isNumeralChar_of_mem_floatText) (by decide) rest
  cases v with
  | bool b =>
    refine ⟨[if b then "true" else "false"], .word (by cases b <;> rfl) .nil, fun rest => ?_⟩
    cases b <;> simp +decide [valueCode, Imports.pieceText]
  | int n =>
    refine ⟨_, .of_unqualified (forall_words_intText n.toInt), fun rest => ?_⟩
    have hread := hcomma (fun _ => isNumeralChar_of_mem_intText (n := n.toInt)) rest
    simpa [valueCode, Imports.pieceText] using hread
  | float d =>
    refine ⟨_, .of_unqualified (forall_words_floatText d), fun rest => ?_⟩
    have hread := hcomma (fun _ => isNumeralChar_of_mem_floatText (d := d)) rest
    simpa [valueCode, Imports.pieceText] using hread
  | string x =>
    refine ⟨[], .nil, fun rest => ?_⟩
    simp only [valueCode, Imports.codeText_cons, Imports.codeText_nil, Imports.pieceText,
      String.append_empty, wordsBehind_quote]
    rfl
  | duration d =>
    have hduration :=
      isWordPart_spelling_ident ht sdk.time (show IsName "Duration" by decide)
    have hsecond := isWordPart_spelling_ident ht sdk.time (show IsName "Second" by decide)
    have hnumber := forall_words_floatText ((d.map Duration.inSeconds).getD .zero)
    refine ⟨t.spelling (sdk.time.ident "Duration") ::
      (words (floatText ((d.map Duration.inSeconds).getD .zero)) ++
        ["float64", t.spelling (sdk.time.ident "Second")]), ?_, fun rest => ?_⟩
    · exact .reference _ ((Refers.of_unqualified hnumber).append (.word rfl (.reference _ .nil)))
    · simp +decide [valueCode, Imports.pieceText, hduration.read, hsecond.read, hblank]

/-- A field of the literal of options has the words of its value behind its name. -/
theorem refers_field (w : Nat) (e : Setting × OptionValue) :
    Refers t (valueReferences sdk e.2) (t.codeWords
      (.text (Literal.key w e.1.name ++ " ") :: valueCode sdk e.2 ++ [.text ","])) := by
  have hname := isName_settingName e.1
  obtain ⟨ws, hrefers, hwords⟩ := exists_words_value sdk ht e.2
  have hblanks (n : Nat) (cs : List Char) :
      wordsBehind .code [] (List.replicate n ' ' ++ cs) = wordsBehind .code [] cs :=
    words_replicate (by decide) n cs
  have hfield : t.codeWords (.text (Literal.key w e.1.name ++ " ") :: valueCode sdk e.2 ++
      [.text ","]) = e.1.name :: ws := by
    simp +decide [Literal.key, Imports.pieceText, hname.isWordPart.read, hblanks, hwords]
  rw [hfield]
  exact .word hname.isQualified hrefers

/-- The literal of options, on one line or on several. -/
theorem refers_options (o : Options) :
    Refers t (.ident (sdk.worker.ident "Options") ::
        o.nonZero.flatMap fun e => valueReferences sdk e.2)
      (itemWords t (Stmt.literal ["opts"] [] (optionsLiteral sdk o) "").items) := by
  have htype := isWordPart_spelling_ident ht sdk.worker (show IsName "Options" by decide)
  by_cases ho : o.nonZero = []
  · have hwords : itemWords t (Stmt.literal ["opts"] [] (optionsLiteral sdk o) "").items =
        ["opts", t.spelling (sdk.worker.ident "Options")] := by
      simp +decide [Stmt.items, Literal.items, optionsLiteral, defining, ho, Imports.pieceText,
        htype.read]
    rw [hwords, ho]
    exact .word rfl (.reference _ .nil)
  · have hfields : (optionsLiteral sdk o).fields ≠ [] := by simpa [optionsLiteral] using ho
    have hwords : itemWords t (Stmt.literal ["opts"] [] (optionsLiteral sdk o) "").items =
        "opts" :: t.spelling (sdk.worker.ident "Options") :: o.nonZero.flatMap fun e =>
          t.codeWords (.text (Literal.key (Literal.width (optionsLiteral sdk o).fields) e.1.name ++
            " ") :: valueCode sdk e.2 ++ [.text ","]) := by
      rw [Stmt.items, Literal.items]
      split
      · next hnil => exact absurd hnil hfields
      · simp only [itemWords_append, itemWords_map_line]
        simp +decide [optionsLiteral, defining, Imports.pieceText, htype.read, List.flatMap_map]
    rw [hwords]
    exact .word rfl (.reference _ (.flatMap fun e _ => refers_field sdk ht _ e))

omit ht in
/-- A method is registered by a member of the worker. -/
theorem Method.refers_registration (m : Method) (hm : m.WellNamed) :
    Refers t [.member "w" m.registrar] (itemWords t m.registration.items) := by
  have hname := hm.1.isName
  have hwords : itemWords t m.registration.items = ["w" ++ "." ++ m.registrar, m.name] := by
    unfold Method.registration Method.registrar
    cases m.role <;> simp +decide [Stmt.items, defining, Imports.pieceText, hname.isWordPart.read]
  rw [hwords]
  exact .reference _ (.word hname.isQualified .nil)

omit ht in
/-- The task queue is written as a literal, which has no words. -/
theorem Service.refers_taskQueue (queue : String) :
    Refers t [] (itemWords t (Stmt.code ["taskQueue"] [quote queue]).items) := by
  have hquote : wordsBehind .code [] (quote queue).toList = [] := by
    have hread := wordsBehind_quote [] queue []
    rwa [List.append_nil] at hread
  have hwords : itemWords t (Stmt.code ["taskQueue"] [quote queue]).items = ["taskQueue"] := by
    simp +decide [Stmt.items, defining, Imports.pieceText, hquote]
  rw [hwords]
  exact .word rfl .nil

/-- The worker is made by the engine. -/
theorem Sdk.refers_new :
    Refers t [.ident (sdk.worker.ident "New")]
      (itemWords t (Stmt.code ["w"] [sdk.worker.ident "New", "(", .name "c", ", ",
        .name "taskQueue", ", ", .name "opts", ")"]).items) := by
  have hnew := isWordPart_spelling_ident ht sdk.worker (show IsName "New" by decide)
  have hwords : itemWords t (Stmt.code ["w"] [sdk.worker.ident "New", "(", .name "c", ", ",
      .name "taskQueue", ", ", .name "opts", ")"]).items =
        ["w", t.spelling (sdk.worker.ident "New"), "c", "taskQueue", "opts"] := by
    simp +decide [Stmt.items, defining, Imports.pieceText, hnew.read]
  rw [hwords]
  exact .word rfl (.reference _ (.of_unqualified (by decide)))

/-- The worker runs until it is interrupted, and the log says if it fails. -/
theorem Sdk.refers_run :
    Refers t [.member "w" "Run", sdk.worker.ident "InterruptCh", sdk.log.ident "Fatalln"]
      (itemWords t (Stmt.branch
        (some ("err", [.name "w", ".Run(", sdk.worker.ident "InterruptCh", "())"]))
        [.name "err", " != ", .name "nil"]
        [[sdk.log.ident "Fatalln", "(\"Failed to start Temporal worker:\", ", .name "err",
          ")"]]).items) := by
  have hinterrupt := isWordPart_spelling_ident ht sdk.worker (show IsName "InterruptCh" by decide)
  have hfatal := isWordPart_spelling_ident ht sdk.log (show IsName "Fatalln" by decide)
  have hwords : itemWords t (Stmt.branch
      (some ("err", [.name "w", ".Run(", sdk.worker.ident "InterruptCh", "())"]))
      [.name "err", " != ", .name "nil"]
      [[sdk.log.ident "Fatalln", "(\"Failed to start Temporal worker:\", ", .name "err",
        ")"]]).items =
        ["if", "err", "w" ++ "." ++ "Run", t.spelling (sdk.worker.ident "InterruptCh"), "err",
          "nil", t.spelling (sdk.log.ident "Fatalln"), "err"] := by
    simp +decide [Stmt.items, branchStart, defining, Imports.pieceText, hinterrupt.read,
      hfatal.read, wordsBehind, Scan.start, Scan.next, ended]
  rw [hwords]
  exact .word rfl (.word rfl (.reference _ (.reference _ (.word rfl (.word rfl (.reference _
    (.word rfl .nil)))))))

/-- The lines of a bootstrap: the task queue, the options, the worker, one registration for each
method, and the run. -/
theorem Service.refers_bootstrapBody (hs : s.WellNamed) (worker : WorkerConfig) :
    Refers t ((.ident (sdk.worker.ident "Options") ::
        worker.options.nonZero.flatMap fun e => valueReferences sdk e.2) ++
        ([sdk.worker.ident "New"] : List Reference) ++
        s.methods.map (fun m => Reference.member "w" m.registrar) ++
        ([.member "w" "Run", sdk.worker.ident "InterruptCh", sdk.log.ident "Fatalln"] :
          List Reference))
      (itemWords t ((s.bootstrapBody sdk worker).flatMap Stmt.items)) := by
  have hregistrations : Refers t (s.methods.map fun m => .member "w" m.registrar)
      (itemWords t ((s.methods.map Method.registration).flatMap Stmt.items)) := by
    rw [List.map_eq_flatMap, List.flatMap_map, itemWords_flatMap]
    exact .flatMap fun m hm => Method.refers_registration m (hs.2 m hm)
  have hrefers := ((((refers_taskQueue worker.taskQueue).append
    (refers_options sdk ht worker.options)).append (Sdk.refers_new sdk ht)).append
      hregistrations).append (Sdk.refers_run sdk ht)
  have hblank : Stmt.blank.items = [.blank] := rfl
  rw [bootstrapBody]
  simpa [hblank] using hrefers

/-- The function that starts a worker, if there is one to start. -/
theorem Service.refers_bootstrap (hs : s.WellNamed) :
    Refers t (s.bootstrapReferences sdk) (itemWords t ((s.bootstrap sdk).flatMap Decl.items)) := by
  have hclient := isWordPart_spelling_ident ht sdk.client (show IsName "Client" by decide)
  have hworker := isName_workerName hs
  unfold bootstrap bootstrapReferences
  cases s.startedWorker with
  | none => exact .nil
  | some worker =>
    have hbody := refers_bootstrapBody sdk ht hs worker
    have hhead : Refers t [.ident (sdk.client.ident "Client")]
        ["func", s.workerName, "c", t.spelling (sdk.client.ident "Client")] :=
      .word rfl (.word hworker.isQualified (.word rfl (.reference _ .nil)))
    have hwords : t.codeWords (Decl.func {
          signature := ⟨s.workerName, [⟨"c", [sdk.client.ident "Client"]⟩], []⟩
          body := s.bootstrapBody sdk worker }).head =
        ["func", s.workerName, "c", t.spelling (sdk.client.ident "Client")] := by
      simp +decide [Decl.head, receiverCode, Signature.code, Param.code, Imports.pieceText,
        hclient.read, hworker.isWordPart.read]
    rw [List.flatMap_singleton, itemWords_decl (by simp [Decl.doc]), hwords]
    exact hhead.append hbody

/-! ## Clients -/

/-- A method of the interface is one line. -/
theorem Method.refers_member (hm : m.WellNamed) :
    Refers t (m.memberReferences sdk) (itemWords t (m.member sdk).items) := by
  have hcontext :=
    isWordPart_spelling_ident ht (m.role.contextPackage sdk) (show IsName "Context" by decide)
  have hin := isWordPart_spelling ht hm.2.1.1.isName
  have hout := isWordPart_spelling ht hm.2.2.1.isName
  have hname := hm.1.isName
  have hdoc : itemWords t (m.member sdk).doc.items = [] :=
    itemWords_of_isRemark fun _ => Doc.isRemark_of_mem_items (by simp [Method.member, Method.doc])
  have hwords : itemWords t (m.member sdk).items =
      [m.name, "ctx", t.spelling ((m.role.contextPackage sdk).ident "Context"), "in",
        t.spelling m.input, t.spelling m.output, "error"] := by
    rw [Member.items, itemWords_append, hdoc]
    simp +decide [Method.member, Signature.code, Method.params, Method.result, Param.code,
      Imports.pieceText, hcontext.read, hin.read, hout.read, hname.isWordPart.read,
      List.intercalate_cons_cons]
  rw [hwords]
  exact .word hname.isQualified (.word rfl (.reference _ (.word rfl (.reference _
    (.reference _ (.word rfl .nil))))))

/-- The interface refers to what its methods do. -/
theorem Service.refers_interface (hs : s.WellNamed) :
    Refers t (s.methods.flatMap fun m => m.memberReferences sdk)
      (itemWords t (s.interface sdk).items) := by
  have hname := isName_interfaceName hs
  have hhead : t.codeWords (s.interface sdk).head = ["type", s.interfaceName, "interface"] := by
    simp +decide [interface, Decl.head, Imports.pieceText, hname.isWordPart.read]
  have hinside : itemWords t (s.interface sdk).inside =
      s.methods.flatMap fun m => itemWords t (m.member sdk).items := by
    rw [interface, Decl.inside, itemWords_flatMap, List.flatMap_map]
  rw [itemWords_decl (by simp [interface, Decl.doc, Service.doc]), hhead, hinside]
  exact .word rfl (.word hname.isQualified (.word rfl (.flatMap fun m hm =>
    Method.refers_member sdk ht (hs.2 m hm))))

/-- The structure refers to the client of the engine. -/
theorem Service.refers_struct (hs : s.WellNamed) :
    Refers t [.ident (sdk.client.ident "Client")] (itemWords t (s.struct sdk).items) := by
  have hclient := isWordPart_spelling_ident ht sdk.client (show IsName "Client" by decide)
  have hname := isName_structName hs
  have hwords : itemWords t (s.struct sdk).items =
      ["type", s.structName, "struct", "t", t.spelling (sdk.client.ident "Client")] := by
    rw [itemWords_decl (by simp [struct, Decl.doc])]
    simp +decide [struct, Decl.head, Decl.inside, Param.code, Imports.pieceText, hclient.read,
      hname.isWordPart.read]
  rw [hwords]
  exact .word rfl (.word hname.isQualified (.word rfl (.word rfl (.reference _ .nil))))

/-- So does the constructor. -/
theorem Service.refers_constructor (hs : s.WellNamed) :
    Refers t [.ident (sdk.client.ident "Client")] (itemWords t (s.constructor sdk).items) := by
  have hclient := isWordPart_spelling_ident ht sdk.client (show IsName "Client" by decide)
  have hstruct := isName_structName hs
  have hinterface := isName_interfaceName hs
  have hname := isName_constructorName hs
  have hwords : itemWords t (s.constructor sdk).items =
      ["func", s.constructorName, "c", t.spelling (sdk.client.ident "Client"), s.interfaceName,
        "return", s.structName, "c"] := by
    rw [itemWords_decl (by simp [constructor, Decl.doc, Service.doc])]
    simp +decide [constructor, Decl.head, Decl.inside, receiverCode, Signature.code, Param.code,
      Stmt.items, defining, Imports.pieceText, hclient.read, hstruct.isWordPart.read,
      hinterface.isWordPart.read, hname.isWordPart.read]
  rw [hwords]
  exact .word rfl (.word hname.isQualified (.word rfl (.reference _
    (.word hinterface.isQualified (.word rfl (.word hstruct.isQualified (.word rfl .nil)))))))

/-! ## Files -/

/-- The declarations of a service refer to what the table says, in its order. -/
theorem Service.refers_decls (hs : s.WellNamed) :
    Refers t (s.references sdk) (itemWords t ((s.decls sdk).flatMap Decl.items)) := by
  have hhelpers : Refers t
      (s.methods.flatMap fun m => m.role.verbs.flatMap (m.helperReferences sdk))
      (itemWords t ((s.methods.flatMap fun m => m.role.verbs.map (s.helper sdk m)).flatMap
        Decl.items)) := by
    rw [List.flatMap_assoc, itemWords_flatMap]
    refine .flatMap fun m hm => ?_
    rw [List.flatMap_map, itemWords_flatMap]
    exact .flatMap fun v _ => refers_helper sdk ht (hs.2 m hm) hs v
  have hreferences : s.references sdk = s.bootstrapReferences sdk ++
      (s.methods.flatMap (fun m => m.memberReferences sdk) ++
        ([.ident (sdk.client.ident "Client")] ++ ([.ident (sdk.client.ident "Client")] ++
          s.methods.flatMap fun m => m.role.verbs.flatMap (m.helperReferences sdk)))) := by
    simp [references]
  have hdecls : (s.decls sdk).flatMap Decl.items = (s.bootstrap sdk).flatMap Decl.items ++
      ((s.interface sdk).items ++ ((s.struct sdk).items ++ ((s.constructor sdk).items ++
        (s.methods.flatMap fun m => m.role.verbs.map (s.helper sdk m)).flatMap Decl.items))) := by
    simp [decls, client]
  rw [hreferences, hdecls, itemWords_append, itemWords_append, itemWords_append, itemWords_append]
  exact (refers_bootstrap sdk ht hs).append ((refers_interface sdk ht hs).append
    ((refers_struct sdk ht hs).append ((refers_constructor sdk ht hs).append hhelpers)))

end TemporalBindings.Bindings
