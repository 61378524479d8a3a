import Mathlib.Tactic.SplitIfs
import TemporalBindings.Proofs.Blocks
import TemporalBindings.Proofs.CodeLines
import TemporalBindings.Proofs.Values

/-!
# TemporalBindings.Proofs.Tokens

Texts of whole tokens: a reader that comes to one between two tokens keeps all of it and
is between two tokens behind it. Such texts can be put together, so it is enough to look
at the pieces that code is made of:

```
words, numerals      have no character with a meaning of its own
literals of texts    escape every quote and every backslash
```
-/

namespace TemporalBindings.Source

open Text

/-! ## Whole tokens -/

/-- A text of whole tokens. -/
def IsTokens (s : String) : Prop :=
  uncomment .code s.toList = s.toList ∧ Scan.code.after s.toList = .code

instance (s : String) : Decidable (IsTokens s) :=
  inferInstanceAs (Decidable (_ ∧ _))

/-- Texts of whole tokens are put together to one. -/
theorem IsTokens.append {s s' : String} (h : IsTokens s) (h' : IsTokens s') :
    IsTokens (s ++ s') := by
  rw [IsTokens, String.toList_append, Scan.after_append, h.2,
    uncomment_append (by rw [h.2]; rfl), h.1, h.2, h'.1]
  exact ⟨rfl, h'.2⟩

/-- Whether a character means the same wherever it stands between two tokens. -/
def isInert (c : Char) : Bool :=
  c ≠ '/' && c ≠ '"' && c ≠ '\'' && c ≠ '`'

/-- Such a character ends nothing and begins nothing. -/
theorem Scan.next_of_isInert {c : Char} (h : isInert c = true) : Scan.code.next c = .code := by
  simp only [isInert, Bool.and_eq_true, decide_eq_true_eq] at h
  simp [next, start, h]

theorem Scan.kept_of_isInert {c : Char} (h : isInert c = true) : Scan.code.kept c = [c] := by
  simp only [isInert, Bool.and_eq_true, decide_eq_true_eq] at h
  simp [kept, h]

/-- Between two tokens all inert characters are kept, and the reader stays between two tokens. -/
theorem uncomment_of_isInert {cs : List Char} (h : ∀ c ∈ cs, isInert c = true) :
    uncomment .code cs = cs ∧ Scan.code.after cs = .code := by
  induction cs with
  | nil => exact ⟨rfl, rfl⟩
  | cons c cs ih =>
    have hc := h c List.mem_cons_self
    obtain ⟨hkept, hafter⟩ := ih fun d hd => h d (List.mem_cons_of_mem c hd)
    rw [uncomment, Scan.after_cons, Scan.next_of_isInert hc, Scan.kept_of_isInert hc, hkept]
    exact ⟨rfl, hafter⟩

/-- The characters of a class without slash and quotes are inert. -/
theorem isInert_of_class {p : Char → Bool} {c : Char} (h : p c = true)
    (hp : ['/', '"', '\'', '`'].any p = false) : isInert c = true := by
  have hne : ∀ d ∈ ['/', '"', '\'', '`'], c ≠ d := fun d hd =>
    ne_of_class h (by simpa using List.any_eq_false.1 hp d hd)
  simp only [List.forall_mem_cons] at hne
  simp [isInert, hne]

theorem isInert_of_isPlain {c : Char} (h : isPlain c = true) : isInert c = true :=
  isInert_of_class h (by decide)

theorem isInert_of_isBlank {c : Char} (h : isBlank c = true) : isInert c = true :=
  isInert_of_class h (by decide)

theorem isInert_of_isNumeralChar {c : Char} (h : isNumeralChar c = true) : isInert c = true :=
  isInert_of_class h (by decide)

/-- Names, with points or without, are inert. -/
theorem IsWord.isTokens {s : String} (h : IsWord s) : IsTokens s :=
  uncomment_of_isInert fun c hc => isInert_of_isPlain (h.2 c hc)

/-! ## Literals of texts -/

/-- A text that can stand inside a literal: none of it is read as code, all of it is kept, and
behind it the literal still goes on. -/
structure IsInsideQuotes (cs : List Char) : Prop where
  kept : uncomment (.quoted true false) cs = cs
  after : (Scan.quoted true false).after cs = .quoted true false
  hidden : (Scan.quoted true false).hides cs = true

/-- What can stand inside a literal can do so behind something else that can. -/
theorem IsInsideQuotes.append {cs ds : List Char} (h : IsInsideQuotes cs)
    (h' : IsInsideQuotes ds) : IsInsideQuotes (cs ++ ds) where
  kept := by rw [uncomment_append (by rw [h.after]; rfl), h.kept, h.after, h'.kept]
  after := by rw [Scan.after_append, h.after, h'.after]
  hidden := by rw [Scan.hides_append, h.hidden, h.after, h'.hidden]; rfl

/-- Without quotes, backslashes and line breaks there is nothing to escape. -/
theorem isInsideQuotes_of_ne {cs : List Char}
    (h : ∀ c ∈ cs, c ≠ '"' ∧ c ≠ '\\' ∧ c ≠ '\n') : IsInsideQuotes cs := by
  induction cs with
  | nil => exact ⟨rfl, rfl, rfl⟩
  | cons c cs ih =>
    have hcs := ih fun d hd => h d (List.mem_cons_of_mem c hd)
    have hc : IsInsideQuotes [c] := by
      obtain ⟨hquote, hback, hnewline⟩ := h c List.mem_cons_self
      constructor <;>
        simp [uncomment, Scan.next, Scan.kept, Scan.pending, Scan.hides, Scan.isCode, hquote, hback,
          hnewline]
    exact hc.append hcs

/-- Every character can stand inside a literal once it is escaped. -/
theorem isInsideQuotes_escape (c : Char) : IsInsideQuotes (escape c) := by
  unfold escape
  split_ifs with hquote hback hnewline hreturn htab hcontrol
  · exact ⟨rfl, rfl, rfl⟩
  · exact ⟨rfl, rfl, rfl⟩
  · exact ⟨rfl, rfl, rfl⟩
  · exact ⟨rfl, rfl, rfl⟩
  · exact ⟨rfl, rfl, rfl⟩
  · have hletter : IsInsideQuotes ['\\', 'u'] := ⟨rfl, rfl, rfl⟩
    exact hletter.append (isInsideQuotes_of_ne fun d hd => ne_of_mem_hexDigits hd)
  · refine isInsideQuotes_of_ne fun d hd => ?_
    rw [List.mem_singleton.1 hd]
    exact ⟨hquote, hback, hnewline⟩

theorem isInsideQuotes_flatMap_escape (cs : List Char) : IsInsideQuotes (cs.flatMap escape) := by
  induction cs with
  | nil => exact ⟨rfl, rfl, rfl⟩
  | cons c cs ih => exact (isInsideQuotes_escape c).append ih

/-- A literal is an escaped text between two quotes. -/
theorem toList_quote (s : String) :
    (quote s).toList = '"' :: (s.toList.flatMap escape ++ ['"']) := by
  simp [quote]

/-- The literal of any text is a token. -/
theorem isTokens_quote (s : String) : IsTokens (quote s) := by
  obtain ⟨hkept, hafter, -⟩ := isInsideQuotes_flatMap_escape s.toList
  rw [IsTokens, toList_quote, Scan.after_cons]
  have hopen : Scan.code.next '"' = .quoted true false := rfl
  rw [uncomment, hopen, uncomment_append (by rw [hafter]; rfl), hkept, Scan.after_append, hafter]
  exact ⟨rfl, rfl⟩

end TemporalBindings.Source
