import Mathlib.Tactic.SplitIfs
import TemporalBindings.Bindings.Bootstrap
import TemporalBindings.Proofs.Lines

/-!
# TemporalBindings.Proofs.Values

Whatever an option holds, its value is written on one line. Numerals have no
characters but digits, a point, signs and the letters of the special values; a
literal of a text escapes its line breaks.
-/

namespace TemporalBindings.Source

open Number

/-! ## Numerals -/

/-- Whether a character occurs in numerals. -/
def isNumeralChar (c : Char) : Bool :=
  c.isDigit || c ∈ ['.', '-', '+', 'e', 'N', 'a', 'i', 'n', 'f']

/-- Integers are digits behind a sign, if there is one. -/
theorem isNumeralChar_of_mem_natText {n : Nat} {c : Char} (h : c ∈ natText n) :
    isNumeralChar c = true := by
  simp [isNumeralChar, Nat.isDigit_of_mem_toDigits (by decide) (by decide) h]

theorem isNumeralChar_of_mem_intText {n : Int} {c : Char} (h : c ∈ intText n) :
    isNumeralChar c = true := by
  unfold intText at h
  split at h
  · obtain rfl | h := List.mem_cons.1 h
    · decide
    · exact isNumeralChar_of_mem_natText h
  · exact isNumeralChar_of_mem_natText h

theorem isNumeralChar_of_mem_digits {d : Decimal} {c : Char} (h : c ∈ d.digits) :
    isNumeralChar c = true :=
  isNumeralChar_of_mem_natText h

theorem isNumeralChar_of_mem_replicate {n : Nat} {c : Char} (h : c ∈ List.replicate n '0') :
    isNumeralChar c = true := by
  rw [List.eq_of_mem_replicate h]
  decide

/-- The digits may have a point among them, and zeros around. -/
theorem isNumeralChar_of_mem_positional {d : Decimal} {c : Char} (h : c ∈ positional d) :
    isNumeralChar c = true := by
  have hpoint : isNumeralChar '.' = true := by decide
  have hzero : isNumeralChar '0' = true := by decide
  unfold positional at h
  simp only at h
  split at h
  · obtain h | h := List.mem_append.1 h
    · exact isNumeralChar_of_mem_digits h
    · exact isNumeralChar_of_mem_replicate h
  · split at h
    · simp only [List.mem_append, List.mem_cons] at h
      obtain h | rfl | h := h
      · exact isNumeralChar_of_mem_digits (List.mem_of_mem_take h)
      · exact hpoint
      · exact isNumeralChar_of_mem_digits (List.mem_of_mem_drop h)
    · simp only [List.mem_append, List.mem_cons] at h
      obtain (rfl | rfl | h) | h := h
      · exact hzero
      · exact hpoint
      · exact isNumeralChar_of_mem_replicate h
      · exact isNumeralChar_of_mem_digits h

/-- Or they have an exponent behind them. -/
theorem isNumeralChar_of_mem_scientific {d : Decimal} {c : Char} (h : c ∈ scientific d) :
    isNumeralChar c = true := by
  simp only [scientific, List.mem_append, List.mem_cons, List.not_mem_nil, or_false] at h
  obtain ((h | rfl | rfl) | h) | h := h
  · have hdigits : c ∈ d.digits ∨ c = '.' := by
      split at h
      · simp at h
      · next hd => exact .inl (hd ▸ h)
      · next hd =>
        rw [hd, List.mem_cons]
        obtain h | h := List.mem_cons.1 h
        · exact .inl (.inl h)
        · exact (List.mem_cons.1 h).symm.imp_left .inr
    obtain h | rfl := hdigits
    · exact isNumeralChar_of_mem_digits h
    · decide
  · decide
  · split <;> decide
  · exact isNumeralChar_of_mem_replicate h
  · exact isNumeralChar_of_mem_natText h

/-- A double is written in characters of numerals, whatever it is. -/
theorem isNumeralChar_of_mem_floatText {d : Double} {c : Char} (h : c ∈ floatText d) :
    isNumeralChar c = true := by
  have hnan : ['N', 'a', 'N'].all isNumeralChar = true := by decide
  have hminus : ['-'].all isNumeralChar = true := by decide
  have hinf : ['i', 'n', 'f'].all isNumeralChar = true := by decide
  have hzero : ['0'].all isNumeralChar = true := by decide
  unfold floatText at h
  split at h
  · exact List.all_eq_true.1 hnan c h
  · obtain h | h := List.mem_append.1 h
    · split at h
      · exact List.all_eq_true.1 hminus c h
      · simp at h
    · split at h
      · exact List.all_eq_true.1 hinf c h
      · split at h
        · exact List.all_eq_true.1 hzero c h
        · unfold magnitudeText at h
          split at h
          · exact isNumeralChar_of_mem_positional h
          · exact isNumeralChar_of_mem_scientific h

/-! ## Literals of texts -/

/-- The digits of an escape neither end the literal nor begin another escape. -/
theorem ne_of_mem_hexDigits {count n : Nat} {c : Char} (h : c ∈ hexDigits count n) :
    c ≠ '"' ∧ c ≠ '\\' ∧ c ≠ '\n' := by
  induction count generalizing n with
  | zero => simp [hexDigits] at h
  | succ count ih =>
    rw [hexDigits, List.mem_append, List.mem_singleton] at h
    obtain h | rfl := h
    · exact ih h
    · have hdigit : ∀ k < 16, Nat.digitChar k ≠ '"' ∧ Nat.digitChar k ≠ '\\' ∧
          Nat.digitChar k ≠ '\n' := by decide
      exact hdigit _ (Nat.mod_lt n (by decide))

/-- Line breaks are escaped. -/
theorem newline_not_mem_escape (c : Char) : '\n' ∉ escape c := by
  unfold escape
  split_ifs with hquote hback hnewline hreturn htab hcontrol
  · decide
  · decide
  · decide
  · decide
  · decide
  · rw [List.mem_append, not_or]
    exact ⟨by decide, fun h => (ne_of_mem_hexDigits h).2.2 rfl⟩
  · rw [List.mem_singleton]
    exact Ne.symm hnewline

/-- So the literal of a text is on one line, on however many the text is. -/
theorem isSingleLine_quote (s : String) : IsSingleLine (quote s) := by
  simp only [IsSingleLine, quote, String.toList_ofList, List.mem_append, List.mem_singleton,
    List.mem_flatMap, not_or, not_exists, not_and]
  exact ⟨⟨by decide, fun c _ => newline_not_mem_escape c⟩, by decide⟩

end TemporalBindings.Source
