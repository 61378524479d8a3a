import TemporalBindings.Proofs.Shortest
import TemporalBindings.Source.Numeral
import TemporalBindings.Text.Cut

/-!
# TemporalBindings.Proofs.Numerals

What numerals mean. A numeral is read as the source that it is part of reads it, as an exact
decimal number:

```
numeral    mantissa  |  mantissa e sign digits
mantissa   digits  |  digits . digits
```

Whether a decimal is written with an exponent or without, it is what is read.
-/

namespace TemporalBindings.Source

open Number Text

/-! ## Reading numerals -/

/-- The number that digits spell. -/
def digits? (s : List Char) : Option Nat :=
  if s ≠ [] ∧ s.all Char.isDigit then some (Nat.ofDigitChars 10 s 0) else none

/-- A mantissa without its point, and the places behind that. -/
def mantissa? (s : List Char) : Option (Nat × Nat) :=
  match cut? '.' s with
  | none => (digits? s).map (·, 0)
  | some (whole, fraction) => do
    let _ ← digits? whole
    let _ ← digits? fraction
    let n ← digits? (whole ++ fraction)
    some (n, fraction.length)

/-- An exponent behind its sign. -/
def exponent? : List Char → Option Int
  | '+' :: s => (digits? s).map fun n => n
  | '-' :: s => (digits? s).map fun n => -n
  | _ => none

/-- The number that a numeral is. -/
def numeral? (s : List Char) : Option ℚ :=
  match cut? 'e' s with
  | none => (mantissa? s).map fun (n, places) => n * 10 ^ (-places : Int)
  | some (front, behind) => do
    let (n, places) ← mantissa? front
    let exponent ← exponent? behind
    some (n * 10 ^ (exponent - places))

/-! ## Digits -/

/-- Whether there are digits, and nothing else. -/
def IsDigits (s : List Char) : Prop :=
  s ≠ [] ∧ ∀ c ∈ s, c.isDigit = true

namespace IsDigits

variable {s : List Char}

theorem digits? (h : IsDigits s) : digits? s = some (Nat.ofDigitChars 10 s 0) := by
  rw [Source.digits?, if_pos ⟨h.1, List.all_eq_true.2 h.2⟩]

theorem append {t : List Char} (h : IsDigits s) (ht : ∀ c ∈ t, c.isDigit = true) :
    IsDigits (s ++ t) := by
  refine ⟨by simp [h.1], fun c hc => ?_⟩
  obtain hc | hc := List.mem_append.1 hc
  · exact h.2 c hc
  · exact ht c hc

theorem not_mem {c : Char} (h : IsDigits s) (hc : c.isDigit = false) : c ∉ s := fun hmem => by
  rw [h.2 c hmem] at hc
  cases hc

/-- Digits are a mantissa without places. -/
theorem mantissa? (h : IsDigits s) : mantissa? s = some (Nat.ofDigitChars 10 s 0, 0) := by
  rw [Source.mantissa?, cut?_eq_none_iff.2 (h.not_mem rfl), h.digits?]
  rfl

/-- Digits around a point are a mantissa with the places behind it. -/
theorem mantissa?_point {t : List Char} (h : IsDigits s) (ht : IsDigits t) :
    Source.mantissa? (s ++ '.' :: t) = some (Nat.ofDigitChars 10 (s ++ t) 0, t.length) := by
  have hcut : cut? '.' (s ++ '.' :: t) = some (s, t) := cut?_eq_some_iff.2 ⟨rfl, h.not_mem rfl⟩
  rw [Source.mantissa?, hcut]
  simp only [h.digits?, ht.digits?, (h.append ht.2).digits?]
  rfl

end IsDigits

theorem isDigit_of_mem_zeros {count : Nat} {c : Char} (h : c ∈ List.replicate count '0') :
    c.isDigit = true := by
  rw [List.eq_of_mem_replicate h]
  rfl

/-- Zeros in front are digits too. -/
theorem IsDigits.padded {s : List Char} (h : IsDigits s) (count : Nat) :
    IsDigits (List.replicate count '0' ++ s) := by
  refine ⟨by simp [h.1], fun c hc => ?_⟩
  obtain hc | hc := List.mem_append.1 hc
  · exact isDigit_of_mem_zeros hc
  · exact h.2 c hc

theorem isDigits_zero : IsDigits ['0'] :=
  ⟨by simp, by simp⟩

theorem isDigits_natText (n : Nat) : IsDigits (natText n) :=
  ⟨Nat.toDigits_ne_nil, fun _ hc => Nat.isDigit_of_mem_toDigits (by decide) (by decide) hc⟩

theorem ofDigitChars_natText (n : Nat) : Nat.ofDigitChars 10 (natText n) 0 = n :=
  Nat.ofDigitChars_ten_toDigits

/-- Zeros in front do not count. -/
theorem ofDigitChars_zeros (count : Nat) (s : List Char) :
    Nat.ofDigitChars 10 (List.replicate count '0' ++ s) 0 = Nat.ofDigitChars 10 s 0 := by
  rw [Nat.ofDigitChars_append, Nat.ofDigitChars_replicate_zero, Nat.mul_zero]

/-! ## Numerals without an exponent -/

/-- A mantissa alone is a numeral. -/
theorem numeral?_of_mantissa? {s : List Char} {n places : Nat} (he : 'e' ∉ s)
    (h : mantissa? s = some (n, places)) : numeral? s = some (n * 10 ^ (-places : Int) : ℚ) := by
  rw [numeral?, cut?_eq_none_iff.2 he, h]
  rfl

/-- Digits before and behind a point are the numeral of a decimal if together they spell its
coefficient. -/
theorem numeral?_point {d : Decimal} {whole fraction : List Char} (hwhole : IsDigits whole)
    (hfraction : IsDigits fraction) (hlength : (fraction.length : Int) = -d.exponent)
    (hspelled : Nat.ofDigitChars 10 (whole ++ fraction) 0 = d.coefficient) :
    numeral? (whole ++ '.' :: fraction) = some d.toRat := by
  have he : 'e' ∉ whole ++ '.' :: fraction := by
    simp [hwhole.not_mem (c := 'e') rfl, hfraction.not_mem (c := 'e') rfl]
  rw [numeral?_of_mantissa? he (hwhole.mantissa?_point hfraction), hspelled, hlength, neg_neg,
    Decimal.toRat]

/-- What is written without an exponent: digits alone if the decimal is whole, otherwise digits
around a point. Before the point stand the first digits, or a zero if there are none. -/
theorem positional_cases (d : Decimal) :
    0 ≤ d.exponent ∧ positional d = d.digits ++ List.replicate d.exponent.toNat '0' ∨
      ∃ whole fraction, positional d = whole ++ '.' :: fraction ∧ IsDigits whole ∧
        IsDigits fraction ∧ (fraction.length : Int) = -d.exponent ∧
        Nat.ofDigitChars 10 (whole ++ fraction) 0 = d.coefficient ∧
        (whole = ['0'] ∨ whole.head? = d.digits.head?) := by
  have hdigits : IsDigits d.digits := isDigits_natText d.coefficient
  have hvalue : Nat.ofDigitChars 10 d.digits 0 = d.coefficient := ofDigitChars_natText d.coefficient
  have hdigit := hdigits.2
  unfold positional
  dsimp only
  split
  · next hexponent => exact .inl ⟨hexponent, rfl⟩
  · next hexponent =>
    right
    split
    · next hlong =>
      refine ⟨_, _, rfl, ⟨?_, fun c hc => hdigit c (List.mem_of_mem_take hc)⟩,
        ⟨?_, fun c hc => hdigit c (List.mem_of_mem_drop hc)⟩, ?_, ?_, .inr ?_⟩
      · rw [ne_eq, List.take_eq_nil_iff, not_or]
        exact ⟨by omega, hdigits.1⟩
      · rw [ne_eq, List.drop_eq_nil_iff]
        omega
      · rw [List.length_drop]
        omega
      · rw [List.take_append_drop, hvalue]
      · rw [List.head?_take, if_neg (by omega)]
    · next hshort =>
      have hfraction := hdigits.padded ((-d.exponent).toNat - d.digits.length)
      have hlength : ((List.replicate ((-d.exponent).toNat - d.digits.length) '0' ++
          d.digits).length : Int) = -d.exponent := by
        rw [List.length_append, List.length_replicate]
        omega
      have hzeros := ofDigitChars_zeros ((-d.exponent).toNat - d.digits.length + 1) d.digits
      rw [hvalue] at hzeros
      exact ⟨['0'], _, rfl, isDigits_zero, hfraction, hlength, hzeros, .inl rfl⟩

theorem numeral?_positional (d : Decimal) : numeral? (positional d) = some d.toRat := by
  obtain ⟨hexponent, htext⟩ | ⟨whole, fraction, htext, hwhole, hfraction, hlength, hspelled, -⟩ :=
    positional_cases d
  · have hall : IsDigits (d.digits ++ List.replicate d.exponent.toNat '0') :=
      (isDigits_natText d.coefficient).append fun _ => isDigit_of_mem_zeros
    have hvalue : Nat.ofDigitChars 10 d.digits 0 = d.coefficient :=
      ofDigitChars_natText d.coefficient
    have hpower : (10 : ℚ) ^ d.exponent.toNat = 10 ^ d.exponent := by
      rw [← zpow_natCast, Int.toNat_of_nonneg hexponent]
    rw [htext, numeral?_of_mantissa? (hall.not_mem rfl) hall.mantissa?, Nat.ofDigitChars_append,
      hvalue, Nat.ofDigitChars_replicate_zero, Decimal.toRat]
    push_cast
    rw [hpower, mul_one, mul_comm]
  · rw [htext]
    exact numeral?_point hwhole hfraction hlength hspelled

/-! ## Numerals with an exponent -/

/-- An exponent as it stands behind the `e`: a sign and at least two digits. -/
def exponentText (n : Int) : List Char :=
  (if n < 0 then '-' else '+') ::
    (List.replicate (2 - (natText n.natAbs).length) '0' ++ natText n.natAbs)

theorem exponent?_exponentText (n : Int) : exponent? (exponentText n) = some n := by
  have hdigits := ((isDigits_natText n.natAbs).padded (2 - (natText n.natAbs).length)).digits?
  rw [ofDigitChars_zeros, ofDigitChars_natText] at hdigits
  unfold exponentText
  split <;> simp only [exponent?, hdigits, Option.bind_eq_bind, Option.bind_some, Option.pure_def,
    Option.map_some, Option.some.injEq] <;> omega

/-- A mantissa and an exponent are a numeral. -/
theorem numeral?_of_exponent? {front behind : List Char} {n places : Nat} {exponent : Int}
    (he : 'e' ∉ front) (hfront : mantissa? front = some (n, places))
    (hbehind : exponent? behind = some exponent) :
    numeral? (front ++ 'e' :: behind) = some (n * 10 ^ (exponent - places) : ℚ) := by
  rw [numeral?, cut?_eq_some_iff.2 ⟨rfl, he⟩]
  simp [hfront, hbehind]

/-- What is written with an exponent: the first digit, and the others behind a point if there
are any. -/
theorem scientific_cases (d : Decimal) :
    (∃ c, d.digits = [c] ∧ scientific d = [c] ++ 'e' :: exponentText d.leading) ∨
      ∃ c cs, cs ≠ [] ∧ d.digits = c :: cs ∧
        scientific d = [c] ++ '.' :: cs ++ 'e' :: exponentText d.leading := by
  have hne : d.digits ≠ [] := Nat.toDigits_ne_nil
  rcases hdigits : d.digits with _ | ⟨c, _ | ⟨c', cs⟩⟩
  · exact absurd hdigits hne
  · refine .inl ⟨c, rfl, ?_⟩
    rw [scientific, hdigits, List.append_assoc, List.append_assoc]
    rfl
  · refine .inr ⟨c, c' :: cs, List.cons_ne_nil c' cs, rfl, ?_⟩
    rw [scientific, hdigits, List.append_assoc, List.append_assoc]
    rfl

theorem numeral?_scientific (d : Decimal) : numeral? (scientific d) = some d.toRat := by
  have hdigits : IsDigits d.digits := isDigits_natText d.coefficient
  have hvalue : Nat.ofDigitChars 10 d.digits 0 = d.coefficient := ofDigitChars_natText d.coefficient
  have hexponent := exponent?_exponentText d.leading
  obtain ⟨c, hd, htext⟩ | ⟨c, cs, hne, hd, htext⟩ := scientific_cases d
  · have hleading : d.leading = d.exponent := by simp [Decimal.leading, hd]
    rw [hd] at hdigits hvalue
    rw [htext, numeral?_of_exponent? (hdigits.not_mem rfl) hdigits.mantissa? hexponent, hvalue,
      hleading, Nat.cast_zero, sub_zero, Decimal.toRat]
  · have hleading : d.leading - cs.length = d.exponent := by
      rw [Decimal.leading, hd, List.length_cons]
      omega
    rw [hd] at hdigits hvalue
    have hfirst : IsDigits [c] := ⟨by simp, fun x hx => hdigits.2 x (by simp_all)⟩
    have hothers : IsDigits cs := ⟨hne, fun x hx => hdigits.2 x (List.mem_cons_of_mem c hx)⟩
    have he : 'e' ∉ [c] ++ '.' :: cs := by
      rw [List.mem_append, List.mem_cons (l := cs), not_or, not_or]
      exact ⟨hfirst.not_mem rfl, by decide, hothers.not_mem rfl⟩
    rw [htext, numeral?_of_exponent? he (hfirst.mantissa?_point hothers) hexponent, hleading,
      List.singleton_append, hvalue, Decimal.toRat]

/-! ## Doubles -/

/-- Whichever way a decimal is written, it is what is read. -/
theorem numeral?_magnitudeText (d : Decimal) : numeral? (magnitudeText d) = some d.toRat := by
  unfold magnitudeText
  split
  · exact numeral?_positional d
  · exact numeral?_scientific d

/-- A positive double is written as its shortest decimal. -/
theorem numeral?_floatText {d : Double} (h : d.IsPositive) :
    numeral? (floatText d) = some (Decimal.ofDouble d).toRat := by
  obtain ⟨hnegative, hfinite, hzero⟩ := h
  have hnan : d.isNaN = false := by
    rw [Double.isFinite, decide_eq_true_iff] at hfinite
    simp [Double.isNaN, hfinite]
  rw [floatText, hnan, hnegative, hfinite, hzero]
  exact numeral?_magnitudeText _

theorem numeral?_zero : numeral? ['0'] = some 0 := by
  have hvalue : Nat.ofDigitChars 10 ['0'] 0 = 0 := rfl
  rw [numeral?_of_mantissa? (isDigits_zero.not_mem rfl) isDigits_zero.mantissa?, hvalue,
    Nat.cast_zero, zero_mul]

theorem numeral?_floatText_zero : numeral? (floatText .zero) = some 0 := by
  have htext : floatText .zero = ['0'] := by decide
  rw [htext, numeral?_zero]

end TemporalBindings.Source
