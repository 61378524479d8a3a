import Mathlib.Data.Int.Log
import Mathlib.Data.Rat.Floor
import TemporalBindings.Proofs.Numerals

/-!
# TemporalBindings.Proofs.FloatTexts

How doubles are written, of either sign and of every size:

```
numeral    sign whole fraction exponent
sign       nothing  |  -
whole      0  |  digits, the first of which is not 0
fraction   nothing  |  . digits
exponent   nothing  |  e + digits  |  e - digits       at least two of them
```

The text of a finite double is a numeral, and the number that it denotes is the shortest decimal
of the double, so the double is nearest to it. It has an exponent iff its first digit does not
stand between the fourth place behind the point and the sixth before it, and either way of
writing it denotes the same number.
-/

namespace TemporalBindings.Number

namespace Double

/-! ## Signs -/

/-- The double with the other sign. -/
def negated (d : Double) : Double :=
  ⟨d.bits + 0x8000000000000000⟩

variable {d : Double}

theorem toNat_bits_negated (d : Double) :
    d.negated.bits.toNat = (d.bits.toNat + 0x8000000000000000) % 2 ^ 64 :=
  UInt64.toNat_add _ _

@[simp] theorem negated_negated (d : Double) : d.negated.negated = d := by
  have hbits : d.negated.negated.bits.toNat = d.bits.toNat := by
    have hlt := d.bits.toNat_lt
    rw [toNat_bits_negated, toNat_bits_negated]
    omega
  obtain ⟨bits⟩ := d
  exact congrArg Double.mk (UInt64.toNat_inj.1 hbits)

@[simp] theorem negative_negated (d : Double) : d.negated.negative = !d.negative := by
  have hlt := d.bits.toNat_lt
  have hsign : (1 <<< 63 : Nat) = 0x8000000000000000 := rfl
  rw [negative, negative, toNat_bits_negated, hsign, ← decide_not, decide_eq_decide]
  omega

@[simp] theorem exponentField_negated (d : Double) :
    d.negated.exponentField = d.exponentField := by
  rw [exponentField_eq, exponentField_eq, toNat_bits_negated]
  omega

@[simp] theorem fraction_negated (d : Double) : d.negated.fraction = d.fraction := by
  rw [fraction_eq, fraction_eq, toNat_bits_negated]
  omega

@[simp] theorem isFinite_negated (d : Double) : d.negated.isFinite = d.isFinite := by
  simp [isFinite]

@[simp] theorem isZero_negated (d : Double) : d.negated.isZero = d.isZero := by
  simp [isZero]

@[simp] theorem significand_negated (d : Double) : d.negated.significand = d.significand := by
  simp [significand]

@[simp] theorem exponent_negated (d : Double) : d.negated.exponent = d.exponent := by
  simp [exponent]

/-- A finite double is zero, positive or negative. -/
theorem isPositive_or_negated (hfinite : d.isFinite = true) (hzero : d.isZero = false) :
    d.negative = false ∧ d.IsPositive ∨ d.negative = true ∧ d.negated.IsPositive := by
  cases hnegative : d.negative with
  | false => exact .inl ⟨rfl, hnegative, hfinite, hzero⟩
  | true => exact .inr ⟨rfl, by simp [hnegative], by simp [hfinite], by simp [hzero]⟩

/-! ## Reading a number -/

/-- The double nearest to a number. Zero is positive. -/
def nearest (x : ℚ) : Double :=
  if x < 0 then (ofRatio x.num.natAbs x.den).negated else ofRatio x.num.natAbs x.den

theorem nearest_zero : nearest 0 = zero := by
  rw [nearest, if_neg (lt_irrefl 0)]
  exact ofRatio_zero _

theorem nearest_neg {x : ℚ} (hx : 0 < x) : nearest (-x) = (nearest x).negated := by
  rw [nearest, nearest, if_pos (neg_neg_iff_pos.2 hx), if_neg hx.not_gt, Rat.neg_num,
    Int.natAbs_neg, Rat.neg_den]

/-- A number that rounds to a double is read as this double. -/
theorem IsPositive.nearest_eq (h : d.IsPositive) {x : ℚ}
    (hx : RoundsTo x d.significand d.exponent) : nearest x = d := by
  have hpos := h.isPlace.pos_of_roundsTo hx
  have hvalue : (x.num.natAbs / x.den : ℚ) = x := by
    have hnum : ((x.num.natAbs : Int) : ℚ) = x.num := by
      rw [Int.natAbs_of_nonneg (Rat.num_nonneg.2 hpos.le)]
    rw [← Int.cast_natCast, hnum, Rat.num_div_den]
  rw [nearest, if_neg hpos.not_gt, h.ofRatio_eq_iff x.den_pos, hvalue]
  exact hx

end Double

/-! ## The first digit of a decimal -/

namespace Decimal

variable {d : Decimal}

theorem coefficient_pos (h : 0 < d.toRat) : 0 < d.coefficient := by
  refine Nat.pos_of_ne_zero fun hzero => ?_
  rw [toRat, hzero, Nat.cast_zero, zero_mul] at h
  exact lt_irrefl 0 h

/-- The digits of a number are as many as it needs. -/
theorem pow_length_le {n : Nat} (h : 0 < n) :
    10 ^ ((Nat.toDigits 10 n).length - 1) ≤ n ∧ n < 10 ^ (Nat.toDigits 10 n).length := by
  have hpos : 0 < (Nat.toDigits 10 n).length := List.length_pos_iff.2 Nat.toDigits_ne_nil
  refine ⟨not_lt.1 fun hlt => ?_, (Nat.length_toDigits_le_iff (by decide) hpos).1 le_rfl⟩
  by_cases hone : (Nat.toDigits 10 n).length = 1
  · rw [hone] at hlt
    omega
  · have hle := (Nat.length_toDigits_le_iff (b := 10) (by decide) (by omega)).2 hlt
    omega

/-- The place of the first digit is the exponent of the number. -/
theorem leading_eq_log (h : 0 < d.coefficient) : d.leading = Int.log 10 d.toRat := by
  obtain ⟨hlow, hhigh⟩ := pow_length_le h
  have hlength : 0 < d.digits.length := List.length_pos_iff.2 Nat.toDigits_ne_nil
  have hpos : 0 < d.toRat := mul_pos (by exact_mod_cast h) (ten_zpow_pos _)
  have hbelow : ((10 : Nat) : ℚ) ^ d.leading ≤ d.toRat := by
    have hsplit : (10 : ℚ) ^ d.leading = (10 ^ (d.digits.length - 1) : Nat) * 10 ^ d.exponent := by
      rw [Nat.cast_pow, Nat.cast_ofNat, ← zpow_natCast, ← zpow_add₀ (by norm_num), leading]
      congr 1
      omega
    rw [Nat.cast_ofNat, hsplit, toRat]
    exact mul_le_mul_of_nonneg_right (by exact_mod_cast hlow) (ten_zpow_pos _).le
  have habove : d.toRat < ((10 : Nat) : ℚ) ^ (d.leading + 1) := by
    have hsplit : (10 : ℚ) ^ (d.leading + 1) = (10 ^ d.digits.length : Nat) * 10 ^ d.exponent := by
      rw [Nat.cast_pow, Nat.cast_ofNat, ← zpow_natCast, ← zpow_add₀ (by norm_num), leading]
      congr 1
      omega
    rw [Nat.cast_ofNat, hsplit, toRat]
    exact mul_lt_mul_of_pos_right (by exact_mod_cast hhigh) (ten_zpow_pos _)
  have hle := (Int.zpow_le_iff_le_log (by decide) hpos).1 hbelow
  have hlt := (Int.lt_zpow_iff_log_lt (by decide) hpos).1 habove
  omega

/-- A power of ten that does not round up lies on the same side of a double and of its shortest
decimal. -/
theorem IsShortest.lt_ten_zpow_iff {m : Nat} {q k : Int} {x : ℚ} (hplace : Double.IsPlace m q)
    (h : IsShortest m q x) (hk : RoundsTo (10 ^ k) m q → (10 ^ k : ℚ) ≤ m * 2 ^ q) :
    x < 10 ^ k ↔ (m * 2 ^ q : ℚ) < 10 ^ k := by
  have hx := h.roundsTo
  have hself := hplace.roundsTo_self
  constructor
  · intro hlt
    by_contra hge
    rw [not_lt] at hge
    have hround := Double.roundsTo_of_between hx hself hlt.le hge
    obtain ⟨j, n, rfl, -, hcoarser⟩ := h
    have hj : k ≤ j := not_lt.1 fun hjk => hcoarser k hjk 1 (by simpa using hround)
    have hpos := hplace.pos_of_roundsTo hx
    have hn : (1 : ℚ) ≤ n := by
      have : n ≠ 0 := by
        rintro rfl
        simp at hpos
      exact_mod_cast Nat.one_le_iff_ne_zero.2 this
    have hpower : (10 : ℚ) ^ k ≤ 10 ^ j := zpow_le_zpow_right₀ (by norm_num) hj
    have := le_mul_of_one_le_left (ten_zpow_pos j).le hn
    linarith
  · intro hlt
    by_contra hge
    rw [not_lt] at hge
    exact hlt.not_ge (hk (Double.roundsTo_of_between hself hx hlt.le hge))

end Decimal

namespace Double

/-- All that rounds to one double is near one number. -/
theorem IsPlace.value_eq {m m' : Nat} {q q' : Int} {x : ℚ} (h : IsPlace m q) (h' : IsPlace m' q')
    (hx : RoundsTo x m q) (hx' : RoundsTo x m' q') : (m * 2 ^ q : ℚ) = m' * 2 ^ q' := by
  rw [← toRat_ofPlace h, ← toRat_ofPlace h', h.eq h' hx hx']

/-- A million is a double. -/
theorem IsPlace.million_le {m : Nat} {q : Int} (h : IsPlace m q)
    (hx : RoundsTo (10 ^ (6 : Int)) m q) : (10 ^ (6 : Int) : ℚ) ≤ m * 2 ^ q := by
  have hplace : IsPlace (10 ^ 6 * 2 ^ 33) (-33) := by constructor <;> norm_num
  have hvalue : ((10 ^ 6 * 2 ^ 33 : Nat) * 2 ^ (-33 : Int) : ℚ) = 10 ^ (6 : Int) := by norm_num
  have hself := hplace.roundsTo_self
  rw [hvalue] at hself
  rw [h.value_eq hplace hx hself, hvalue]

/-- A tenth of a thousandth is a little less than the double that is nearest to it. -/
theorem IsPlace.tenThousandth_le {m : Nat} {q : Int} (h : IsPlace m q)
    (hx : RoundsTo (10 ^ (-4 : Int)) m q) : (10 ^ (-4 : Int) : ℚ) ≤ m * 2 ^ q := by
  have hplace : IsPlace 7378697629483821 (-66) := by constructor <;> norm_num
  have hround : RoundsTo (10 ^ (-4 : Int)) 7378697629483821 (-66) := by
    constructor <;> norm_num [Decimal.lowEnd, Decimal.highEnd, Nat.shiftLeft_eq]
  rw [h.value_eq hplace hx hround]
  norm_num

end Double

end TemporalBindings.Number

namespace TemporalBindings.Source

open Number

/-! ## Numerals -/

/-- The digits before a point: a single zero, or digits that do not begin with one. -/
def IsWhole (s : List Char) : Prop :=
  IsDigits s ∧ (s = ['0'] ∨ s.head? ≠ some '0')

/-- A point and the digits behind it, or nothing. -/
inductive IsFraction : List Char → Prop
  | none : IsFraction []
  | point {ds : List Char} (h : IsDigits ds) : IsFraction ('.' :: ds)

/-- An exponent, which has a sign and at least two digits, or nothing. -/
inductive IsExponent : List Char → Prop
  | none : IsExponent []
  | plus {ds : List Char} (h : IsDigits ds) (htwo : 2 ≤ ds.length) : IsExponent ('e' :: '+' :: ds)
  | minus {ds : List Char} (h : IsDigits ds) (htwo : 2 ≤ ds.length) : IsExponent ('e' :: '-' :: ds)

/-- A numeral without a sign. -/
def IsUnsigned (s : List Char) : Prop :=
  ∃ whole fraction exponent, s = whole ++ fraction ++ exponent ∧ IsWhole whole ∧
    IsFraction fraction ∧ IsExponent exponent

/-- A numeral, with a minus if it is negative. -/
def IsNumeral (s : List Char) : Prop :=
  ∃ sign number, s = sign ++ number ∧ (sign = [] ∨ sign = ['-']) ∧ IsUnsigned number

/-- The number that a numeral denotes. -/
def signedNumeral? : List Char → Option ℚ
  | '-' :: s => (numeral? s).map (- ·)
  | s => numeral? s

/-- A numeral without a sign begins with a digit. -/
theorem IsUnsigned.signedNumeral? {s : List Char} (h : IsUnsigned s) :
    signedNumeral? s = numeral? s := by
  obtain ⟨whole, fraction, exponent, rfl, ⟨⟨hne, hdigits⟩, -⟩, -, -⟩ := h
  obtain ⟨c, whole, rfl⟩ := List.exists_cons_of_ne_nil hne
  have hc : c ≠ '-' := fun hc => by
    have hdigit := hdigits c List.mem_cons_self
    rw [hc] at hdigit
    cases hdigit
  simp only [List.cons_append]
  unfold Source.signedNumeral?
  split
  · next heq => exact absurd (List.cons.inj heq).1 hc
  · rfl

/-! ## Decimals -/

section Decimals

variable {d : Decimal}

/-- No number but zero begins with the digit zero. -/
theorem head?_natText_ne {n : Nat} (h : 0 < n) : (natText n).head? ≠ some '0' := by
  induction n using Nat.strongRecOn with
  | ind n ih =>
    obtain hlt | hge := Nat.lt_or_ge n 10
    · have hdigit : ∀ k < 10, 0 < k → Nat.digitChar k ≠ '0' := by decide
      rw [natText, Nat.toDigits_of_lt_base hlt, List.head?_singleton, ne_eq, Option.some.injEq]
      exact hdigit n hlt h
    · rw [natText, Nat.toDigits_of_base_le (by decide) hge,
        List.head?_append_of_ne_nil _ Nat.toDigits_ne_nil]
      exact ih (n / 10) (by omega) (by omega)

theorem isUnsigned_positional (h : 0 < d.coefficient) :
    IsUnsigned (positional d) ∧ 'e' ∉ positional d := by
  have hfirst : d.digits.head? ≠ some '0' := head?_natText_ne h
  have hdigits : IsDigits d.digits := isDigits_natText d.coefficient
  obtain ⟨-, htext⟩ | ⟨whole, fraction, htext, hwhole, hfraction, -, -, hhead⟩ := positional_cases d
  · have hall : IsDigits (positional d) :=
      htext ▸ hdigits.append fun _ => isDigit_of_mem_zeros
    refine ⟨⟨_, [], [], by simp, ⟨hall, .inr ?_⟩, .none, .none⟩, hall.not_mem rfl⟩
    rwa [htext, List.head?_append_of_ne_nil _ hdigits.1]
  · refine ⟨⟨whole, '.' :: fraction, [], by simp [htext], ⟨hwhole, ?_⟩, .point hfraction, .none⟩,
      ?_⟩
    · obtain hzero | hsame := hhead
      · exact .inl hzero
      · exact .inr (hsame ▸ hfirst)
    · have he := hwhole.not_mem (c := 'e') rfl
      have he' := hfraction.not_mem (c := 'e') rfl
      simp [htext, he, he']

theorem isExponent_exponentText (n : Int) : IsExponent ('e' :: exponentText n) := by
  have hdigits := (isDigits_natText n.natAbs).padded (2 - (natText n.natAbs).length)
  have htwo : 2 ≤ (List.replicate (2 - (natText n.natAbs).length) '0' ++
      natText n.natAbs).length := by
    rw [List.length_append, List.length_replicate]
    omega
  unfold exponentText
  split
  · exact .minus hdigits htwo
  · exact .plus hdigits htwo

theorem isUnsigned_scientific (h : 0 < d.coefficient) :
    IsUnsigned (scientific d) ∧ 'e' ∈ scientific d := by
  have hfirst : d.digits.head? ≠ some '0' := head?_natText_ne h
  have hdigits : IsDigits d.digits := isDigits_natText d.coefficient
  have hexponent := isExponent_exponentText d.leading
  -- the first digit is the whole part, and the others are behind the point
  have hwhole {c : Char} {cs : List Char} (hd : d.digits = c :: cs) : IsWhole [c] := by
    rw [hd] at hdigits hfirst
    exact ⟨⟨by simp, by simpa using hdigits.2 c List.mem_cons_self⟩, .inr (by simpa using hfirst)⟩
  obtain ⟨c, hd, htext⟩ | ⟨c, cs, hne, hd, htext⟩ := scientific_cases d
  · exact ⟨⟨[c], [], _, htext, hwhole hd, .none, hexponent⟩, by simp [htext]⟩
  · have hothers : IsDigits cs := ⟨hne, fun x hx => hdigits.2 x (hd ▸ List.mem_cons_of_mem c hx)⟩
    exact ⟨⟨[c], '.' :: cs, _, htext, hwhole hd, .point hothers, hexponent⟩, by simp [htext]⟩

/-- A decimal is written as a numeral, with an exponent iff that is not too small. -/
theorem isUnsigned_magnitudeText (h : 0 < d.coefficient) :
    IsUnsigned (magnitudeText d) ∧
      ('e' ∈ magnitudeText d ↔ Int.log 10 d.toRat < -4 ∨ 6 ≤ Int.log 10 d.toRat) := by
  have hpositional : isPositional d = true ↔ ¬ (d.leading < -4 ∨ 6 ≤ d.leading) := by
    rw [isPositional, Bool.and_eq_true, decide_eq_true_iff, decide_eq_true_iff]
    omega
  rw [← Decimal.leading_eq_log h, magnitudeText]
  split
  · next hp =>
    obtain ⟨hunsigned, he⟩ := isUnsigned_positional h
    exact ⟨hunsigned, iff_of_false he (hpositional.1 hp)⟩
  · next hp =>
    obtain ⟨hunsigned, he⟩ := isUnsigned_scientific h
    exact ⟨hunsigned, iff_of_true he (not_not.1 (mt hpositional.2 hp))⟩

end Decimals

/-! ## Doubles -/

/-- The sign of a double, as it is written. -/
def signText (d : Double) : List Char :=
  if d.negative then ['-'] else []

theorem signText_cases (d : Double) : signText d = [] ∨ signText d = ['-'] := by
  unfold signText
  split
  · exact .inr rfl
  · exact .inl rfl

theorem e_notMem_signText (d : Double) : 'e' ∉ signText d := by
  obtain h | h := signText_cases d <;> simp [h]

/-- The sign in front of a numeral is that of the number. -/
theorem IsUnsigned.signedNumeral?_signText {s : List Char} (h : IsUnsigned s) {x : ℚ}
    (hx : numeral? s = some x) {d : Double} :
    Source.signedNumeral? (signText d ++ s) = some (if d.negative then -x else x) := by
  unfold signText
  split
  · simp [Source.signedNumeral?, hx]
  · rw [List.nil_append, h.signedNumeral?, hx]

theorem floatText_eq {d : Double} (hfinite : d.isFinite = true) :
    floatText d = signText d ++ if d.isZero then ['0'] else magnitudeText (.ofDouble d) := by
  have hnan : d.isNaN = false := by
    rw [Double.isFinite, decide_eq_true_iff] at hfinite
    simp [Double.isNaN, hfinite]
  rw [floatText, hnan, hfinite, signText]
  rfl

/-- What the text of a finite double has to be, if `x` is the number it denotes. -/
structure IsTextOf (d : Double) (s : List Char) (x : ℚ) : Prop where
  numeral : IsNumeral s
  denotes : signedNumeral? s = some x
  zero : d.isZero = true → x = 0
  /-- The number has the sign of the double, and without it is the shortest decimal. -/
  sign : d.isZero = false → (x < 0 ↔ d.negative = true)
  shortest : d.isZero = false → Decimal.IsShortest d.significand d.exponent |x|
  /-- The double is the one nearest to the number, but for the sign of a zero. -/
  nearest : Double.nearest x = if d.isZero then .zero else d
  /-- With an exponent and without, the same number is written. -/
  forms : d.isZero = false → signedNumeral? (signText d ++ positional (.ofDouble d)) = some x ∧
    signedNumeral? (signText d ++ scientific (.ofDouble d)) = some x
  /-- There is an exponent iff that of the number is below -4 or at least 6. -/
  exponent : 'e' ∈ s ↔ d.isZero = false ∧ (Int.log 10 |x| < -4 ∨ 6 ≤ Int.log 10 |x|)
  /-- This is so iff the exponent of the double itself is. -/
  same : d.isZero = false →
    (Int.log 10 |x| < -4 ↔ Int.log 10 d.toRat < -4) ∧
      (6 ≤ Int.log 10 |x| ↔ 6 ≤ Int.log 10 d.toRat)

/-- A zero is written as such, with its sign. -/
theorem isTextOf_of_isZero {d : Double} (hfinite : d.isFinite = true) (hzero : d.isZero = true) :
    IsTextOf d (floatText d) 0 := by
  have hunsigned : IsUnsigned ['0'] :=
    ⟨['0'], [], [], rfl, ⟨isDigits_zero, .inl rfl⟩, .none, .none⟩
  have htext : floatText d = signText d ++ ['0'] := by rw [floatText_eq hfinite, if_pos hzero]
  have hnot : d.isZero ≠ false := by simp [hzero]
  refine ⟨?_, ?_, fun _ => rfl, fun h => absurd h hnot, fun h => absurd h hnot, ?_,
    fun h => absurd h hnot, ?_, fun h => absurd h hnot⟩
  · exact ⟨signText d, ['0'], htext, signText_cases d, hunsigned⟩
  · rw [htext, hunsigned.signedNumeral?_signText numeral?_zero, neg_zero, ite_self]
  · rw [Double.nearest_zero, if_pos hzero]
  · refine iff_of_false ?_ fun h => hnot h.1
    simp [htext, e_notMem_signText]

section Nonzero

variable {d : Double}

/-- A finite double has a place even if it is negative. -/
theorem isPlace_of_not_isZero (hfinite : d.isFinite = true) (hzero : d.isZero = false) :
    Double.IsPlace d.significand d.exponent := by
  obtain ⟨-, hp⟩ | ⟨-, hp⟩ := Double.isPositive_or_negated hfinite hzero
  · exact hp.isPlace
  · simpa using hp.isPlace

/-- The exponents of a double and of its shortest decimal are on the same side of both bounds. -/
theorem log_ofDouble_iff (h : Double.IsPlace d.significand d.exponent) :
    (Int.log 10 (Decimal.ofDouble d).toRat < -4 ↔ Int.log 10 d.toRat < -4) ∧
      (6 ≤ Int.log 10 (Decimal.ofDouble d).toRat ↔ 6 ≤ Int.log 10 d.toRat) := by
  have hshortest : Decimal.IsShortest _ _ (Decimal.ofDouble d).toRat :=
    Decimal.isShortest_shortest h
  have hpos := h.pos_of_roundsTo hshortest.roundsTo
  have hpos' : 0 < d.toRat := mul_pos (by exact_mod_cast h.pos) (two_zpow_pos _)
  have hlow := hshortest.lt_ten_zpow_iff h h.tenThousandth_le
  have hhigh := hshortest.lt_ten_zpow_iff h h.million_le
  have hlog {x : ℚ} (hx : 0 < x) (k : Int) : Int.log 10 x < k ↔ x < 10 ^ k := by
    simpa using (Int.lt_zpow_iff_log_lt (b := 10) (by decide) hx).symm
  have hle (x : ℚ) : 6 ≤ Int.log 10 x ↔ ¬ Int.log 10 x < 6 := not_lt.symm
  rw [hle, hle, hlog hpos, hlog hpos', hlog hpos, hlog hpos']
  exact ⟨hlow, not_congr hhigh⟩

/-- A double is nearest to its shortest decimal. -/
theorem nearest_ofDouble (hfinite : d.isFinite = true) (hzero : d.isZero = false) :
    Double.nearest (if d.negative then -(Decimal.ofDouble d).toRat
      else (Decimal.ofDouble d).toRat) = d := by
  have hplace := isPlace_of_not_isZero hfinite hzero
  have hround : RoundsTo (Decimal.ofDouble d).toRat d.significand d.exponent :=
    (Decimal.isShortest_shortest hplace).roundsTo
  obtain ⟨hnegative, hp⟩ | ⟨hnegative, hp⟩ := Double.isPositive_or_negated hfinite hzero
  · rw [hnegative, if_neg (by simp), hp.nearest_eq hround]
  · rw [hnegative, if_pos rfl, Double.nearest_neg (hplace.pos_of_roundsTo hround),
      hp.nearest_eq (by simpa using hround), Double.negated_negated]

/-- A double other than zero is written as its shortest decimal behind its sign. -/
theorem isTextOf_of_not_isZero (hfinite : d.isFinite = true) (hzero : d.isZero = false) :
    IsTextOf d (floatText d)
      (if d.negative then -(Decimal.ofDouble d).toRat else (Decimal.ofDouble d).toRat) := by
  have hplace := isPlace_of_not_isZero hfinite hzero
  have hshortest : Decimal.IsShortest d.significand d.exponent (Decimal.ofDouble d).toRat :=
    Decimal.isShortest_shortest hplace
  have hpos := hplace.pos_of_roundsTo hshortest.roundsTo
  have hcoefficient := Decimal.coefficient_pos hpos
  obtain ⟨hunsigned, he⟩ := isUnsigned_magnitudeText hcoefficient
  have htext : floatText d = signText d ++ magnitudeText (.ofDouble d) := by
    rw [floatText_eq hfinite, hzero]
    rfl
  have habs : |if d.negative then -(Decimal.ofDouble d).toRat else (Decimal.ofDouble d).toRat| =
      (Decimal.ofDouble d).toRat := by
    split
    · rw [abs_neg, abs_of_pos hpos]
    · exact abs_of_pos hpos
  refine ⟨?_, ?_, fun h => ?_, fun _ => ?_, fun _ => ?_, ?_, fun _ => ⟨?_, ?_⟩, ?_, fun _ => ?_⟩
  · exact ⟨signText d, _, htext, signText_cases d, hunsigned⟩
  · rw [htext, hunsigned.signedNumeral?_signText (numeral?_magnitudeText _)]
  · rw [hzero] at h
    cases h
  · split
    · next hnegative => simp [hnegative, hpos]
    · next hnegative => simp [hnegative, hpos.le]
  · rwa [habs]
  · rw [nearest_ofDouble hfinite hzero, hzero]
    rfl
  · exact (isUnsigned_positional hcoefficient).1.signedNumeral?_signText (numeral?_positional _)
  · exact (isUnsigned_scientific hcoefficient).1.signedNumeral?_signText (numeral?_scientific _)
  · rw [habs, htext, List.mem_append, ← he]
    simp [e_notMem_signText, hzero]
  · rw [habs]
    exact log_ofDouble_iff hplace

end Nonzero

/-- The text of a finite double denotes its shortest decimal, from which the double is read
back. -/
theorem exists_isTextOf {d : Double} (h : d.isFinite = true) : ∃ x, IsTextOf d (floatText d) x := by
  cases hzero : d.isZero with
  | true => exact ⟨0, isTextOf_of_isZero h hzero⟩
  | false => exact ⟨_, isTextOf_of_not_isZero h hzero⟩

/-- The double nearest to `-2.5e-7`. -/
theorem exists_isTextOf_negative :
    Double.isFinite ⟨0xBE90C6F7A0B5ED8D⟩ = true ∧
      floatText ⟨0xBE90C6F7A0B5ED8D⟩ = ['-', '2', '.', '5', 'e', '-', '0', '7'] ∧
      ∃ x, IsTextOf ⟨0xBE90C6F7A0B5ED8D⟩ ['-', '2', '.', '5', 'e', '-', '0', '7'] x := by
  have htext : floatText ⟨0xBE90C6F7A0B5ED8D⟩ = ['-', '2', '.', '5', 'e', '-', '0', '7'] := by
    decide +kernel
  have hfinite : Double.isFinite ⟨0xBE90C6F7A0B5ED8D⟩ = true := by decide
  exact ⟨hfinite, htext, htext ▸ exists_isTextOf hfinite⟩

end TemporalBindings.Source
