import Mathlib.Algebra.Order.Field.Power
import Mathlib.Algebra.Order.Field.Rat
import Mathlib.Tactic.FieldSimp
import Mathlib.Tactic.Linarith
import Mathlib.Tactic.NormNum
import Mathlib.Tactic.Positivity
import Mathlib.Tactic.Ring
import TemporalBindings.Number.Decimal

/-!
# TemporalBindings.Proofs.Rounding

Which numbers round to a double. A positive double is `m · 2 ^ q` for one significand and
one exponent, and what rounds to it is an interval around it, whose ends lie half way to its
neighbours:

```
(m - 1/2) · 2 ^ q     or (m - 1/4) · 2 ^ q if m is the first of its binade
(m + 1/2) · 2 ^ q
```

The ends belong to the interval if `m` is even.
-/

namespace TemporalBindings.Number

theorem two_zpow_pos (q : Int) : (0 : ℚ) < 2 ^ q :=
  zpow_pos (by norm_num) q

theorem ten_zpow_pos (k : Int) : (0 : ℚ) < 10 ^ k :=
  zpow_pos (by norm_num) k

/-- A power with a whole exponent as a quotient of powers, one of which is 1. -/
theorem zpow_eq_div {b : ℚ} (hb : b ≠ 0) (q : Int) : b ^ q = b ^ q.toNat / b ^ (-q).toNat := by
  rw [← zpow_natCast, ← zpow_natCast, ← zpow_sub₀ hb]
  congr 1
  omega

/-! ## Nearest whole numbers -/

/-- A whole number that is nearest to a number, the even one of two. -/
structure IsNearest (x : ℚ) (m : Nat) : Prop where
  lower : (2 * m - 1 : ℚ) ≤ 2 * x
  upper : 2 * x ≤ 2 * m + 1
  even : 2 * x = 2 * m - 1 ∨ 2 * x = 2 * m + 1 → m % 2 = 0

/-- Two neighbours are not both even, so there is one nearest number. -/
theorem IsNearest.eq {x : ℚ} {m n : Nat} (hm : IsNearest x m) (hn : IsNearest x n) : m = n := by
  wlog hlt : m < n generalizing m n
  · obtain rfl | hgt := Nat.eq_or_lt_of_not_lt hlt
    · rfl
    · exact (this hn hm hgt).symm
  have hle : 2 * n ≤ 2 * m + 2 := by
    have : (2 * n : ℚ) ≤ 2 * m + 2 := by linarith [hm.upper, hn.lower]
    exact_mod_cast this
  obtain rfl : n = m + 1 := by omega
  have hlower := hn.lower
  push_cast at hlower
  have htie : 2 * x = 2 * m + 1 := by linarith [hm.upper]
  have heven := hm.even (.inr htie)
  have heven' := hn.even (.inl (by push_cast; linarith))
  omega

theorem isNearest_roundDiv {num den : Nat} (hden : 0 < den) :
    IsNearest (num / den : ℚ) (roundDiv num den) := by
  have hpos : (0 : ℚ) < den := by exact_mod_cast hden
  have hrest := Nat.mod_lt num hden
  have hnum : (num : ℚ) = den * (num / den : Nat) + (num % den : Nat) := by
    exact_mod_cast (Nat.div_add_mod num den).symm
  have hx : (num : ℚ) / den = (num / den : Nat) + (num % den : Nat) / den := by
    rw [div_eq_iff hpos.ne', add_mul, div_mul_cancel₀ _ hpos.ne', hnum]
    ring
  have hlow : ((num % den : Nat) : ℚ) / den < 1 / 2 ↔ 2 * (num % den) < den := by
    rw [div_lt_div_iff₀ hpos (by norm_num)]
    norm_cast
    omega
  have hhigh : 1 / 2 < ((num % den : Nat) : ℚ) / den ↔ den < 2 * (num % den) := by
    rw [div_lt_div_iff₀ (by norm_num) hpos]
    norm_cast
    omega
  have hnonneg : 0 ≤ ((num % den : Nat) : ℚ) / den := by positivity
  have hlt : ((num % den : Nat) : ℚ) / den < 1 := by
    rw [div_lt_one hpos]
    exact_mod_cast hrest
  rw [hx]
  generalize ((num % den : Nat) : ℚ) / den = part at hlow hhigh hnonneg hlt ⊢
  unfold roundDiv
  dsimp only
  split
  · next h =>
    have hpart := hlow.2 h
    exact ⟨by linarith, by linarith, by rintro (h | h) <;> linarith⟩
  · next hge =>
    have hpart := not_lt.1 (mt hlow.1 hge)
    split
    · next h =>
      have hpart := hhigh.2 h
      exact ⟨by push_cast; linarith, by push_cast; linarith,
        by push_cast; rintro (h | h) <;> linarith⟩
    · next hle =>
      have hpart' := not_lt.1 (mt hhigh.1 hle)
      split
      · next heven => exact ⟨by linarith, by linarith, fun _ => heven⟩
      · next hodd => exact ⟨by push_cast; linarith, by push_cast; linarith, fun _ => by omega⟩

/-! ## The last place -/

/-- A quotient with its terms shifted, one of them to the left by as much as the last place is
above or below the point, is measured in units of the last place. -/
theorem shifted_div (num den : Nat) (q : Int) :
    ((num <<< (-q).toNat : Nat) : ℚ) / (den <<< q.toNat : Nat) = num / den / 2 ^ q := by
  rw [zpow_eq_div (by norm_num), Nat.shiftLeft_eq, Nat.shiftLeft_eq]
  push_cast
  rw [div_div_eq_mul_div, div_mul_eq_mul_div, div_div]

theorem shifted_lt_iff {num den : Nat} (hden : 0 < den) (e : Int) :
    num <<< (-e).toNat < den <<< e.toNat ↔ (num / den : ℚ) < 2 ^ e := by
  have hpos : (0 : ℚ) < (den <<< e.toNat : Nat) := by
    rw [Nat.shiftLeft_eq]
    exact_mod_cast Nat.mul_pos hden (Nat.two_pow_pos _)
  rw [← div_lt_one (two_zpow_pos e), ← shifted_div, div_lt_one hpos, Nat.cast_lt]

/-- The binade of a quotient is one of two that the lengths of its terms leave. -/
theorem log2_bounds {num den : Nat} (hnum : 0 < num) (hden : 0 < den) :
    (2 : ℚ) ^ ((num.log2 : Int) - den.log2 - 1) < num / den ∧
      (num / den : ℚ) < 2 ^ ((num.log2 : Int) - den.log2 + 1) := by
  have hpos : (0 : ℚ) < den := by exact_mod_cast hden
  have hnumLow : (2 : ℚ) ^ (num.log2 : Int) ≤ num := by
    exact_mod_cast Nat.log2_self_le hnum.ne'
  have hnumHigh : (num : ℚ) < 2 ^ ((num.log2 : Int) + 1) := by exact_mod_cast Nat.lt_log2_self
  have hdenLow : (2 : ℚ) ^ (den.log2 : Int) ≤ den := by
    exact_mod_cast Nat.log2_self_le hden.ne'
  have hdenHigh : (den : ℚ) < 2 ^ ((den.log2 : Int) + 1) := by exact_mod_cast Nat.lt_log2_self
  constructor
  · rw [lt_div_iff₀ hpos]
    calc (2 : ℚ) ^ ((num.log2 : Int) - den.log2 - 1) * den
        < 2 ^ ((num.log2 : Int) - den.log2 - 1) * 2 ^ ((den.log2 : Int) + 1) :=
          mul_lt_mul_of_pos_left hdenHigh (two_zpow_pos _)
      _ = 2 ^ (num.log2 : Int) := by
          rw [← zpow_add₀ (by norm_num)]
          congr 1
          omega
      _ ≤ num := hnumLow
  · rw [div_lt_iff₀ hpos]
    calc (num : ℚ) < 2 ^ ((num.log2 : Int) + 1) := hnumHigh
      _ = 2 ^ ((num.log2 : Int) - den.log2 + 1) * 2 ^ (den.log2 : Int) := by
          rw [← zpow_add₀ (by norm_num)]
          congr 1
          omega
      _ ≤ 2 ^ ((num.log2 : Int) - den.log2 + 1) * den :=
          mul_le_mul_of_nonneg_left hdenLow (two_zpow_pos _).le

namespace FloatFormat

/-- Measured in units of the last place a number has no more bits than a significand, and not
fewer unless that is the least place. -/
theorem lastPlace_spec (f : FloatFormat) {num den : Nat} (hnum : 0 < num) (hden : 0 < den) :
    f.leastPlace ≤ f.lastPlace num den ∧
      (num / den : ℚ) < 2 ^ (f.lastPlace num den + f.fractionBits + 1) ∧
      (f.leastPlace < f.lastPlace num den →
        (2 : ℚ) ^ (f.lastPlace num den + f.fractionBits) ≤ num / den) := by
  obtain ⟨hlow, hhigh⟩ := log2_bounds hnum hden
  have hmono {a b : Int} (h : a ≤ b) : (2 : ℚ) ^ a ≤ 2 ^ b :=
    zpow_le_zpow_right₀ (by norm_num) h
  unfold lastPlace
  simp only [shifted_lt_iff hden]
  split
  · next hbelow =>
    refine ⟨le_max_left .., hbelow.trans_le (hmono (by omega)), fun h => ?_⟩
    exact (hmono (by omega)).trans hlow.le
  · next habove =>
    refine ⟨le_max_left .., hhigh.trans_le (hmono (by omega)), fun h => ?_⟩
    exact (hmono (by omega)).trans (not_lt.1 habove)

end FloatFormat

/-! ## Doubles by their places -/

namespace Double

/-- A significand and an exponent that belong to a positive double. -/
structure IsPlace (m : Nat) (q : Int) : Prop where
  pos : 0 < m
  lt : m < 2 ^ 53
  least : -1074 ≤ q
  greatest : q ≤ 971
  normal : -1074 < q → 2 ^ 52 ≤ m

/-- The double with a significand and an exponent. -/
def ofPlace (m : Nat) (q : Int) : Double :=
  ⟨UInt64.ofNat ((q + 1074).toNat * 2 ^ 52 + m)⟩

/-- A double that is neither negative nor zero nor infinite nor a NaN. -/
structure IsPositive (d : Double) : Prop where
  negative : d.negative = false
  isFinite : d.isFinite = true
  isZero : d.isZero = false

variable {m : Nat} {q : Int} {d : Double}

theorem toNat_bits_ofPlace (h : IsPlace m q) :
    (ofPlace m q).bits.toNat = (q + 1074).toNat * 2 ^ 52 + m := by
  have hlt := h.lt
  have hq := h.greatest
  rw [ofPlace, UInt64.toNat_ofNat_of_lt']
  rw [show UInt64.size = 2 ^ 64 from rfl]
  omega

theorem exponentField_eq (d : Double) : d.exponentField = d.bits.toNat / 2 ^ 52 % 2048 := by
  rw [exponentField, Nat.shiftRight_eq_div_pow]

theorem fraction_eq (d : Double) : d.fraction = d.bits.toNat % 2 ^ 52 :=
  rfl

theorem significand_ofPlace (h : IsPlace m q) : (ofPlace m q).significand = m := by
  obtain ⟨hpos, hlt, hleast, hgreatest, hnormal⟩ := h
  have hbits := toNat_bits_ofPlace ⟨hpos, hlt, hleast, hgreatest, hnormal⟩
  have hone : (1 <<< 52 : Nat) = 2 ^ 52 := rfl
  rw [significand, exponentField_eq, fraction_eq, hbits, hone]
  split <;> omega

theorem exponent_ofPlace (h : IsPlace m q) : (ofPlace m q).exponent = q := by
  obtain ⟨hpos, hlt, hleast, hgreatest, hnormal⟩ := h
  have hbits := toNat_bits_ofPlace ⟨hpos, hlt, hleast, hgreatest, hnormal⟩
  rw [exponent, exponentField_eq, hbits]
  omega

theorem isPositive_ofPlace (h : IsPlace m q) : (ofPlace m q).IsPositive := by
  obtain ⟨hpos, hlt, hleast, hgreatest, hnormal⟩ := h
  have hbits := toNat_bits_ofPlace ⟨hpos, hlt, hleast, hgreatest, hnormal⟩
  have hsign : (1 <<< 63 : Nat) = 2 ^ 63 := rfl
  constructor
  · rw [negative, hbits, hsign, decide_eq_false_iff_not]
    omega
  · rw [isFinite, exponentField_eq, hbits, decide_eq_true_iff]
    omega
  · rw [isZero, exponentField_eq, fraction_eq, hbits, Bool.and_eq_false_iff,
      decide_eq_false_iff_not, decide_eq_false_iff_not]
    omega

/-- A positive double is the one with its significand and its exponent. -/
theorem IsPositive.isPlace (h : d.IsPositive) : IsPlace d.significand d.exponent := by
  obtain ⟨hnegative, hfinite, hzero⟩ := h
  have hsign : (1 <<< 63 : Nat) = 2 ^ 63 := rfl
  have hone : (1 <<< 52 : Nat) = 2 ^ 52 := rfl
  rw [Double.negative, hsign, decide_eq_false_iff_not] at hnegative
  rw [Double.isFinite, exponentField_eq, decide_eq_true_iff] at hfinite
  rw [Double.isZero, exponentField_eq, fraction_eq, Bool.and_eq_false_iff,
    decide_eq_false_iff_not, decide_eq_false_iff_not] at hzero
  constructor <;> simp only [significand, exponent, exponentField_eq, fraction_eq, hone]
  · split <;> omega
  · split <;> omega
  · omega
  · omega
  · split <;> omega

theorem IsPositive.ofPlace_eq (h : d.IsPositive) : ofPlace d.significand d.exponent = d := by
  have hbits := toNat_bits_ofPlace h.isPlace
  obtain ⟨hnegative, -, -⟩ := h
  have hsign : (1 <<< 63 : Nat) = 2 ^ 63 := rfl
  have hone : (1 <<< 52 : Nat) = 2 ^ 52 := rfl
  rw [Double.negative, hsign, decide_eq_false_iff_not] at hnegative
  have hsame : (ofPlace d.significand d.exponent).bits.toNat = d.bits.toNat := by
    rw [hbits]
    simp only [significand, exponent, exponentField_eq, fraction_eq, hone]
    split <;> omega
  obtain ⟨bits⟩ := d
  exact congrArg Double.mk (UInt64.toNat_inj.1 hsame)

end Double

/-! ## The interval of a double -/

/-- A number that rounds to `m · 2 ^ q`. Its distance from zero is measured in quarters of the
last place; a number half way to a neighbour rounds to the even one of both. -/
structure RoundsTo (x : ℚ) (m : Nat) (q : Int) : Prop where
  lower : (Decimal.lowEnd m q : ℚ) ≤ 4 * (x / 2 ^ q)
  upper : 4 * (x / 2 ^ q) ≤ Decimal.highEnd m
  even : 4 * (x / 2 ^ q) = Decimal.lowEnd m q ∨ 4 * (x / 2 ^ q) = Decimal.highEnd m → m % 2 = 0

/-- The exponent of the last place of a positive number, as a double has it. -/
structure IsLastPlace (x : ℚ) (q : Int) : Prop where
  least : -1074 ≤ q
  lt : x / 2 ^ q < 2 ^ 53
  le : -1074 < q → 2 ^ 52 ≤ x / 2 ^ q

theorem div_two_zpow_sub_one (x : ℚ) (q : Int) : x / 2 ^ (q - 1) = 2 * (x / 2 ^ q) := by
  rw [zpow_sub_one₀ (by norm_num)]
  field_simp

theorem isLastPlace_iff {x : ℚ} {q : Int} :
    IsLastPlace x q ↔
      -1074 ≤ q ∧ x < 2 ^ (q + 53) ∧ (-1074 < q → (2 : ℚ) ^ (q + 52) ≤ x) := by
  have hlt : x / 2 ^ q < 2 ^ 53 ↔ x < 2 ^ (q + 53) := by
    rw [div_lt_iff₀ (two_zpow_pos q), add_comm, zpow_add₀ (by norm_num)]
    norm_num
  have hle : 2 ^ 52 ≤ x / 2 ^ q ↔ (2 : ℚ) ^ (q + 52) ≤ x := by
    rw [le_div_iff₀ (two_zpow_pos q), add_comm, zpow_add₀ (by norm_num)]
    norm_num
  exact ⟨fun h => ⟨h.least, hlt.1 h.lt, fun hq => hle.1 (h.le hq)⟩,
    fun h => ⟨h.1, hlt.2 h.2.1, fun hq => hle.2 (h.2.2 hq)⟩⟩

theorem IsLastPlace.eq {x : ℚ} {q q' : Int} (h : IsLastPlace x q) (h' : IsLastPlace x q') :
    q = q' := by
  rw [isLastPlace_iff] at h h'
  wlog hlt : q < q' generalizing q q'
  · obtain rfl | hgt := (not_lt.1 hlt).eq_or_lt
    · rfl
    · exact (this h' h hgt).symm
  have hle := (h'.2.2 (by omega)).trans_lt h.2.1
  rw [zpow_lt_zpow_iff_right₀ (by norm_num)] at hle
  omega

theorem isLastPlace_lastPlace {num den : Nat} (hnum : 0 < num) (hden : 0 < den) :
    IsLastPlace (num / den) (FloatFormat.double.lastPlace num den) := by
  obtain ⟨hleast, hlt, hle⟩ := FloatFormat.double.lastPlace_spec hnum hden
  have hbits : FloatFormat.double.fractionBits = 52 := rfl
  have hbottom : FloatFormat.double.leastPlace = -1074 := rfl
  rw [hbits] at hlt hle
  rw [hbottom] at hleast hle
  rw [isLastPlace_iff]
  refine ⟨hleast, ?_, fun h => by simpa using hle h⟩
  convert hlt using 2
  omega

/-- The significand of a number that is rounded has its last place, or is the first one of the
next binade. -/
theorem IsLastPlace.bounds {x : ℚ} {q : Int} {m : Nat} (hq : IsLastPlace x q)
    (hm : IsNearest (x / 2 ^ q) m) : m ≤ 2 ^ 53 ∧ (-1074 < q → 2 ^ 52 ≤ m) := by
  constructor
  · have hlt : (2 * m : ℚ) < 2 ^ 54 + 1 := by linarith [hm.lower, hq.lt]
    have : 2 * m < 2 ^ 54 + 1 := by exact_mod_cast hlt
    omega
  · intro hlt
    have hle : (2 ^ 53 : ℚ) ≤ 2 * m + 1 := by linarith [hm.upper, hq.le hlt]
    have : 2 ^ 53 ≤ 2 * m + 1 := by exact_mod_cast hle
    omega

theorem lowEnd_cases (m : Nat) (q : Int) :
    m = 2 ^ 52 ∧ -1074 < q ∧ (Decimal.lowEnd m q : ℚ) = 4 * m - 1 ∨
      ¬ (m = 2 ^ 52 ∧ -1074 < q) ∧ (0 < m → (Decimal.lowEnd m q : ℚ) = 4 * m - 2) := by
  unfold Decimal.lowEnd
  split
  · next h =>
    obtain rfl : m = 2 ^ 52 := h.1
    exact .inl ⟨rfl, h.2, by norm_num⟩
  · next h =>
    refine .inr ⟨h, fun hpos => ?_⟩
    rw [Nat.cast_sub (by omega)]
    push_cast
    ring

theorem highEnd_eq (m : Nat) : (Decimal.highEnd m : ℚ) = 4 * m + 2 := by
  simp [Decimal.highEnd]

namespace Double

variable {m : Nat} {q : Int}

theorem IsPlace.lowEnd_bounds (h : IsPlace m q) :
    (4 * m - 2 : ℚ) ≤ Decimal.lowEnd m q ∧ (Decimal.lowEnd m q : ℚ) ≤ 4 * m - 1 := by
  obtain ⟨-, -, hlow⟩ | ⟨-, hlow⟩ := lowEnd_cases m q
  · constructor <;> linarith
  · have hlow := hlow h.pos
    constructor <;> linarith

/-- What rounds to a double is at most half a last place away from it. -/
theorem IsPlace.abs_sub_le {x : ℚ} (h : IsPlace m q) (hx : RoundsTo x m q) :
    |x - m * 2 ^ q| ≤ 2 ^ q / 2 := by
  have hpos := two_zpow_pos q
  have hlow := h.lowEnd_bounds.1.trans hx.lower
  have hhigh := hx.upper
  rw [highEnd_eq] at hhigh
  have hunit : x = x / 2 ^ q * 2 ^ q := (div_mul_cancel₀ x hpos.ne').symm
  have hquotient : |x / 2 ^ q - m| ≤ 1 / 2 := abs_le.2 ⟨by linarith, by linarith⟩
  calc |x - m * 2 ^ q| = |x / 2 ^ q - m| * 2 ^ q := by
        rw [← abs_of_pos hpos, ← abs_mul, abs_of_pos hpos, sub_mul, ← hunit]
    _ ≤ 1 / 2 * 2 ^ q := mul_le_mul_of_nonneg_right hquotient hpos.le
    _ = 2 ^ q / 2 := by ring

/-- Two numbers that round to a double are at most a last place apart. -/
theorem IsPlace.abs_sub_le_of_roundsTo {x y : ℚ} (h : IsPlace m q) (hx : RoundsTo x m q)
    (hy : RoundsTo y m q) : |x - y| ≤ 2 ^ q := by
  have hx' := abs_le.1 (h.abs_sub_le hx)
  have hy' := abs_le.1 (h.abs_sub_le hy)
  exact abs_le.2 ⟨by linarith, by linarith⟩

/-- Nothing but a positive number rounds to a positive double. -/
theorem IsPlace.pos_of_roundsTo {x : ℚ} (h : IsPlace m q) (hx : RoundsTo x m q) : 0 < x := by
  have hone : (1 : ℚ) ≤ m := by exact_mod_cast h.pos
  have hlow := h.lowEnd_bounds.1.trans hx.lower
  have hquotient : 0 < x / 2 ^ q := by linarith
  exact (div_pos_iff_of_pos_right (two_zpow_pos q)).1 hquotient

/-- A double rounds to itself. -/
theorem IsPlace.roundsTo_self (h : IsPlace m q) : RoundsTo (m * 2 ^ q) m q := by
  have hvalue : (m * 2 ^ q / 2 ^ q : ℚ) = m := mul_div_cancel_right₀ _ (two_zpow_pos q).ne'
  have hlow := h.lowEnd_bounds.2
  refine ⟨?_, ?_, fun hend => ?_⟩ <;> rw [hvalue] at *
  · linarith
  · rw [highEnd_eq]
    linarith
  · rw [highEnd_eq] at hend
    obtain hend | hend := hend <;> linarith

/-- What lies between two numbers that round to a double rounds to it. -/
theorem roundsTo_of_between {x y z : ℚ} (hx : RoundsTo x m q) (hz : RoundsTo z m q) (hxy : x ≤ y)
    (hyz : y ≤ z) : RoundsTo y m q := by
  have hpos := two_zpow_pos q
  have hxy' : x / 2 ^ q ≤ y / 2 ^ q := (div_le_div_iff_of_pos_right hpos).2 hxy
  have hyz' : y / 2 ^ q ≤ z / 2 ^ q := (div_le_div_iff_of_pos_right hpos).2 hyz
  have hlower := hx.lower
  have hupper := hz.upper
  refine ⟨by linarith, by linarith, ?_⟩
  rintro (hend | hend)
  · exact hx.even (.inl (by linarith))
  · exact hz.even (.inr (by linarith))

/-- The bits of a positive number that is rounded. -/
theorem exists_of_round {num den : Nat} (hnum : 0 < num) (hden : 0 < den) :
    ∃ q m, IsLastPlace (num / den) q ∧ IsNearest (num / den / 2 ^ q) m ∧
      FloatFormat.double.round num den =
        min ((q + 1074).toNat * 2 ^ 52 + m) (2047 * 2 ^ 52) := by
  have hshifted : 0 < den <<< (FloatFormat.double.lastPlace num den).toNat := by
    rw [Nat.shiftLeft_eq]
    exact Nat.mul_pos hden (Nat.two_pow_pos _)
  have hnearest := @isNearest_roundDiv
    (num <<< (-FloatFormat.double.lastPlace num den).toNat) _ hshifted
  rw [shifted_div] at hnearest
  refine ⟨_, _, isLastPlace_lastPlace hnum hden, hnearest, ?_⟩
  have hbottom : FloatFormat.double.leastPlace = -1074 := rfl
  have hbits : FloatFormat.double.fractionBits = 52 := rfl
  have hinfinity : FloatFormat.double.infinity = 2047 * 2 ^ 52 := rfl
  simp only [FloatFormat.round, if_neg hnum.ne', hbottom, hbits, hinfinity, sub_neg_eq_add,
    Nat.shiftLeft_eq _ 52]

/-- A number rounds to a double if that has its last place and the nearest significand there. -/
theorem roundsTo_of_nearest {x : ℚ} (h : IsPlace m q) (hq : IsLastPlace x q)
    (hm : IsNearest (x / 2 ^ q) m) : RoundsTo x m q := by
  have hupper := hm.upper
  have htie := hm.even
  obtain ⟨rfl, hlt, hlow⟩ | ⟨-, hlow⟩ := lowEnd_cases m q
  · have hle := hq.le hlt
    refine ⟨?_, ?_, fun _ => by norm_num⟩
    · rw [hlow]
      push_cast
      linarith
    · rw [highEnd_eq]
      push_cast at hupper ⊢
      linarith
  · have hlower := hm.lower
    have hlow := hlow h.pos
    refine ⟨?_, ?_, fun hend => htie ?_⟩
    · rw [hlow]
      linarith
    · rw [highEnd_eq]
      linarith
    · rw [hlow, highEnd_eq] at hend
      exact hend.imp (fun h => by linarith) fun h => by linarith

/-- A number also rounds to the first double of a binade if it is nearest to the end of the one
before. -/
theorem roundsTo_of_nearest_end {x : ℚ} (hlt : -1074 < q) (hq : IsLastPlace x (q - 1))
    (hm : IsNearest (x / 2 ^ (q - 1)) (2 ^ 53)) : RoundsTo x (2 ^ 52) q := by
  have hlow : (Decimal.lowEnd (2 ^ 52) q : ℚ) = 4 * 2 ^ 52 - 1 := by
    obtain ⟨-, -, hlow⟩ | ⟨hne, -⟩ := lowEnd_cases (2 ^ 52) q
    · rw [hlow]
      norm_num
    · exact absurd ⟨rfl, hlt⟩ hne
  have hlower := hm.lower
  have hupper := hq.lt
  rw [div_two_zpow_sub_one] at hlower hupper
  push_cast at hlower
  refine ⟨?_, ?_, fun _ => by norm_num⟩
  · rw [hlow]
    linarith
  · rw [highEnd_eq]
    push_cast
    linarith

/-- Nothing else rounds to it. -/
theorem IsPlace.nearest {x : ℚ} (h : IsPlace m q) (hx : RoundsTo x m q) :
    IsLastPlace x q ∧ IsNearest (x / 2 ^ q) m ∨
      m = 2 ^ 52 ∧ -1074 < q ∧ IsLastPlace x (q - 1) ∧ IsNearest (x / 2 ^ (q - 1)) (2 ^ 53) := by
  have hlower := hx.lower
  have hupper := hx.upper
  have htie := hx.even
  have hlt : (m + 1 : ℚ) ≤ 2 ^ 53 := by exact_mod_cast h.lt
  rw [highEnd_eq] at hupper htie
  obtain ⟨rfl, hq, hlow⟩ | ⟨hne, hlow⟩ := lowEnd_cases m q
  · rw [hlow] at hlower
    push_cast at hlower hupper
    obtain hge | hless := le_or_gt (2 ^ 52) (x / 2 ^ q)
    · exact .inl ⟨⟨h.least, by linarith, fun _ => hge⟩,
        ⟨by push_cast; linarith, by push_cast; linarith, fun _ => by norm_num⟩⟩
    · refine .inr ⟨rfl, hq, ⟨by omega, ?_, fun _ => ?_⟩, ⟨?_, ?_, fun _ => by norm_num⟩⟩ <;>
        rw [div_two_zpow_sub_one] <;> push_cast <;> linarith
  · have hlow := hlow h.pos
    rw [hlow] at hlower htie
    refine .inl ⟨⟨h.least, by linarith, fun hq => ?_⟩,
      ⟨by linarith, by linarith, fun hend => htie (hend.imp ?_ ?_)⟩⟩
    · have hgt : (2 ^ 52 + 1 : ℚ) ≤ m := by
        have := h.normal hq
        exact_mod_cast (show 2 ^ 52 + 1 ≤ m by omega)
      linarith
    · intro hend
      linarith
    · intro hend
      linarith

theorem round_zero (den : Nat) : FloatFormat.double.round 0 den = 0 := by
  rw [FloatFormat.round, if_pos rfl]

theorem round_le (num den : Nat) : FloatFormat.double.round num den ≤ 2047 * 2 ^ 52 := by
  unfold FloatFormat.round
  split
  · exact Nat.zero_le _
  · exact min_le_right _ _

theorem ofRatio_eq_ofPlace_iff (h : IsPlace m q) (num den : Nat) :
    ofRatio num den = ofPlace m q ↔
      FloatFormat.double.round num den = (q + 1074).toNat * 2 ^ 52 + m := by
  have hbits := toNat_bits_ofPlace h
  have hround : (ofRatio num den).bits.toNat = FloatFormat.double.round num den :=
    UInt64.toNat_ofNat_of_lt' ((round_le num den).trans_lt (by decide))
  constructor
  · intro heq
    rw [← hround, heq, hbits]
  · intro heq
    have hsame := UInt64.toNat_inj.1 (hround.trans (heq.trans hbits.symm))
    exact congrArg Double.mk hsame

/-- Two ways to write the same bits. -/
theorem place_eq {m' : Nat} {q' : Int} (h : IsPlace m q) (hleast : -1074 ≤ q')
    (hm' : m' ≤ 2 ^ 53) (hnormal : -1074 < q' → 2 ^ 52 ≤ m')
    (heq : (q' + 1074).toNat * 2 ^ 52 + m' = (q + 1074).toNat * 2 ^ 52 + m) :
    q' = q ∧ m' = m ∨ q' = q - 1 ∧ m' = 2 ^ 53 ∧ m = 2 ^ 52 ∧ -1074 < q := by
  obtain ⟨hpos, hlt, hleast', hgreatest, hnormal'⟩ := h
  omega

/-- The nearest double to a quotient is the one that it rounds to. -/
theorem ofRatio_eq_iff (h : IsPlace m q) {num den : Nat} (hden : 0 < den) :
    ofRatio num den = ofPlace m q ↔ RoundsTo (num / den) m q := by
  rw [ofRatio_eq_ofPlace_iff h]
  obtain rfl | hnum := Nat.eq_zero_or_pos num
  · have hpos := h.pos
    refine iff_of_false ?_ fun hx => absurd (h.pos_of_roundsTo hx) (by simp)
    rw [round_zero]
    omega
  obtain ⟨q', m', hq', hm', hround⟩ := exists_of_round hnum hden
  obtain ⟨hle, hnormal⟩ := hq'.bounds hm'
  have hpos := h.pos
  have hgreatest := h.greatest
  have hlt := h.lt
  rw [hround]
  constructor
  · intro heq
    have heq' : (q' + 1074).toNat * 2 ^ 52 + m' = (q + 1074).toNat * 2 ^ 52 + m := by omega
    obtain ⟨rfl, rfl⟩ | ⟨rfl, rfl, rfl, hq⟩ := place_eq h hq'.least hle hnormal heq'
    · exact roundsTo_of_nearest h hq' hm'
    · exact roundsTo_of_nearest_end hq hq' hm'
  · intro hx
    obtain ⟨hlast, hnearest⟩ | ⟨rfl, hq, hlast, hnearest⟩ := h.nearest hx
    · obtain rfl := hq'.eq hlast
      obtain rfl := hm'.eq hnearest
      omega
    · obtain rfl := hq'.eq hlast
      obtain rfl := hm'.eq hnearest
      omega

/-- The magnitude of a finite double. -/
def toRat (d : Double) : ℚ :=
  d.significand * 2 ^ d.exponent

theorem toRat_ofPlace (h : IsPlace m q) : (ofPlace m q).toRat = m * 2 ^ q := by
  rw [toRat, significand_ofPlace h, exponent_ofPlace h]

theorem toRatio_pos (d : Double) : 0 < d.toRatio.2 := by
  simp only [toRatio, Nat.shiftLeft_eq]
  exact Nat.mul_pos Nat.one_pos (Nat.two_pow_pos _)

theorem toRatio_div (d : Double) : (d.toRatio.1 / d.toRatio.2 : ℚ) = d.toRat := by
  rw [toRat, zpow_eq_div (by norm_num), toRatio, Nat.shiftLeft_eq, Nat.shiftLeft_eq]
  push_cast
  ring

/-- The terms of the quotient whose nearest double a sum is. -/
theorem exists_of_add (a b : Double) :
    ∃ num den : Nat, 0 < den ∧ (num / den : ℚ) = a.toRat + b.toRat ∧ a.add b = ofRatio num den := by
  refine ⟨_, _, Nat.mul_pos a.toRatio_pos b.toRatio_pos, ?_, rfl⟩
  have ha : (a.toRatio.2 : ℚ) ≠ 0 := by exact_mod_cast a.toRatio_pos.ne'
  have hb : (b.toRatio.2 : ℚ) ≠ 0 := by exact_mod_cast b.toRatio_pos.ne'
  rw [← a.toRatio_div, ← b.toRatio_div]
  push_cast
  field_simp

/-- What is neither too small nor too great for a double rounds to one. -/
theorem exists_place {num den : Nat} (hden : 0 < den) (hleast : (2 : ℚ) ^ (-1074 : Int) ≤ num / den)
    (hgreatest : (num / den : ℚ) < 2 ^ (1023 : Int)) :
    ∃ m q, IsPlace m q ∧ ofRatio num den = ofPlace m q ∧ RoundsTo (num / den) m q := by
  have hnum : 0 < num := by
    refine Nat.pos_of_ne_zero fun hzero => (two_zpow_pos (-1074)).not_ge ?_
    simpa [hzero] using hleast
  obtain ⟨q, m, hq, hm, hround⟩ := exists_of_round hnum hden
  obtain ⟨hle, hnormal⟩ := hq.bounds hm
  have hq' := isLastPlace_iff.1 hq
  have htop : q ≤ 970 := by
    by_contra hgt
    have hlt := (hq'.2.2 (by omega)).trans_lt hgreatest
    rw [zpow_lt_zpow_iff_right₀ (by norm_num)] at hlt
    omega
  have hpos : 0 < m := by
    refine Nat.pos_of_ne_zero fun hzero => ?_
    have hbottom : q = -1074 := by
      by_contra hne
      have := hnormal (lt_of_le_of_ne hq.least (Ne.symm hne))
      omega
    have hone : 1 ≤ (num / den : ℚ) / 2 ^ q := by
      rw [hbottom]
      exact (one_le_div (two_zpow_pos _)).2 hleast
    have hupper := hm.upper
    rw [hzero] at hupper
    norm_num at hupper
    linarith
  obtain hlt | rfl := hle.lt_or_eq
  · have hplace : IsPlace m q := ⟨hpos, hlt, hq.least, by omega, hnormal⟩
    have hx := roundsTo_of_nearest hplace hq hm
    exact ⟨m, q, hplace, (ofRatio_eq_iff hplace hden).2 hx, hx⟩
  · have hplace : IsPlace (2 ^ 52) (q + 1) :=
      ⟨by norm_num, by norm_num, by have := hq.least; omega, by omega, fun _ => le_rfl⟩
    have hback : q + 1 - 1 = q := by omega
    have hx : RoundsTo (num / den) (2 ^ 52) (q + 1) :=
      roundsTo_of_nearest_end (by have := hq.least; omega) (by rwa [hback]) (by rwa [hback])
    exact ⟨2 ^ 52, q + 1, hplace, (ofRatio_eq_iff hplace hden).2 hx, hx⟩

/-- The nearest double to a quotient, in words of the double. -/
theorem IsPositive.ofRatio_eq_iff {d : Double} (h : d.IsPositive) {num den : Nat}
    (hden : 0 < den) :
    ofRatio num den = d ↔ RoundsTo (num / den) d.significand d.exponent := by
  rw [← Double.ofRatio_eq_iff h.isPlace hden, h.ofPlace_eq]

/-- A number rounds to one double only. -/
theorem IsPlace.eq {m' : Nat} {q' : Int} {x : ℚ} (h : IsPlace m q) (h' : IsPlace m' q')
    (hx : RoundsTo x m q) (hx' : RoundsTo x m' q') : ofPlace m q = ofPlace m' q' := by
  have hvalue : (x.num.toNat / x.den : ℚ) = x := by
    have hnum : ((x.num.toNat : Int) : ℚ) = x.num := by
      rw [Int.toNat_of_nonneg (Rat.num_nonneg.2 (h.pos_of_roundsTo hx).le)]
    rw [← Int.cast_natCast, hnum, Rat.num_div_den]
  rw [← hvalue] at hx hx'
  rw [← (ofRatio_eq_iff h x.den_pos).2 hx, (ofRatio_eq_iff h' x.den_pos).2 hx']

/-- What rounds to a double above the least binade is not much below the first one of its
binade. -/
theorem IsPlace.le_of_roundsTo {x : ℚ} (h : IsPlace m q) (hx : RoundsTo x m q)
    (hq : -1074 < q) : (2 ^ 52 - 1 / 4) * 2 ^ q ≤ x := by
  have hnormal : (2 ^ 52 : ℚ) ≤ m := by exact_mod_cast h.normal hq
  have hlow : (2 ^ 54 - 1 : ℚ) ≤ Decimal.lowEnd m q := by
    obtain ⟨rfl, -, hlow⟩ | ⟨hne, hlow⟩ := lowEnd_cases m q
    · rw [hlow]
      norm_num
    · have hgt : (2 ^ 52 + 1 : ℚ) ≤ m := by
        have := h.normal hq
        exact_mod_cast (show 2 ^ 52 + 1 ≤ m by omega)
      rw [hlow h.pos]
      linarith
  have hquotient : (2 ^ 52 - 1 / 4 : ℚ) ≤ x / 2 ^ q := by linarith [hx.lower]
  exact (le_div_iff₀ (two_zpow_pos q)).1 hquotient

/-- A number that is too small for a binade rounds to one below. -/
theorem IsPlace.exponent_lt {x : ℚ} {p : Int} (h : IsPlace m q) (hx : RoundsTo x m q)
    (hp : -1074 < p) (hlt : x < (2 ^ 52 - 1 / 4) * 2 ^ p) : q < p := by
  by_contra hge
  have hgreat := h.le_of_roundsTo hx (by omega)
  have hunit : (2 : ℚ) ^ p ≤ 2 ^ q := zpow_le_zpow_right₀ one_le_two (by omega)
  linarith

/-- A positive double is no less than its last place. -/
theorem IsPlace.two_zpow_le (h : IsPlace m q) : (2 : ℚ) ^ q ≤ m * 2 ^ q :=
  le_mul_of_one_le_left (two_zpow_pos q).le (by exact_mod_cast h.pos)

theorem ofRatio_zero (den : Nat) : ofRatio 0 den = zero := by
  rw [ofRatio, round_zero]
  rfl

@[simp] theorem toRat_zero : zero.toRat = 0 := by
  have hsignificand : zero.significand = 0 := rfl
  rw [toRat, hsignificand, Nat.cast_zero, zero_mul]

/-- A number that has no more bits than a significand is the double nearest to it. -/
theorem toRat_ofRatio_of_eq {num den c : Nat} {e : Int} (hden : 0 < den) (hc : 0 < c)
    (hlt : c < 2 ^ 53) (hleast : -1074 ≤ e) (hgreatest : e ≤ 970)
    (h : (num / den : ℚ) = c * 2 ^ e) : (ofRatio num den).toRat = num / den := by
  have hpos : (0 : ℚ) < num / den := h ▸ mul_pos (by exact_mod_cast hc) (two_zpow_pos e)
  have hnum : 0 < num := by
    refine Nat.pos_of_ne_zero ?_
    rintro rfl
    simp at hpos
  have hq := isLastPlace_lastPlace hnum hden
  generalize FloatFormat.double.lastPlace num den = q at hq
  obtain ⟨-, hhigh, hlow⟩ := isLastPlace_iff.1 hq
  have hc' : (c : ℚ) < 2 ^ 53 := by exact_mod_cast hlt
  have hle : q ≤ e := by
    by_contra hgt
    have hless : (num / den : ℚ) < 2 ^ (e + 53) := by
      rw [h, add_comm, zpow_add₀ (by norm_num)]
      exact mul_lt_mul_of_pos_right (by exact_mod_cast hc') (two_zpow_pos e)
    have hcontra := (hlow (by omega)).trans_lt hless
    rw [zpow_lt_zpow_iff_right₀ (by norm_num)] at hcontra
    omega
  have hunits : (num / den : ℚ) = (c * 2 ^ (e - q).toNat : Nat) * 2 ^ q := by
    have hsplit : (2 : ℚ) ^ e = 2 ^ (e - q).toNat * 2 ^ q := by
      rw [← zpow_natCast, ← zpow_add₀ (by norm_num)]
      congr 1
      omega
    rw [h, hsplit]
    push_cast
    ring
  generalize c * 2 ^ (e - q).toNat = j at hunits
  have hquotient : (num / den : ℚ) / 2 ^ q = j := by
    rw [hunits, mul_div_cancel_right₀ _ (two_zpow_pos q).ne']
  have hplace : IsPlace j q := by
    have hlt' := hq.lt
    have hnormal := hq.le
    rw [hquotient] at hlt' hnormal
    refine ⟨Nat.pos_of_ne_zero ?_, by exact_mod_cast hlt', hq.least, by omega,
      fun h => by exact_mod_cast hnormal h⟩
    rintro rfl
    rw [hunits, Nat.cast_zero, zero_mul] at hpos
    exact lt_irrefl _ hpos
  have hround := (ofRatio_eq_iff hplace hden).2 (hunits ▸ hplace.roundsTo_self)
  rw [hround, toRat_ofPlace hplace, hunits]

end Double

end TemporalBindings.Number
