import TemporalBindings.Bindings.Bootstrap
import TemporalBindings.Proofs.Numerals
import TemporalBindings.Proofs.Projection

/-!
# TemporalBindings.Proofs.Durations

How long a written duration is. A duration is written as a number of seconds, which is a
decimal of a double:

```
seconds, nanoseconds         each rounded, and then their sum
the double                   the sum
the literal                  the shortest decimal that reads back as the double
```

The literal is the duration if that is itself the shortest decimal of the double. Below
`2 ^ 23` seconds the doubles are closer together than nanoseconds, so there it is enough that
the duration reads back as the double; from there on two durations can have one literal.
-/

namespace TemporalBindings.Worker

open Number Source

namespace Duration

/-- A duration that options can have: its seconds are those of a signed 64-bit number, and its
nanoseconds are less than a second. -/
structure InRange (d : Duration) : Prop where
  seconds : d.seconds < 2 ^ 63
  nanos : d.nanos < 10 ^ 9

/-- A value that is read as a duration is such. -/
theorem inRange_of_means {value : Schema.Value} {d : Duration}
    (h : Means value (.duration (some d))) : d.InRange := by
  cases h with
  | @duration m _ _ hd =>
    have hlt : secondsOf m < 2 ^ 63 := Int64.toInt_lt _
    have hseconds := hd.seconds
    exact ⟨by omega, hd.nanos_lt⟩

/-- Whether all durations among options are such. -/
def AllInRange (o : Options) : Prop :=
  ∀ s d, o.get s = .duration (some d) → d.InRange

theorem allInRange_default : AllInRange {} := by
  intro s d hd
  have hzero := Options.isZero_get_default s
  rw [hd] at hzero
  cases hzero

theorem AllInRange.set {o : Options} (ho : AllInRange o) {s : Setting} {value : Schema.Value}
    {v : OptionValue} (h : OptionValue.read s.kind value = .ok v) : AllInRange (o.set s v) := by
  obtain ⟨hmeans, hkind⟩ := OptionValue.read_eq_ok_iff.1 h
  intro s' d hd
  by_cases hsame : s' = s
  · rw [hsame, Options.get_set_self o hkind] at hd
    exact inRange_of_means (hd ▸ hmeans)
  · rw [Options.get_set_of_ne o hsame] at hd
    exact ho s' d hd

/-- Fields that are added keep the durations among options in range. -/
theorem AllInRange.addFields {extension element : String} {fields : List (String × Schema.Value)}
    {o o' : Options} (ho : AllInRange o)
    (h : (Options.addFields extension element o fields).result = .ok o') : AllInRange o' := by
  induction fields generalizing o with
  | nil =>
    obtain rfl := Except.ok.inj h
    exact ho
  | cons e fields ih =>
    unfold Options.addFields at h
    split at h
    · obtain ⟨_, -, hrest⟩ := Report.result_bind_eq_ok.1 h
      exact ih ho hrest
    · split at h
      · next hread => exact ih (ho.set hread) h
      · cases h

/-- All durations among the options of a worker are such. -/
theorem allInRange_of_ofMessage {extension element : String} {m : Schema.Message} {o : Options}
    (h : (Options.ofMessage extension element m).result = .ok o) : AllInRange o :=
  allInRange_default.addFields h

/-- The length in nanoseconds. -/
def inNanos (d : Duration) : Nat :=
  d.seconds * 10 ^ 9 + d.nanos

variable {d : Duration}

/-! ## The parts of a sum -/

/-- The double of the seconds is their number if that has no more bits than a significand. -/
theorem toRat_seconds {s : Nat} (hs : s < 2 ^ 53) : (Double.ofRatio s 1).toRat = s := by
  obtain rfl | hpos := Nat.eq_zero_or_pos s
  · rw [Double.ofRatio_zero, Double.toRat_zero, Nat.cast_zero]
  · have hvalue : (s / (1 : Nat) : ℚ) = s * 2 ^ (0 : Int) := by norm_num
    rw [Double.toRat_ofRatio_of_eq Nat.one_pos hpos hs (by norm_num) (by norm_num) hvalue,
      Nat.cast_one, div_one]

/-- Lengths that are neither too short nor too long to round to a positive double. -/
structure IsMiddling (x : ℚ) : Prop where
  least : 1 / 10 ^ 10 ≤ x
  greatest : x ≤ 2 ^ 65

theorem IsMiddling.exists_place {num den : Nat} (hx : IsMiddling (num / den)) (hden : 0 < den) :
    ∃ m q, Double.IsPlace m q ∧ Double.ofRatio num den = Double.ofPlace m q ∧
      RoundsTo (num / den) m q := by
  refine Double.exists_place hden (le_trans ?_ hx.least) (lt_of_le_of_lt hx.greatest ?_)
  · calc (2 : ℚ) ^ (-1074 : Int)
      _ ≤ 2 ^ (-34 : Int) := zpow_le_zpow_right₀ (by norm_num) (by norm_num)
      _ ≤ 1 / 10 ^ 10 := by norm_num
  · calc (2 : ℚ) ^ 65 = 2 ^ (65 : Int) := by norm_num
      _ < 2 ^ (1023 : Int) := zpow_lt_zpow_right₀ (by norm_num) (by norm_num)

/-- The double of such a length is at most twice and at least half of it. -/
theorem IsMiddling.toRat_bounds {num den : Nat} (h : IsMiddling (num / den)) (hden : 0 < den) :
    (num / den / 2 : ℚ) ≤ (Double.ofRatio num den).toRat ∧
      (Double.ofRatio num den).toRat ≤ 2 * (num / den) := by
  obtain ⟨m, q, hplace, hround, hx⟩ := h.exists_place hden
  have hnear := abs_le.1 (hplace.abs_sub_le hx)
  have hunit := hplace.two_zpow_le
  have hpositive := hplace.pos_of_roundsTo hx
  rw [hround, Double.toRat_ofPlace hplace]
  constructor <;> linarith

theorem isMiddling_nanos {n : Nat} (hpos : 0 < n) (hn : n < 10 ^ 9) :
    IsMiddling (n / (10 ^ 9 : Nat)) := by
  have hone : (1 : ℚ) ≤ n := by exact_mod_cast hpos
  have hlt : (n : ℚ) < 10 ^ 9 := by exact_mod_cast hn
  push_cast
  refine ⟨?_, ?_⟩
  · rw [div_le_div_iff₀ (by norm_num) (by norm_num)]
    linarith
  · rw [div_le_iff₀ (by norm_num)]
    linarith

theorem isMiddling_seconds {s : Nat} (hpos : 0 < s) (hs : s < 2 ^ 63) :
    IsMiddling (s / (1 : Nat)) := by
  have hone : (1 : ℚ) ≤ s := by exact_mod_cast hpos
  have hlt : (s : ℚ) < 2 ^ 63 := by exact_mod_cast hs
  rw [Nat.cast_one, div_one]
  exact ⟨by linarith, by linarith⟩

theorem toRat_seconds_bounds {s : Nat} (hs : s < 2 ^ 63) :
    (s / 2 : ℚ) ≤ (Double.ofRatio s 1).toRat ∧ (Double.ofRatio s 1).toRat ≤ 2 * s := by
  obtain rfl | hpos := Nat.eq_zero_or_pos s
  · rw [Double.ofRatio_zero, Double.toRat_zero]
    norm_num
  · simpa using (isMiddling_seconds hpos hs).toRat_bounds Nat.one_pos

theorem toRat_nanos_bounds {n : Nat} (hn : n < 10 ^ 9) :
    (n / 10 ^ 9 / 2 : ℚ) ≤ (Double.ofRatio n (10 ^ 9)).toRat ∧
      (Double.ofRatio n (10 ^ 9)).toRat ≤ 2 * (n / 10 ^ 9) := by
  obtain rfl | hpos := Nat.eq_zero_or_pos n
  · rw [Double.ofRatio_zero, Double.toRat_zero]
    norm_num
  · have hbounds := (isMiddling_nanos hpos hn).toRat_bounds (by norm_num)
    rwa [Nat.cast_pow, Nat.cast_ofNat] at hbounds

/-- Nanoseconds less than a second are rounded by much less than they are apart. -/
theorem abs_toRat_nanos_sub_le {n : Nat} (hn : n < 10 ^ 9) :
    |(Double.ofRatio n (10 ^ 9)).toRat - n / 10 ^ 9| ≤ 1 / 2 ^ 54 := by
  obtain rfl | hpos := Nat.eq_zero_or_pos n
  · rw [Double.ofRatio_zero, Double.toRat_zero]
    norm_num
  · obtain ⟨m, q, hplace, hround, hx⟩ := (isMiddling_nanos hpos hn).exists_place (by norm_num)
    have hn' : (n + 1 : ℚ) ≤ 10 ^ 9 := by exact_mod_cast hn
    rw [Nat.cast_pow, Nat.cast_ofNat] at hx
    -- The binade of a second begins too far above what is less than a second.
    have hq : q < -52 := hplace.exponent_lt hx (by norm_num) <|
      calc (n / 10 ^ 9 : ℚ) ≤ 1 - 1 / 10 ^ 9 := by
            rw [div_le_iff₀ (by norm_num)]
            linarith
        _ < (2 ^ 52 - 1 / 4) * 2 ^ (-52 : Int) := by norm_num
    have hhalf : (2 : ℚ) ^ q / 2 ≤ 1 / 2 ^ 54 :=
      calc (2 : ℚ) ^ q / 2 ≤ 2 ^ (-53 : Int) / 2 := by
            gcongr
            · norm_num
            · omega
        _ = 1 / 2 ^ 54 := by norm_num
    rw [hround, Double.toRat_ofPlace hplace, abs_sub_comm]
    exact (hplace.abs_sub_le hx).trans hhalf

/-! ## The sum -/

/-- The sum that is rounded last. -/
def roundedSum (d : Duration) : ℚ :=
  (Double.ofRatio d.seconds 1).toRat + (Double.ofRatio d.nanos (10 ^ 9)).toRat

theorem roundedSum_of_lt (hs : d.seconds < 2 ^ 53) :
    d.roundedSum = d.seconds + (Double.ofRatio d.nanos (10 ^ 9)).toRat := by
  rw [roundedSum, toRat_seconds hs]

theorem isMiddling_roundedSum (h : d.InRange) (hpos : 0 < d.inNanos) :
    IsMiddling d.roundedSum := by
  obtain ⟨hlow, hhigh⟩ := toRat_seconds_bounds h.seconds
  obtain ⟨hlow', hhigh'⟩ := toRat_nanos_bounds h.nanos
  have hs : (d.seconds : ℚ) < 2 ^ 63 := by exact_mod_cast h.seconds
  have hn : (d.nanos : ℚ) < 10 ^ 9 := by exact_mod_cast h.nanos
  have hnonneg : (0 : ℚ) ≤ d.seconds := Nat.cast_nonneg _
  have hnonneg' : (0 : ℚ) ≤ d.nanos := Nat.cast_nonneg _
  have hsome : (1 : ℚ) ≤ d.seconds ∨ (1 : ℚ) ≤ d.nanos := by
    have : 1 ≤ d.seconds ∨ 1 ≤ d.nanos := by
      unfold inNanos at hpos
      omega
    exact_mod_cast this
  have hless : (d.nanos / 10 ^ 9 : ℚ) < 1 := (div_lt_one (by norm_num)).2 hn
  rw [roundedSum]
  refine ⟨?_, ?_⟩
  · obtain hsome | hsome := hsome <;> linarith
  · calc _ ≤ 2 * (d.seconds : ℚ) + 2 * (d.nanos / 10 ^ 9) := add_le_add hhigh hhigh'
      _ ≤ 2 * 2 ^ 63 + 2 * 1 := by gcongr
      _ ≤ 2 ^ 65 := by norm_num

/-- A duration that is not zero is a positive double of seconds, the one that the sum rounds to. -/
theorem isPositive_inSeconds (h : d.InRange) (hpos : 0 < d.inNanos) :
    d.inSeconds.IsPositive ∧
      RoundsTo d.roundedSum d.inSeconds.significand d.inSeconds.exponent := by
  obtain ⟨num, den, hden, hvalue, hsum⟩ :=
    Double.exists_of_add (Double.ofRatio d.seconds 1) (Double.ofRatio d.nanos (10 ^ 9))
  change (num / den : ℚ) = d.roundedSum at hvalue
  have hmiddling : IsMiddling (num / den) := hvalue ▸ isMiddling_roundedSum h hpos
  obtain ⟨m, q, hplace, hround, hx⟩ := hmiddling.exists_place hden
  have hsame : d.inSeconds = Double.ofPlace m q := hsum.trans hround
  rw [hsame, Double.significand_ofPlace hplace, Double.exponent_ofPlace hplace]
  exact ⟨Double.isPositive_ofPlace hplace, hvalue ▸ hx⟩

/-! ## The literal -/

/-- The length in seconds. -/
def length (d : Duration) : ℚ :=
  d.inNanos / 10 ^ 9

/-- The length is a point of the grid of nanoseconds. -/
theorem length_eq (d : Duration) : d.length = d.inNanos * 10 ^ (-9 : Int) := by
  rw [length, zpow_neg, div_eq_mul_inv]
  norm_num

theorem ofRatio_eq_inSeconds_iff (h : d.InRange) (hpos : 0 < d.inNanos) :
    Double.ofRatio d.inNanos (10 ^ 9) = d.inSeconds ↔
      RoundsTo d.length d.inSeconds.significand d.inSeconds.exponent := by
  rw [(isPositive_inSeconds h hpos).1.ofRatio_eq_iff (by norm_num), length]
  norm_num

/-- Below `2 ^ 23` seconds numbers that round to one double are less than a nanosecond apart. -/
theorem two_zpow_exponent_lt (h : d.InRange) (hpos : 0 < d.inNanos) (hs : d.seconds < 2 ^ 23)
    (hx : RoundsTo d.length d.inSeconds.significand d.inSeconds.exponent) :
    (2 : ℚ) ^ d.inSeconds.exponent < 10 ^ (-9 : Int) := by
  have hplace := (isPositive_inSeconds h hpos).1.isPlace
  have hlength : d.length ≤ 2 ^ 23 - 1 / 10 ^ 9 := by
    have hnanos : d.inNanos + 1 ≤ 2 ^ 23 * 10 ^ 9 := by
      have := h.nanos
      unfold inNanos
      omega
    have hnanos' : (d.inNanos + 1 : ℚ) ≤ 2 ^ 23 * 10 ^ 9 := by exact_mod_cast hnanos
    rw [length, div_le_iff₀ (by norm_num)]
    linarith
  have hq : d.inSeconds.exponent < -29 := hplace.exponent_lt hx (by norm_num) <|
    calc d.length ≤ 2 ^ 23 - 1 / 10 ^ 9 := hlength
      _ < (2 ^ 52 - 1 / 4) * 2 ^ (-29 : Int) := by norm_num
  calc (2 : ℚ) ^ d.inSeconds.exponent
    _ ≤ 2 ^ (-30 : Int) := zpow_le_zpow_right₀ (by norm_num) (by omega)
    _ < 10 ^ (-9 : Int) := by norm_num

variable {x : ℚ}

/-- Below `2 ^ 23` seconds the shortest decimal of the double is the length if that is rounded to
the double. -/
theorem eq_length_of_lt (h : d.InRange) (hpos : 0 < d.inNanos) (hs : d.seconds < 2 ^ 23)
    (hx : Decimal.IsShortest d.inSeconds.significand d.inSeconds.exponent x) :
    x = d.length ↔ Double.ofRatio d.inNanos (10 ^ 9) = d.inSeconds := by
  rw [ofRatio_eq_inSeconds_iff h hpos]
  constructor
  · rintro rfl
    exact hx.roundsTo
  · intro hlength
    have hplace := (isPositive_inSeconds h hpos).1.isPlace
    have hnear := (hplace.abs_sub_le_of_roundsTo hx.roundsTo hlength).trans_lt
      (two_zpow_exponent_lt h hpos hs hlength)
    rw [length_eq] at hlength hnear ⊢
    exact hx.eq_of_abs_sub_lt hlength hnear

/-- Less than a second is rounded once. -/
theorem ofRatio_of_seconds_eq_zero (h : d.InRange) (hpos : 0 < d.inNanos) (hs : d.seconds = 0) :
    Double.ofRatio d.inNanos (10 ^ 9) = d.inSeconds := by
  have hnanos : d.inNanos = d.nanos := by simp [inNanos, hs]
  obtain ⟨hpositive, hsum⟩ := isPositive_inSeconds h hpos
  obtain ⟨m, q, hplace, hround, -⟩ :=
    (isMiddling_nanos (hnanos ▸ hpos) h.nanos).exists_place (by norm_num)
  have hvalue : d.roundedSum = m * 2 ^ q := by
    rw [roundedSum, hs, Double.ofRatio_zero, Double.toRat_zero, zero_add, hround,
      Double.toRat_ofPlace hplace]
  rw [hvalue] at hsum
  rw [hnanos, hround, hplace.eq hpositive.isPlace hplace.roundsTo_self hsum, hpositive.ofPlace_eq]

/-- Whole seconds with no more bits than a significand are not rounded. -/
theorem eq_length_of_nanos_eq_zero (h : d.InRange) (hpos : 0 < d.inNanos) (hn : d.nanos = 0)
    (hs : d.seconds < 2 ^ 53)
    (hx : Decimal.IsShortest d.inSeconds.significand d.inSeconds.exponent x) : x = d.length := by
  obtain ⟨hpositive, hsum⟩ := isPositive_inSeconds h hpos
  have hplace := hpositive.isPlace
  rw [roundedSum_of_lt hs, hn, Double.ofRatio_zero, Double.toRat_zero, add_zero] at hsum
  have hsame : Double.ofRatio d.seconds 1 = d.inSeconds := by
    rw [hpositive.ofRatio_eq_iff Nat.one_pos]
    simpa using hsum
  have hvalue : d.inSeconds.toRat = d.seconds := hsame ▸ toRat_seconds hs
  have hq : d.inSeconds.exponent < 1 := hplace.exponent_lt hsum (by norm_num) <|
    calc (d.seconds : ℚ) ≤ 2 ^ 53 - 1 := by
          have hs' : (d.seconds + 1 : ℚ) ≤ 2 ^ 53 := by exact_mod_cast hs
          linarith
      _ < (2 ^ 52 - 1 / 4) * 2 ^ (1 : Int) := by norm_num
  have hlength : d.length = d.seconds * 10 ^ (0 : Int) := by
    rw [length, inNanos, hn]
    push_cast
    ring
  rw [hlength]
  refine hx.eq_of_abs_sub_lt (by simpa using hsum) ?_
  have hnear := hplace.abs_sub_le hx.roundsTo
  change |x - d.inSeconds.toRat| ≤ _ at hnear
  rw [hvalue] at hnear
  have hunit : (2 : ℚ) ^ d.inSeconds.exponent ≤ 2 ^ (0 : Int) :=
    zpow_le_zpow_right₀ (by norm_num) (by omega)
  rw [zpow_zero] at hunit
  rw [zpow_zero, mul_one]
  linarith

/-! ## Nanoseconds and ends of intervals

Measured in halves of the last place a length is a fraction with the denominator `5 ^ 9`. From
`2 ^ 20` seconds on the rounding of nanoseconds moves it by less than such fractions are apart, so
it stays on the same side of the ends of the interval. -/

theorem two_zpow_lt {q : Int} (hlow : -32 ≤ q) : (2 : ℚ) ^ (-53 - q) < 1 / 5 ^ 9 :=
  calc (2 : ℚ) ^ (-53 - q) ≤ 2 ^ (-21 : Int) := zpow_le_zpow_right₀ one_le_two (by omega)
    _ < 1 / 5 ^ 9 := by norm_num

theorem le_of_near {a e : Nat} {z : ℚ} (hnear : |z - a / 5 ^ 9| < 1 / 5 ^ 9) (h : (e : ℚ) ≤ z) :
    (e : ℚ) ≤ a / 5 ^ 9 := by
  by_contra hlt
  rw [le_div_iff₀ (by norm_num), not_le] at hlt
  have hstep : (a + 1 : ℚ) ≤ e * 5 ^ 9 := by
    have : a < e * 5 ^ 9 := by exact_mod_cast hlt
    exact_mod_cast this
  have hgap : (a / 5 ^ 9 + 1 / 5 ^ 9 : ℚ) ≤ e := by
    rw [← add_div, div_le_iff₀ (by norm_num)]
    exact hstep
  linarith [(abs_lt.1 hnear).2]

theorem ge_of_near {a e : Nat} {z : ℚ} (hnear : |z - a / 5 ^ 9| < 1 / 5 ^ 9) (h : z ≤ e) :
    (a / 5 ^ 9 : ℚ) ≤ e := by
  by_contra hlt
  rw [div_le_iff₀ (by norm_num), not_le] at hlt
  have hstep : (e * 5 ^ 9 + 1 : ℚ) ≤ a := by
    have : e * 5 ^ 9 < a := by exact_mod_cast hlt
    exact_mod_cast this
  have hgap : (e + 1 / 5 ^ 9 : ℚ) ≤ a / 5 ^ 9 := by
    rw [le_div_iff₀ (by norm_num), add_mul]
    linarith
  linarith [(abs_lt.1 hnear).1]

/-- The length in units of the last place, and how far it is from the sum. -/
theorem near_halves (h : d.InRange) (hs : d.seconds < 2 ^ 53) {q : Int} (hlow : -32 ≤ q)
    (hhigh : q ≤ -9) :
    2 * (d.length / 2 ^ q) = (d.inNanos * 2 ^ (-8 - q).toNat : Nat) / 5 ^ 9 ∧
      |2 * (d.roundedSum / 2 ^ q) - 2 * (d.length / 2 ^ q)| ≤ 2 ^ (-53 - q) := by
  constructor
  · have hpower : (2 : ℚ) ^ q * 2 ^ (-8 - q).toNat = 2 ^ (-8 : Int) := by
      rw [← zpow_natCast, ← zpow_add₀ (by norm_num)]
      congr 1
      omega
    have hpos := two_zpow_pos q
    rw [length, ← mul_div_assoc, div_eq_div_iff hpos.ne' (by norm_num)]
    push_cast
    rw [mul_assoc (d.inNanos : ℚ), mul_comm (_ ^ _) (2 ^ q : ℚ), hpower]
    norm_num
    ring
  · have hpos := two_zpow_pos q
    have hdifference : d.roundedSum - d.length =
        (Double.ofRatio d.nanos (10 ^ 9)).toRat - d.nanos / 10 ^ 9 := by
      rw [roundedSum_of_lt hs, length, inNanos]
      push_cast
      ring
    have hscaled : 2 * (d.roundedSum / 2 ^ q) - 2 * (d.length / 2 ^ q) =
        (d.roundedSum - d.length) * (2 / 2 ^ q) := by ring
    have hunit : (1 / 2 ^ 54 * (2 / 2 ^ q) : ℚ) = 2 ^ (-53 - q) := by
      rw [zpow_sub₀ (by norm_num)]
      norm_num
      ring
    rw [hscaled, abs_mul, abs_of_pos (div_pos two_pos hpos), hdifference, ← hunit]
    exact mul_le_mul_of_nonneg_right (abs_toRat_nanos_sub_le h.nanos) (div_pos two_pos hpos).le

/-- Nanoseconds that are a fraction with a power of two as denominator are not rounded. -/
theorem roundedSum_of_dvd (hs : d.seconds < 2 ^ 53) (hn : d.nanos < 10 ^ 9)
    (hdvd : 5 ^ 9 ∣ d.nanos) : d.roundedSum = d.length := by
  have hexact : (Double.ofRatio d.nanos (10 ^ 9)).toRat = d.nanos / 10 ^ 9 := by
    obtain hzero | hpos := Nat.eq_zero_or_pos d.nanos
    · rw [hzero, Double.ofRatio_zero, Double.toRat_zero, Nat.cast_zero, zero_div]
    · obtain ⟨c, hc⟩ := hdvd
      have hvalue : (d.nanos / (10 ^ 9 : Nat) : ℚ) = c * 2 ^ (-9 : Int) := by
        rw [hc]
        push_cast
        rw [zpow_neg]
        norm_num
        ring
      rw [Double.toRat_ofRatio_of_eq (by norm_num) (by omega) (by omega) (by norm_num)
        (by norm_num) hvalue, Nat.cast_pow, Nat.cast_ofNat]
  rw [roundedSum_of_lt hs, hexact, length, inNanos]
  push_cast
  ring

theorem exponent_bounds (h : d.InRange) (hlow : 2 ^ 20 ≤ d.seconds) (hhigh : d.seconds < 2 ^ 23)
    {m : Nat} {q : Int} (hplace : Double.IsPlace m q) (hsum : RoundsTo d.roundedSum m q) :
    -32 ≤ q ∧ q ≤ -9 := by
  have hs : (2 ^ 20 : ℚ) ≤ d.seconds := by exact_mod_cast hlow
  have hs' : (d.seconds : ℚ) < 2 ^ 23 := by exact_mod_cast hhigh
  have hn : (d.nanos / 10 ^ 9 : ℚ) < 1 := by
    rw [div_lt_one (by norm_num)]
    exact_mod_cast h.nanos
  have hn' : (0 : ℚ) ≤ d.nanos / 10 ^ 9 := by positivity
  obtain ⟨hb, hb'⟩ := toRat_nanos_bounds h.nanos
  have hvalue := roundedSum_of_lt (show d.seconds < 2 ^ 53 by omega)
  generalize (Double.ofRatio d.nanos (10 ^ 9)).toRat = part at hb hb' hvalue
  constructor
  · by_contra hgt
    have hm : (m + 1 : ℚ) ≤ 2 ^ 53 := by exact_mod_cast hplace.lt
    have hupper := hsum.upper
    rw [highEnd_eq] at hupper
    have hless : d.roundedSum < 2 ^ 20 :=
      calc d.roundedSum = d.roundedSum / 2 ^ q * 2 ^ q :=
            (div_mul_cancel₀ _ (two_zpow_pos q).ne').symm
        _ < 2 ^ 53 * 2 ^ q := mul_lt_mul_of_pos_right (by linarith) (two_zpow_pos q)
        _ ≤ 2 ^ 53 * 2 ^ (-33 : Int) :=
          mul_le_mul_of_nonneg_left (zpow_le_zpow_right₀ (by norm_num) (by omega)) (by norm_num)
        _ = 2 ^ 20 := by norm_num
    linarith
  · refine Int.lt_add_one_iff.1 (hplace.exponent_lt hsum (by norm_num) ?_)
    calc d.roundedSum < 2 ^ 24 := by linarith
      _ < (2 ^ 52 - 1 / 4) * 2 ^ (-9 + 1 : Int) := by norm_num

section Ends

variable {m : Nat} {q : Int} (h : d.InRange) (hlow : -32 ≤ q) (hhigh : q ≤ -9)

include h hlow hhigh

theorem le_highEnd (hs : d.seconds < 2 ^ 53) (hsum : RoundsTo d.roundedSum m q) :
    4 * (d.length / 2 ^ q) ≤ Decimal.highEnd m := by
  obtain ⟨hhalves, hnear⟩ := near_halves h hs hlow hhigh
  have hupper := hsum.upper
  rw [highEnd_eq] at hupper ⊢
  have hle : 2 * (d.roundedSum / 2 ^ q) ≤ (2 * m + 1 : Nat) := by
    push_cast
    linarith
  have hge := ge_of_near (hhalves ▸ hnear.trans_lt (two_zpow_lt hlow)) hle
  rw [← hhalves] at hge
  push_cast at hge
  linarith

/-- The lower end of the first double of a binade is no whole number of halves. -/
theorem le_quarters (hs : 2 ^ 20 ≤ d.seconds) (hs' : d.seconds < 2 ^ 53)
    (hsum : ((4 * 2 ^ 52 - 1 : Nat) : ℚ) ≤ 4 * (d.roundedSum / 2 ^ q)) :
    ((4 * 2 ^ 52 - 1 : Nat) : ℚ) ≤ 4 * (d.length / 2 ^ q) := by
  obtain ⟨hhalves, hnear⟩ := near_halves h hs' hlow hhigh
  obtain rfl | hlt := hlow.eq_or_lt
  -- In the binade of `2 ^ 20` seconds it is below all of them.
  · have hseconds : (2 ^ 20 : ℚ) ≤ d.length := by
      have : 2 ^ 20 * 10 ^ 9 ≤ d.inNanos := by
        unfold inNanos
        omega
      rw [length, le_div_iff₀ (by norm_num)]
      exact_mod_cast this
    rw [zpow_neg, div_inv_eq_mul]
    norm_num
    linarith
  · have hgap : 2 * (2 : ℚ) ^ (-53 - q) < 1 / 5 ^ 9 :=
      calc 2 * (2 : ℚ) ^ (-53 - q)
        _ ≤ 2 * 2 ^ (-22 : Int) :=
          mul_le_mul_of_nonneg_left (zpow_le_zpow_right₀ (by norm_num) (by omega)) two_pos.le
        _ < 1 / 5 ^ 9 := by norm_num
    have hquarters : 4 * (d.length / 2 ^ q) =
        (2 * (d.inNanos * 2 ^ (-8 - q).toNat) : Nat) / 5 ^ 9 := by
      rw [Nat.cast_mul, mul_div_assoc, ← hhalves]
      push_cast
      ring
    have hnear' : |4 * (d.roundedSum / 2 ^ q) - 4 * (d.length / 2 ^ q)| < 1 / 5 ^ 9 := by
      obtain ⟨hbelow, habove⟩ := abs_le.1 hnear
      exact abs_lt.2 ⟨by linarith, by linarith⟩
    rw [hquarters] at hnear' ⊢
    exact le_of_near hnear' hsum

theorem lowEnd_le (hs : 2 ^ 20 ≤ d.seconds) (hs' : d.seconds < 2 ^ 53)
    (hplace : Double.IsPlace m q) (hsum : RoundsTo d.roundedSum m q) :
    (Decimal.lowEnd m q : ℚ) ≤ 4 * (d.length / 2 ^ q) := by
  obtain ⟨hhalves, hnear⟩ := near_halves h hs' hlow hhigh
  have hlower := hsum.lower
  obtain ⟨rfl, -, hend⟩ | ⟨-, hend⟩ := lowEnd_cases m q
  · have hcast : ((4 * 2 ^ 52 - 1 : Nat) : ℚ) = 4 * (2 ^ 52 : Nat) - 1 := by norm_num
    rw [hend, ← hcast] at hlower ⊢
    exact le_quarters h hlow hhigh hs hs' hlower
  · have hend := hend hplace.pos
    have hcast : ((2 * m - 1 : Nat) : ℚ) = 2 * m - 1 := by
      rw [Nat.cast_sub (by have := hplace.pos; omega)]
      push_cast
      ring
    rw [hend] at hlower ⊢
    have hle : ((2 * m - 1 : Nat) : ℚ) ≤ 2 * (d.roundedSum / 2 ^ q) := by
      rw [hcast]
      linarith
    have hge := le_of_near (hhalves ▸ hnear.trans_lt (two_zpow_lt hlow)) hle
    rw [← hhalves, hcast] at hge
    linarith

/-- As a fraction in lowest terms the length is at no end. -/
theorem length_ne (hs : d.seconds < 2 ^ 53) (hn : ¬ 5 ^ 9 ∣ d.nanos) (e : Nat) :
    2 * (d.length / 2 ^ q) ≠ e := by
  intro heq
  rw [(near_halves h hs hlow hhigh).1, div_eq_iff (by norm_num)] at heq
  have hwhole : d.inNanos * 2 ^ (-8 - q).toNat = e * 5 ^ 9 := by exact_mod_cast heq
  have hcoprime : Nat.Coprime (5 ^ 9) (2 ^ (-8 - q).toNat) := Nat.Coprime.pow _ _ (by decide)
  have hfactor : 5 ^ 9 ∣ d.inNanos := hcoprime.dvd_of_dvd_mul_right (hwhole ▸ Nat.dvd_mul_left ..)
  exact hn ((Nat.dvd_add_right (Nat.dvd_mul_left_of_dvd (by norm_num) _)).1 hfactor)

end Ends

/-- From `2 ^ 20` seconds on, up to `2 ^ 23`, it does not matter that nanoseconds are rounded before
they are added. -/
theorem ofRatio_of_le_seconds (h : d.InRange) (hlow : 2 ^ 20 ≤ d.seconds)
    (hhigh : d.seconds < 2 ^ 23) : Double.ofRatio d.inNanos (10 ^ 9) = d.inSeconds := by
  have hpos : 0 < d.inNanos := by
    unfold inNanos
    omega
  have hs : d.seconds < 2 ^ 53 := by omega
  obtain ⟨hpositive, hsum⟩ := isPositive_inSeconds h hpos
  rw [ofRatio_eq_inSeconds_iff h hpos]
  by_cases hdvd : 5 ^ 9 ∣ d.nanos
  · rwa [roundedSum_of_dvd hs h.nanos hdvd] at hsum
  have hplace := hpositive.isPlace
  obtain ⟨hq, hq'⟩ := exponent_bounds h hlow hhigh hplace hsum
  have hne := length_ne h hq hq' hs hdvd
  refine ⟨lowEnd_le h hq hq' hlow hs hplace hsum, le_highEnd h hq hq' hs hsum, ?_⟩
  generalize d.inSeconds.significand = m at hplace ⊢
  generalize d.inSeconds.exponent = q at hplace hne ⊢
  rintro (hend | hend)
  · obtain ⟨rfl, -, -⟩ | ⟨-, hvalue⟩ := lowEnd_cases m q
    · norm_num
    · rw [hvalue hplace.pos] at hend
      refine absurd ?_ (hne (2 * m - 1))
      rw [Nat.cast_sub (by have := hplace.pos; omega)]
      push_cast
      linarith
  · rw [highEnd_eq] at hend
    refine absurd ?_ (hne (2 * m + 1))
    push_cast
    linarith

/-- Up to this many nanoseconds the literal stands for fewer than `2 ^ 63` of them. -/
theorem lt_of_inNanos_le (h : d.InRange) (hpos : 0 < d.inNanos)
    (hle : d.inNanos ≤ 9223372036854775428)
    (hx : Decimal.IsShortest d.inSeconds.significand d.inSeconds.exponent x) :
    x * 10 ^ 9 < 2 ^ 63 := by
  obtain ⟨hpositive, hsum⟩ := isPositive_inSeconds h hpos
  have hseconds : d.seconds < 2 ^ 53 := by
    unfold inNanos at hle
    omega
  have hnear := (abs_le.1 (abs_toRat_nanos_sub_le h.nanos)).2
  have hle' : (d.seconds * 10 ^ 9 + d.nanos : ℚ) ≤ 9223372036854775428 := by exact_mod_cast hle
  -- Half way between two doubles.
  have hbelow : d.roundedSum ≤ (9671406556917033 : Nat) / (2 ^ 20 : Nat) := by
    rw [roundedSum_of_lt hseconds]
    generalize (Double.ofRatio d.nanos (10 ^ 9)).toRat = part at hnear
    push_cast
    linarith
  by_contra hge
  have habove : ((9671406556917033 : Nat) / (2 ^ 20 : Nat) : ℚ) ≤ x := by
    have hlarge := not_lt.1 hge
    rw [Nat.cast_ofNat, div_le_iff₀ (by norm_num)]
    push_cast
    linarith
  have hmiddle := Double.roundsTo_of_between hsum hx.roundsTo hbelow habove
  rw [← hpositive.ofRatio_eq_iff (by norm_num)] at hmiddle
  have hdouble :
      Double.ofRatio 9671406556917033 (2 ^ 20) = Double.ofPlace 4835703278458516 (-19) := by
    decide +kernel
  have hplace : Double.IsPlace 4835703278458516 (-19) := by constructor <;> norm_num
  have hupper := hx.roundsTo.upper
  rw [← hmiddle, hdouble, Double.significand_ofPlace hplace, Double.exponent_ofPlace hplace,
    highEnd_eq, zpow_neg, div_inv_eq_mul] at hupper
  push_cast at hupper
  norm_num at hupper
  linarith

/-! ## Written durations -/

/-- The literal of the number of seconds. -/
def literal (d : Duration) : List Char :=
  floatText d.inSeconds

theorem inSeconds_of_inNanos_eq_zero (h : d.inNanos = 0) : d.inSeconds = .zero := by
  obtain ⟨s, n⟩ := d
  obtain ⟨rfl, rfl⟩ : s = 0 ∧ n = 0 := by
    simp only [inNanos] at h
    omega
  decide

theorem numeral?_literal_of_eq_zero (h : d.inNanos = 0) : numeral? d.literal = some 0 := by
  rw [literal, inSeconds_of_inNanos_eq_zero h, numeral?_floatText_zero]

theorem numeral?_literal (h : d.InRange) (hpos : 0 < d.inNanos) :
    numeral? d.literal = some (Decimal.ofDouble d.inSeconds).toRat :=
  numeral?_floatText (isPositive_inSeconds h hpos).1

theorem isShortest_inSeconds (h : d.InRange) (hpos : 0 < d.inNanos) :
    Decimal.IsShortest d.inSeconds.significand d.inSeconds.exponent
      (Decimal.ofDouble d.inSeconds).toRat :=
  Decimal.isShortest_ofDouble (isPositive_inSeconds h hpos).1

/-- The literal is zero for no other duration. -/
theorem toRat_ofDouble_pos (h : d.InRange) (hpos : 0 < d.inNanos) :
    0 < (Decimal.ofDouble d.inSeconds).toRat :=
  (isPositive_inSeconds h hpos).1.isPlace.pos_of_roundsTo (isShortest_inSeconds h hpos).roundsTo

/-- Two durations have one literal if they are one double of seconds, and only then. -/
theorem literal_eq_iff {d' : Duration} (h : d.InRange) (h' : d'.InRange) :
    d.literal = d'.literal ↔ d.inSeconds = d'.inSeconds := by
  refine ⟨fun heq => ?_, fun heq => by rw [literal, literal, heq]⟩
  have hsame := congrArg numeral? heq
  obtain hzero | hpos := Nat.eq_zero_or_pos d.inNanos <;>
    obtain hzero' | hpos' := Nat.eq_zero_or_pos d'.inNanos
  · rw [inSeconds_of_inNanos_eq_zero hzero, inSeconds_of_inNanos_eq_zero hzero']
  · rw [numeral?_literal_of_eq_zero hzero, numeral?_literal h' hpos', Option.some.injEq] at hsame
    exact absurd hsame (toRat_ofDouble_pos h' hpos').ne
  · rw [numeral?_literal_of_eq_zero hzero', numeral?_literal h hpos, Option.some.injEq] at hsame
    exact absurd hsame (toRat_ofDouble_pos h hpos).ne'
  · rw [numeral?_literal h hpos, numeral?_literal h' hpos', Option.some.injEq] at hsame
    have hpositive := (isPositive_inSeconds h hpos).1
    have hpositive' := (isPositive_inSeconds h' hpos').1
    rw [← hpositive.ofPlace_eq, ← hpositive'.ofPlace_eq]
    exact hpositive.isPlace.eq hpositive'.isPlace (isShortest_inSeconds h hpos).roundsTo
      (hsame ▸ (isShortest_inSeconds h' hpos').roundsTo)

/-- The number of nanoseconds that a literal stands for is that of the duration iff the literal is
its length. -/
theorem mul_eq_inNanos_iff : x * 10 ^ 9 = d.inNanos ↔ x = d.length := by
  rw [length, eq_div_iff (by norm_num)]

/-- The literal of a duration is zero for zero, and else the shortest decimal of the double that
the seconds and the nanoseconds, each rounded, are rounded to together. It is the length of the
duration iff that is this decimal. Below `2 ^ 23` seconds it is so iff the length itself is
rounded to the double, and always below a second, from `2 ^ 20` seconds on, and for up to
`2 ^ 53` whole seconds. Durations have one literal only if they are one double, and up to
9223372036854775428 nanoseconds the literal stands for fewer than `2 ^ 63`. -/
theorem valueCode_duration (sdk : Bindings.Sdk) (d : Duration) (h : d.InRange) :
    ∃ x, numeral? d.literal = some x ∧
      Bindings.valueCode sdk (.duration (some d)) =
        ([sdk.time.ident "Duration", .text ("(" ++ String.ofList d.literal ++ " * "),
          .name "float64", "(", sdk.time.ident "Second", "))"] : Code) ∧
      (d.inNanos = 0 → x = 0) ∧
      (0 < d.inNanos →
        Decimal.IsShortest d.inSeconds.significand d.inSeconds.exponent x ∧
          (x * 10 ^ 9 = d.inNanos ↔
            Decimal.IsShortest d.inSeconds.significand d.inSeconds.exponent
              (d.inNanos / 10 ^ 9))) ∧
      (d.seconds < 2 ^ 23 →
        (x * 10 ^ 9 = d.inNanos ↔ Double.ofRatio d.inNanos (10 ^ 9) = d.inSeconds)) ∧
      (d.seconds = 0 ∨ 2 ^ 20 ≤ d.seconds ∧ d.seconds < 2 ^ 23 ∨
        d.nanos = 0 ∧ d.seconds < 2 ^ 53 → x * 10 ^ 9 = d.inNanos) ∧
      (∀ d' : Duration, d'.InRange →
        (d.literal = d'.literal ↔ d.inSeconds = d'.inSeconds)) ∧
      (d.inNanos ≤ 9223372036854775428 → x * 10 ^ 9 < 2 ^ 63) := by
  obtain hzero | hpos := Nat.eq_zero_or_pos d.inNanos
  · refine ⟨0, numeral?_literal_of_eq_zero hzero, rfl, fun _ => rfl, fun hpos => by omega,
      fun _ => ?_, fun _ => by simp [hzero], fun d' h' => literal_eq_iff h h', fun _ => by norm_num⟩
    rw [hzero, Double.ofRatio_zero, inSeconds_of_inNanos_eq_zero hzero]
    simp
  · have hx := isShortest_inSeconds h hpos
    refine ⟨_, numeral?_literal h hpos, rfl, fun hzero => by omega, fun _ => ⟨hx, ?_⟩,
      fun hs => ?_, ?_, fun d' h' => literal_eq_iff h h', fun hle => lt_of_inNanos_le h hpos hle hx⟩
    · rw [mul_eq_inNanos_iff]
      refine ⟨fun heq => ?_, hx.eq⟩
      rw [heq] at hx
      exact hx
    · rw [mul_eq_inNanos_iff, eq_length_of_lt h hpos hs hx]
    · rw [mul_eq_inNanos_iff]
      rintro (hs | ⟨hlow, hhigh⟩ | ⟨hn, hs⟩)
      · rw [eq_length_of_lt h hpos (by omega) hx]
        exact ofRatio_of_seconds_eq_zero h hpos hs
      · rw [eq_length_of_lt h hpos hhigh hx]
        exact ofRatio_of_le_seconds h hlow hhigh
      · exact eq_length_of_nanos_eq_zero h hpos hn hs hx

/-- A second and a half is written as itself. -/
theorem valueCode_secondAndHalf :
    ∃ x, numeral? (literal ⟨1, 500000000⟩) = some x ∧ x * 10 ^ 9 = 1500000000 ∧
      x * 10 ^ 9 < 2 ^ 63 := by
  have hmessage : Means
      (.message ⟨durationType, [(1, .leaf (.i64 1)), (2, .leaf (.i32 500000000))], []⟩)
      (.duration (some ⟨1, 500000000⟩)) := .duration rfl ⟨rfl, rfl, by decide⟩
  obtain ⟨x, hx, -, -, -, hbelow, -, -, hless⟩ :=
    valueCode_duration {} ⟨1, 500000000⟩ (inRange_of_means hmessage)
  refine ⟨x, hx, ?_, hless (by decide)⟩
  have hexact := (hbelow (by decide)).2 (by decide +kernel)
  rw [hexact]
  norm_num [inNanos]

/-- Other durations are written as less than they are, as other durations are, or as more than any
that the generated source can hold. -/
theorem literal_inexact :
    (∃ x, numeral? (literal ⟨1, 997000000⟩) = some x ∧ x * 10 ^ 9 < 1997000000) ∧
      literal ⟨8388608, 125559201⟩ = literal ⟨8388608, 125559202⟩ ∧
      ∃ x, numeral? (literal ⟨9223372037, 0⟩) = some x ∧ 2 ^ 63 ≤ x * 10 ^ 9 := by
  refine ⟨⟨_, numeral?_literal ⟨by decide, by decide⟩ (by decide), ?_⟩, by decide +kernel,
    ⟨_, numeral?_literal ⟨by decide, by decide⟩ (by decide), ?_⟩⟩
  · have hdecimal : Decimal.ofDouble (inSeconds ⟨1, 997000000⟩) = ⟨19969999999999999, -16⟩ := by
      decide +kernel
    rw [hdecimal]
    norm_num [Decimal.toRat]
  · have hdecimal : Decimal.ofDouble (inSeconds ⟨9223372037, 0⟩) = ⟨9223372037, 0⟩ := by
      decide +kernel
    rw [hdecimal]
    norm_num [Decimal.toRat]

end Duration

end TemporalBindings.Worker
