import Mathlib.Tactic.LinearCombination
import TemporalBindings.Proofs.Rounding

/-!
# TemporalBindings.Proofs.Shortest

What the shortest decimal of a double is. The multiples of `10 ^ k` are a grid, and the grid
at `k` contains the one at `k + 1`:

```
reads back      it rounds to the double
shortest        no point of a coarser grid does
nearest         of its own grid no other point that does is as near,
                unless it is as far below the double as this one is above
```

There is one such decimal for every positive double, and the search finds it.
-/

namespace TemporalBindings.Number.Decimal

variable {m : Nat} {q k : Int} {n : Nat}

/-- The number that a decimal is. -/
def toRat (d : Decimal) : ℚ :=
  d.coefficient * 10 ^ d.exponent

/-! ## Points that read back -/

/-- The step of a grid and a quarter of the last place are measured in the same unit. -/
theorem exists_unit (q k : Int) :
    ∃ unit : ℚ, 0 < unit ∧ (gridStep q k : ℚ) = 10 ^ k * unit ∧
      (quarter q k : ℚ) = 2 ^ (q - 2) * unit := by
  refine ⟨10 ^ (-k).toNat * 2 ^ (2 - q).toNat, by positivity, ?_, ?_⟩
  · rw [gridStep, Nat.shiftLeft_eq, Nat.pow_eq, zpow_eq_div (by norm_num)]
    push_cast
    field_simp
  · rw [quarter, Nat.shiftLeft_eq, Nat.pow_eq, zpow_eq_div (by norm_num), neg_sub]
    push_cast
    field_simp

/-- The distance of a point from zero in quarters of the last place. -/
theorem quarter_le_iff (a : Nat) :
    (a * quarter q k ≤ n * gridStep q k ↔ (a : ℚ) ≤ 4 * (n * 10 ^ k / 2 ^ q)) ∧
      (n * gridStep q k ≤ a * quarter q k ↔ 4 * (n * 10 ^ k / 2 ^ q) ≤ (a : ℚ)) := by
  obtain ⟨unit, hunit, hstep, hquarter⟩ := exists_unit q k
  have hpos := two_zpow_pos (q - 2)
  have hscale : (4 * (n * 10 ^ k / 2 ^ q) : ℚ) = n * 10 ^ k / 2 ^ (q - 2) := by
    rw [zpow_sub₀ (by norm_num)]
    norm_num
    ring
  have hpoint : (n : ℚ) * (10 ^ k * unit) = n * 10 ^ k / 2 ^ (q - 2) * (2 ^ (q - 2) * unit) := by
    field_simp
  have hscaled := mul_pos hpos hunit
  rw [hscale]
  constructor
  · rw [← Nat.cast_le (α := ℚ)]
    push_cast
    rw [hstep, hquarter, hpoint, mul_le_mul_iff_of_pos_right hscaled]
  · rw [← Nat.cast_le (α := ℚ)]
    push_cast
    rw [hstep, hquarter, hpoint, mul_le_mul_iff_of_pos_right hscaled]

theorem readsBack_iff : readsBack m q k n = true ↔ RoundsTo (n * 10 ^ k) m q := by
  obtain ⟨hlow, hlow'⟩ := @quarter_le_iff q k n (lowEnd m q)
  obtain ⟨hhigh', hhigh⟩ := @quarter_le_iff q k n (highEnd m)
  have hlt {a b : Nat} {x y : ℚ} (h : b ≤ a ↔ y ≤ x) : a < b ↔ x < y := by
    rw [← not_le, ← not_le, h]
  unfold readsBack
  split
  · next heven =>
    simp only [Bool.and_eq_true, decide_eq_true_iff, hlow, hhigh]
    exact ⟨fun h => ⟨h.1, h.2, fun _ => heven⟩, fun h => ⟨h.lower, h.upper⟩⟩
  · next hodd =>
    simp only [Bool.and_eq_true, decide_eq_true_iff, hlt hlow', hlt hhigh']
    constructor
    · rintro ⟨hl, hh⟩
      exact ⟨hl.le, hh.le, fun hend => by obtain hend | hend := hend <;> linarith⟩
    · intro h
      exact ⟨lt_of_le_of_ne h.lower fun heq => hodd (h.even (.inl heq.symm)),
        lt_of_le_of_ne h.upper fun heq => hodd (h.even (.inr heq))⟩

/-! ## The nearest point of a grid -/

/-- A point of a grid that reads back as a double, and is nearest to it of all that do; of two
equally near ones it is the greater. -/
structure IsNearestOn (m : Nat) (q k : Int) (n : Nat) : Prop where
  roundsTo : RoundsTo (n * 10 ^ k) m q
  le : ∀ i : Nat, RoundsTo (i * 10 ^ k) m q →
    |(n * 10 ^ k - m * 2 ^ q : ℚ)| ≤ |(i * 10 ^ k - m * 2 ^ q : ℚ)|
  tie : ∀ i : Nat, RoundsTo (i * 10 ^ k) m q →
    |(n * 10 ^ k - m * 2 ^ q : ℚ)| = |(i * 10 ^ k - m * 2 ^ q : ℚ)| → i ≤ n

/-- The double lies between two neighbouring points of a grid; how far it is from them is seen
from the rest of a division. -/
theorem between (m : Nat) (q k : Int) :
    (((4 * m * quarter q k / gridStep q k : Nat) : ℚ) * 10 ^ k ≤ m * 2 ^ q) ∧
      (m * 2 ^ q < ((4 * m * quarter q k / gridStep q k + 1 : Nat) : ℚ) * 10 ^ k) ∧
      (2 * (4 * m * quarter q k % gridStep q k) < gridStep q k ↔
        m * 2 ^ q - ((4 * m * quarter q k / gridStep q k : Nat) : ℚ) * 10 ^ k <
          ((4 * m * quarter q k / gridStep q k + 1 : Nat) : ℚ) * 10 ^ k - m * 2 ^ q) := by
  obtain ⟨unit, hunit, hstep, hquarter⟩ := exists_unit q k
  have hpos : 0 < gridStep q k := by
    have : (0 : ℚ) < gridStep q k := hstep ▸ mul_pos (ten_zpow_pos k) hunit
    exact_mod_cast this
  have hsplit : (4 * m * quarter q k : ℚ) =
      (4 * m * quarter q k / gridStep q k : Nat) * gridStep q k +
        (4 * m * quarter q k % gridStep q k : Nat) := by
    exact_mod_cast (Nat.div_add_mod' (4 * m * quarter q k) (gridStep q k)).symm
  have hrest : ((4 * m * quarter q k % gridStep q k : Nat) : ℚ) < gridStep q k := by
    exact_mod_cast Nat.mod_lt _ hpos
  have hnonneg : (0 : ℚ) ≤ (4 * m * quarter q k % gridStep q k : Nat) := Nat.cast_nonneg _
  have hhalf : (2 * (4 * m * quarter q k % gridStep q k) < gridStep q k ↔
      (2 * (4 * m * quarter q k % gridStep q k : Nat) : ℚ) < gridStep q k) := by
    norm_cast
  have hvalue : (4 * m * quarter q k : ℚ) = m * 2 ^ q * unit := by
    rw [hquarter, zpow_sub₀ (by norm_num)]
    norm_num
    ring
  rw [hhalf]
  generalize (4 * m * quarter q k % gridStep q k : Nat) = rest at *
  generalize (4 * m * quarter q k / gridStep q k : Nat) = low at *
  rw [hvalue, hstep] at hsplit
  rw [hstep] at hrest ⊢
  push_cast
  have hscaled : (rest : ℚ) = (m * 2 ^ q - low * 10 ^ k) * unit := by linarith
  rw [hscaled] at hrest hnonneg
  have hlow : (0 : ℚ) ≤ m * 2 ^ q - low * 10 ^ k := nonneg_of_mul_nonneg_left hnonneg hunit
  have hhigh : (m * 2 ^ q - low * 10 ^ k : ℚ) < 10 ^ k := lt_of_mul_lt_mul_right hrest hunit.le
  refine ⟨by linarith, by linarith, ?_⟩
  rw [hscaled, ← mul_assoc, mul_lt_mul_iff_of_pos_right hunit]
  constructor <;> intro h <;> linarith

/-- A point of a grid is not above the double or not below the next one. -/
theorem mul_ten_zpow_le {a b : Nat} (h : a ≤ b) (k : Int) : (a * 10 ^ k : ℚ) ≤ b * 10 ^ k :=
  mul_le_mul_of_nonneg_right (by exact_mod_cast h) (ten_zpow_pos k).le

/-- A grid has a point that reads back if one of the neighbours of the double does. -/
theorem pointOn?_eq_none (h : Double.IsPlace m q) (hnone : pointOn? m q k = none) (i : Nat) :
    ¬ RoundsTo (i * 10 ^ k) m q := by
  obtain ⟨hlow, hhigh, -⟩ := between m q k
  intro hi
  unfold pointOn? at hnone
  dsimp only at hnone
  split at hnone
  any_goals cases hnone
  next hlowNot hhighNot =>
  rw [← Bool.not_eq_true, readsBack_iff] at hlowNot hhighNot
  obtain hgt | hle := Nat.lt_or_ge (4 * m * quarter q k / gridStep q k) i
  · exact hhighNot (Double.roundsTo_of_between h.roundsTo_self hi hhigh.le (mul_ten_zpow_le hgt k))
  · exact hlowNot (Double.roundsTo_of_between hi h.roundsTo_self (mul_ten_zpow_le hle k) hlow)

/-- The point below the double is nearest if the one above does not read back or is farther. -/
theorem isNearestOn_below (h : Double.IsPlace m q) (hn : RoundsTo (n * 10 ^ k) m q)
    (hlow : (n * 10 ^ k : ℚ) ≤ m * 2 ^ q) (hhigh : m * 2 ^ q < ((n + 1 : Nat) * 10 ^ k : ℚ))
    (hnext : RoundsTo ((n + 1 : Nat) * 10 ^ k) m q →
      (m * 2 ^ q - n * 10 ^ k : ℚ) < (n + 1 : Nat) * 10 ^ k - m * 2 ^ q) :
    IsNearestOn m q k n := by
  have hdistance : |(n * 10 ^ k - m * 2 ^ q : ℚ)| = m * 2 ^ q - n * 10 ^ k := by
    rw [abs_of_nonpos (by linarith), neg_sub]
  -- Above the double no point is as near.
  have habove {i : Nat} (hi : RoundsTo (i * 10 ^ k) m q) (hlt : n < i) :
      |(n * 10 ^ k - m * 2 ^ q : ℚ)| < |(i * 10 ^ k - m * 2 ^ q : ℚ)| := by
    have hle := mul_ten_zpow_le hlt k
    have hfar := hnext (Double.roundsTo_of_between h.roundsTo_self hi hhigh.le hle)
    push_cast at hhigh hle hfar
    rw [hdistance, abs_of_nonneg (by linarith)]
    linarith
  refine ⟨hn, fun i hi => ?_, fun i hi htie => ?_⟩
  · obtain hlt | hge := Nat.lt_or_ge n i
    · exact (habove hi hlt).le
    · have hle := mul_ten_zpow_le hge k
      rw [hdistance, abs_of_nonpos (by linarith)]
      linarith
  · exact not_lt.1 fun hlt => (habove hi hlt).ne htie

/-- The point above the double is nearest if the one below does not read back or is not nearer. -/
theorem isNearestOn_above (h : Double.IsPlace m q) (hn : RoundsTo ((n + 1 : Nat) * 10 ^ k) m q)
    (hlow : (n * 10 ^ k : ℚ) ≤ m * 2 ^ q) (hhigh : m * 2 ^ q < ((n + 1 : Nat) * 10 ^ k : ℚ))
    (hprevious : RoundsTo (n * 10 ^ k) m q →
      ((n + 1 : Nat) * 10 ^ k - m * 2 ^ q : ℚ) ≤ m * 2 ^ q - n * 10 ^ k) :
    IsNearestOn m q k (n + 1) := by
  have hdistance :
      |((n + 1 : Nat) * 10 ^ k - m * 2 ^ q : ℚ)| = (n + 1 : Nat) * 10 ^ k - m * 2 ^ q :=
    abs_of_nonneg (by linarith)
  refine ⟨hn, fun i hi => ?_, fun i hi htie => ?_⟩
  · obtain hlt | hge := Nat.lt_or_ge n i
    · have hle := mul_ten_zpow_le hlt k
      rw [hdistance, abs_of_nonneg (by linarith)]
      linarith
    · have hle := mul_ten_zpow_le hge k
      have hfar := hprevious (Double.roundsTo_of_between hi h.roundsTo_self hle hlow)
      rw [hdistance, abs_of_nonpos (by linarith)]
      linarith
  · by_contra hgt
    have hlt : n + 1 < i := not_le.1 hgt
    have hstrict : ((n + 1 : Nat) * 10 ^ k : ℚ) < i * 10 ^ k :=
      mul_lt_mul_of_pos_right (by exact_mod_cast hlt) (ten_zpow_pos k)
    rw [hdistance, abs_of_nonneg (by linarith)] at htie
    linarith

theorem isNearestOn_of_pointOn? (h : Double.IsPlace m q) (hn : pointOn? m q k = some n) :
    IsNearestOn m q k n := by
  obtain ⟨hlow, hhigh, hhalf⟩ := between m q k
  unfold pointOn? at hn
  dsimp only at hn
  split at hn
  · next hbelow habove =>
    rw [readsBack_iff] at hbelow habove
    split at hn
    · next hnear =>
      obtain rfl := Option.some.inj hn
      exact isNearestOn_below h hbelow hlow hhigh fun _ => hhalf.1 hnear
    · next hfar =>
      obtain rfl := Option.some.inj hn
      exact isNearestOn_above h habove hlow hhigh fun _ => not_lt.1 (mt hhalf.2 hfar)
  · next hbelow habove =>
    rw [readsBack_iff] at hbelow
    rw [← Bool.not_eq_true, readsBack_iff] at habove
    obtain rfl := Option.some.inj hn
    exact isNearestOn_below h hbelow hlow hhigh fun h' => absurd h' habove
  · next hbelow habove =>
    rw [readsBack_iff] at habove
    rw [← Bool.not_eq_true, readsBack_iff] at hbelow
    obtain rfl := Option.some.inj hn
    exact isNearestOn_above h habove hlow hhigh fun h' => absurd h' hbelow
  · cases hn

/-! ## The coarsest grid -/

/-- The shortest decimal that reads back as a double: the nearest point of the coarsest grid that
has one. -/
def IsShortest (m : Nat) (q : Int) (x : ℚ) : Prop :=
  ∃ (k : Int) (n : Nat), x = n * 10 ^ k ∧ IsNearestOn m q k n ∧
    ∀ j, k < j → ∀ i : Nat, ¬ RoundsTo (i * 10 ^ j) m q

theorem IsShortest.roundsTo {x : ℚ} (h : IsShortest m q x) : RoundsTo x m q := by
  obtain ⟨k, n, rfl, hn, -⟩ := h
  exact hn.roundsTo

/-- There is only one. -/
theorem IsShortest.eq {x y : ℚ} (hx : IsShortest m q x) (hy : IsShortest m q y) : x = y := by
  obtain ⟨k, n, rfl, hn, hcoarser⟩ := hx
  obtain ⟨j, i, rfl, hi, hcoarser'⟩ := hy
  obtain rfl : k = j := by
    obtain hlt | heq | hgt := lt_trichotomy k j
    · exact absurd hi.roundsTo (hcoarser j hlt i)
    · exact heq
    · exact absurd hn.roundsTo (hcoarser' k hgt n)
  have hdistance := (hn.le i hi.roundsTo).antisymm (hi.le n hn.roundsTo)
  have hle := hn.tie i hi.roundsTo hdistance
  have hge := hi.tie n hn.roundsTo hdistance.symm
  rw [Nat.le_antisymm hge hle]

/-- A point of any grid that reads back is the shortest decimal if that is not a step away. -/
theorem IsShortest.eq_of_abs_sub_lt {x : ℚ} (hx : IsShortest m q x) {i : Nat}
    (hi : RoundsTo (i * 10 ^ k) m q) (hnear : |x - i * 10 ^ k| < 10 ^ k) : x = i * 10 ^ k := by
  obtain ⟨j, n, rfl, -, hcoarser⟩ := hx
  have hle : k ≤ j := not_lt.1 fun hlt => hcoarser k hlt i hi
  have hpoint : (n * 10 ^ j : ℚ) = (n * 10 ^ (j - k).toNat : Nat) * 10 ^ k := by
    have hsplit : (10 : ℚ) ^ j = 10 ^ (j - k).toNat * 10 ^ k := by
      rw [← zpow_natCast, ← zpow_add₀ (by norm_num)]
      congr 1
      omega
    rw [hsplit]
    push_cast
    ring
  rw [hpoint] at hnear ⊢
  generalize n * 10 ^ (j - k).toNat = c at hnear ⊢
  rw [← sub_mul, abs_mul, abs_of_pos (ten_zpow_pos k), mul_lt_iff_lt_one_left (ten_zpow_pos k)]
    at hnear
  have hsame : |(c : Int) - i| < 1 := by exact_mod_cast hnear
  obtain rfl : c = i := by
    have := Int.abs_lt_one_iff.1 hsame
    omega
  rfl

/-- The search ends on the coarsest grid with a point, if there is one among those it goes
through and none before them. -/
theorem isShortest_search (h : Double.IsPlace m q) {grids : Nat}
    (hcoarser : ∀ j, k < j → ∀ i : Nat, ¬ RoundsTo (i * 10 ^ j) m q)
    (hpoint : ∃ j, k - grids < j ∧ ∃ i : Nat, RoundsTo (i * 10 ^ j) m q) :
    IsShortest m q (search m q grids k).toRat := by
  induction grids generalizing k with
  | zero =>
    obtain ⟨j, hj, i, hi⟩ := hpoint
    exact absurd hi (hcoarser j (by simpa using hj) i)
  | succ grids ih =>
    rw [search]
    split
    · next n hn => exact ⟨k, n, rfl, isNearestOn_of_pointOn? h hn, hcoarser⟩
    · next hnone =>
      refine ih (fun j hj i => ?_) ?_
      · obtain rfl | hlt := (Int.add_one_le_of_lt hj).eq_or_lt
        · simpa using pointOn?_eq_none h hnone i
        · exact hcoarser j (by omega) i
      · obtain ⟨j, hj, hi⟩ := hpoint
        exact ⟨j, by push_cast at hj; omega, hi⟩

/-- Doubles are below all points but zero of the grids that are coarser than the first one. -/
theorem not_roundsTo_of_gt (h : Double.IsPlace m q) {j : Int} (hj : 309 < j) (i : Nat) :
    ¬ RoundsTo (i * 10 ^ j) m q := by
  intro hi
  have hpos := h.pos_of_roundsTo hi
  have hone : (1 : ℚ) ≤ i := by
    have : i ≠ 0 := by
      rintro rfl
      simp at hpos
    exact_mod_cast Nat.one_le_iff_ne_zero.2 this
  have hlarge : (10 : ℚ) ^ (310 : Int) ≤ i * 10 ^ j :=
    calc (10 : ℚ) ^ (310 : Int) ≤ 10 ^ j := zpow_le_zpow_right₀ (by norm_num) (by omega)
      _ ≤ i * 10 ^ j := le_mul_of_one_le_left (ten_zpow_pos j).le hone
  have hnear := (abs_le.1 (h.abs_sub_le hi)).2
  have hm : (m : ℚ) + 1 ≤ 2 ^ 53 := by exact_mod_cast h.lt
  have hunit := two_zpow_pos q
  have hsmall : (i * 10 ^ j : ℚ) < 2 ^ (1024 : Int) :=
    calc (i * 10 ^ j : ℚ) ≤ (m + 1 / 2) * 2 ^ q := by linarith
      _ < 2 ^ 53 * 2 ^ q := mul_lt_mul_of_pos_right (by linarith) hunit
      _ = 2 ^ (53 + q) := by rw [zpow_add₀ (by norm_num)]; norm_num
      _ ≤ 2 ^ (1024 : Int) := zpow_le_zpow_right₀ (by norm_num) (by have := h.greatest; omega)
  have hbound : (2 : ℚ) ^ (1024 : Int) < 10 ^ (310 : Int) := by
    have : 2 ^ 1024 < 10 ^ 310 := by decide +kernel
    exact_mod_cast this
  exact (hsmall.trans hbound).not_ge hlarge

/-- A number with no more than so many binary places has no more decimal ones. -/
theorem exists_eq_mul_ten_zpow (m : Nat) {q : Int} (places : Nat) (h : -places ≤ q) :
    ∃ i : Nat, (i * 10 ^ (-places : Int) : ℚ) = m * 2 ^ q := by
  refine ⟨m * 2 ^ (q + places).toNat * 5 ^ places, ?_⟩
  have hq : (2 : ℚ) ^ q = 2 ^ (q + places).toNat * 2 ^ (-places : Int) := by
    rw [← zpow_natCast, ← zpow_add₀ (by norm_num)]
    congr 1
    omega
  have hten : (10 : ℚ) ^ (-places : Int) = 2 ^ (-places : Int) * 5 ^ (-places : Int) := by
    rw [← mul_zpow]
    norm_num
  have hfive : (5 : ℚ) ^ places * 5 ^ (-places : Int) = 1 := by
    rw [← zpow_natCast, ← zpow_add₀ (by norm_num), add_neg_cancel, zpow_zero]
  rw [hq, hten]
  push_cast
  linear_combination m * 2 ^ (q + places).toNat * 2 ^ (-places : Int) * hfive

/-- The decimal that is found is the shortest one. -/
theorem isShortest_shortest (h : Double.IsPlace m q) : IsShortest m q (shortest m q).toRat := by
  obtain ⟨i, hi⟩ := exists_eq_mul_ten_zpow m 1074 h.least
  exact isShortest_search h (fun j hj => not_roundsTo_of_gt h hj)
    ⟨-1074, by norm_num, i, hi ▸ h.roundsTo_self⟩

theorem isShortest_ofDouble {d : Double} (h : d.IsPositive) :
    IsShortest d.significand d.exponent (ofDouble d).toRat :=
  isShortest_shortest h.isPlace

end TemporalBindings.Number.Decimal
