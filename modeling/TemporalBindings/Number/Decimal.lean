import TemporalBindings.Number.Double

/-!
# TemporalBindings.Number.Decimal

The shortest decimal of a double. The reals that round to a positive double
`m · 2 ^ q` form an interval, which contains its ends iff `m` is even. The grid at
`k` consists of the multiples of `10 ^ k`; grids are nested, the one at `k`
containing the one at `k + 1`. The shortest decimal is a point of the interval on
the coarsest grid that has one, and of those points the one nearest to the double,
the greater of two equally near ones.
-/

namespace TemporalBindings.Number

/-- The decimal number `coefficient · 10 ^ exponent`. -/
structure Decimal where
  coefficient : Nat
  exponent : Int
  deriving DecidableEq

namespace Decimal

/-! ## The interval of a double

The ends are measured in quarters of the last place. Below a power of two the
doubles lie half as far apart, so the lower end is nearer there. -/

/-- Four times the distance from zero to the lower end of the interval, in units
of the last place. -/
def lowEnd (m : Nat) (q : Int) : Nat :=
  if m = 1 <<< 52 ∧ -1074 < q then 4 * m - 1 else 4 * m - 2

/-- Four times the distance from zero to the upper end. -/
def highEnd (m : Nat) : Nat :=
  4 * m + 2

/-- The step of the grid at `k`, in the unit that makes both it and a quarter of
the last place whole. -/
def gridStep (q k : Int) : Nat :=
  Nat.pow 10 k.toNat <<< (2 - q).toNat

/-- A quarter of the last place in the same unit. -/
def quarter (q k : Int) : Nat :=
  Nat.pow 10 (-k).toNat <<< (q - 2).toNat

/-- Whether the point `n · 10 ^ k` reads back as `m · 2 ^ q`. -/
def readsBack (m : Nat) (q k : Int) (n : Nat) : Bool :=
  if m % 2 = 0 then
    lowEnd m q * quarter q k ≤ n * gridStep q k && n * gridStep q k ≤ highEnd m * quarter q k
  else
    lowEnd m q * quarter q k < n * gridStep q k && n * gridStep q k < highEnd m * quarter q k

/-! ## The search -/

/-- The point of the grid at `k` nearest to `m · 2 ^ q`, if one reads back. -/
def pointOn? (m : Nat) (q k : Int) : Option Nat :=
  let low := 4 * m * quarter q k / gridStep q k
  let rest := 4 * m * quarter q k % gridStep q k
  match readsBack m q k low, readsBack m q k (low + 1) with
  | true, true => some (if 2 * rest < gridStep q k then low else low + 1)
  | true, false => some low
  | false, true => some (low + 1)
  | false, false => none

/-- The point found on the coarsest of the grids at `k`, `k - 1`, …. -/
def search (m : Nat) (q : Int) : Nat → Int → Decimal
  | 0, k => ⟨0, k⟩
  | grids + 1, k =>
    match pointOn? m q k with
    | some n => ⟨n, k⟩
    | none => search m q grids (k - 1)

/-- The shortest decimal that reads back as `m · 2 ^ q`. Every double is below
`10 ^ 309` and lies itself on the grid at `-1074`, so the search ends with a
point. -/
def shortest (m : Nat) (q : Int) : Decimal :=
  search m q 1384 309

/-- The shortest decimal of the magnitude of a finite double that is not zero. -/
def ofDouble (d : Double) : Decimal :=
  shortest d.significand d.exponent

/-! ## Digits -/

/-- The digits of the coefficient, the most significant first. -/
def digits (d : Decimal) : List Char :=
  Nat.toDigits 10 d.coefficient

/-- The exponent of the first digit: the number is between `10` to that power and
the next. -/
def leading (d : Decimal) : Int :=
  d.exponent + d.digits.length - 1

end Decimal

end TemporalBindings.Number
