import TemporalBindings.Number.FloatFormat

/-!
# TemporalBindings.Number.Double

Binary64 numbers by their bits. A finite double is `±significand · 2 ^ exponent`
with `significand < 2 ^ 53` and `exponent ≥ -1074`; infinities and NaNs fill the
last exponent field. All arithmetic here is exact arithmetic on natural numbers
with one rounding at its end.
-/

namespace TemporalBindings.Number

/-- A binary64 number, given by its bits: sign, 11 bits of exponent, 52 bits of
fraction. -/
structure Double where
  bits : UInt64
  deriving DecidableEq

namespace Double

/-! ## Fields and classes -/

/-- Whether the sign bit is set. -/
def negative (d : Double) : Bool :=
  1 <<< 63 ≤ d.bits.toNat

/-- The eleven bits of the exponent. -/
def exponentField (d : Double) : Nat :=
  (d.bits.toNat >>> 52) % 2048

/-- The 52 bits of the fraction. -/
def fraction (d : Double) : Nat :=
  d.bits.toNat % (1 <<< 52)

/-- Whether the number is neither infinite nor a NaN. -/
def isFinite (d : Double) : Bool :=
  d.exponentField ≠ 2047

/-- Whether the bits are those of a NaN. -/
def isNaN (d : Double) : Bool :=
  d.exponentField = 2047 && d.fraction ≠ 0

/-- Whether the number is zero, of either sign. -/
def isZero (d : Double) : Bool :=
  d.exponentField = 0 && d.fraction = 0

/-- The significand of a finite number: the fraction, with the hidden bit unless
the number is subnormal. -/
def significand (d : Double) : Nat :=
  if d.exponentField = 0 then d.fraction else (1 <<< 52) + d.fraction

/-- The exponent of the last place of a finite number. -/
def exponent (d : Double) : Int :=
  max 1 d.exponentField - 1075

/-- Positive zero. -/
def zero : Double :=
  ⟨0⟩

instance : Inhabited Double :=
  ⟨zero⟩

/-! ## Rounding a quotient -/

/-- The double nearest to the quotient `num / den`. A quotient beyond the range of
finite numbers gives infinity. -/
def ofRatio (num den : Nat) : Double :=
  ⟨UInt64.ofNat (FloatFormat.double.round num den)⟩

/-- The magnitude of a finite number as numerator and denominator. -/
def toRatio (d : Double) : Nat × Nat :=
  (d.significand <<< d.exponent.toNat, 1 <<< (-d.exponent).toNat)

/-- The double nearest to the sum of the magnitudes of two finite numbers. -/
def add (a b : Double) : Double :=
  ofRatio (a.toRatio.1 * b.toRatio.2 + b.toRatio.1 * a.toRatio.2) (a.toRatio.2 * b.toRatio.2)

end Double

end TemporalBindings.Number
