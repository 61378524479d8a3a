/-!
# TemporalBindings.Number.FloatFormat

Binary floating-point formats, and the number of a format that is nearest to a
quotient of natural numbers. A finite magnitude is `significand · 2 ^ exponent`; its
bits, read as a number, grow with it, so that rounding up past the end of a binade
needs no case of its own. A tie goes to the even significand.
-/

namespace TemporalBindings.Number

/-- The natural number nearest to `num / den`; of two equally near ones the even
one. -/
def roundDiv (num den : Nat) : Nat :=
  let low := num / den
  if 2 * (num % den) < den then low
  else if den < 2 * (num % den) then low + 1
  else if low % 2 = 0 then low else low + 1

/-- A format: the bits of its fraction and those of its exponent. -/
structure FloatFormat where
  fractionBits : Nat
  exponentBits : Nat
  deriving DecidableEq

namespace FloatFormat

/-- Double precision. -/
def double : FloatFormat := ⟨52, 11⟩

/-- Single precision. -/
def single : FloatFormat := ⟨23, 8⟩

/-- The exponent of the last place of the smallest numbers. -/
def leastPlace (f : FloatFormat) : Int :=
  2 - (1 <<< (f.exponentBits - 1) : Nat) - f.fractionBits

/-- The exponent of the last place of the number nearest to `num / den`: the least
one at or above `leastPlace` for which the significand fits. -/
def lastPlace (f : FloatFormat) (num den : Nat) : Int :=
  let e : Int := num.log2 - den.log2
  let below := num <<< (-e).toNat < den <<< e.toNat
  max f.leastPlace ((if below then e - 1 else e) - f.fractionBits)

/-- The bits of infinity. -/
def infinity (f : FloatFormat) : Nat :=
  ((1 <<< f.exponentBits) - 1) <<< f.fractionBits

/-- The bits of a NaN, the one with only the highest bit of the fraction. -/
def notANumber (f : FloatFormat) : Nat :=
  f.infinity + (1 <<< (f.fractionBits - 1))

/-- The bits that make a magnitude negative. -/
def sign (f : FloatFormat) : Nat :=
  1 <<< (f.exponentBits + f.fractionBits)

/-- The bits of the number nearest to the quotient `num / den`. A quotient beyond the
range of finite numbers gives infinity. -/
def round (f : FloatFormat) (num den : Nat) : Nat :=
  if num = 0 then 0 else
    let q := f.lastPlace num den
    let m := roundDiv (num <<< (-q).toNat) (den <<< q.toNat)
    min (((q - f.leastPlace).toNat <<< f.fractionBits) + m) f.infinity

/-- The bits of the number nearest to the decimal `coefficient · 10 ^ exponent`. What
is far beyond the range of every format is not computed. -/
def roundDecimal (f : FloatFormat) (coefficient : Nat) (exponent : Int) : Nat :=
  let leading := exponent + (Nat.toDigits 10 coefficient).length
  if coefficient = 0 ∨ leading < -400 then 0
  else if 400 < leading then f.infinity
  else f.round (coefficient * Nat.pow 10 exponent.toNat) (Nat.pow 10 (-exponent).toNat)

end FloatFormat

end TemporalBindings.Number
