import TemporalBindings.Number.Decimal

/-!
# TemporalBindings.Source.Numeral

Numbers as the generated source writes them. A double has the digits of its
shortest decimal, with a point only if digits follow it. It is written with an
exponent iff it is not zero and its leading digit stands below the fourth place
behind the point or above the sixth before it; the exponent has a sign and at
least two digits.
-/

namespace TemporalBindings.Source

open Number

/-! ## Whole numbers -/

/-- The decimal digits of a natural number. -/
def natText (n : Nat) : List Char :=
  Nat.toDigits 10 n

/-- The decimal digits of an integer behind its sign, if that is a minus. -/
def intText (n : Int) : List Char :=
  if n < 0 then '-' :: natText n.natAbs else natText n.natAbs

/-! ## Doubles -/

/-- A decimal without an exponent. -/
def positional (d : Decimal) : List Char :=
  let ds := d.digits
  if 0 ≤ d.exponent then ds ++ List.replicate d.exponent.toNat '0'
  else
    let places := (-d.exponent).toNat
    if places < ds.length then ds.take (ds.length - places) ++ '.' :: ds.drop (ds.length - places)
    else '0' :: '.' :: List.replicate (places - ds.length) '0' ++ ds

/-- A decimal with an exponent: the first digit, the others behind a point, and the
exponent of the first digit. -/
def scientific (d : Decimal) : List Char :=
  let mantissa := match d.digits with
    | [] => []
    | [c] => [c]
    | c :: cs => c :: '.' :: cs
  let size := natText d.leading.natAbs
  mantissa ++ ['e', if d.leading < 0 then '-' else '+'] ++
    List.replicate (2 - size.length) '0' ++ size

/-- The leading places that are written without an exponent. -/
def isPositional (d : Decimal) : Bool :=
  -4 ≤ d.leading && d.leading < 6

/-- The magnitude of a finite double that is not zero. -/
def magnitudeText (d : Decimal) : List Char :=
  if isPositional d then positional d else scientific d

/-- A double. -/
def floatText (d : Double) : List Char :=
  if d.isNaN then ['N', 'a', 'N']
  else
    (if d.negative then ['-'] else []) ++
      if !d.isFinite then ['i', 'n', 'f']
      else if d.isZero then ['0']
      else magnitudeText (.ofDouble d)

end TemporalBindings.Source
