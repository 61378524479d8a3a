import TemporalBindings.Schema.Message
import TemporalBindings.Text.Cut

/-!
# TemporalBindings.Schema.Default

Declared defaults of fields. A default is written as text, whatever the type of the
field.
-/

namespace TemporalBindings.Schema

open Number

/-! ## Whole numbers -/

/-- The number written by decimal digits, of which there has to be one. -/
def readDigits (cs : List Char) : Option Nat :=
  if cs ≠ [] ∧ cs.all Char.isDigit then
    some (cs.foldl (fun n c => 10 * n + (c.toNat - '0'.toNat)) 0)
  else none

/-- The number written by decimal digits behind an optional sign. -/
def readInt : List Char → Option Int
  | '-' :: cs => (readDigits cs).map fun n => -(n : Int)
  | '+' :: cs => (readDigits cs).map fun n => (n : Int)
  | cs => (readDigits cs).map fun n => (n : Int)

/-- An integer between two bounds. -/
def readIntIn (low high : Int) (cs : List Char) : Option Int :=
  (readInt cs).filter fun n => low ≤ n && n ≤ high

/-- A natural number up to a bound. It has no minus, even if it is zero. -/
def readNatUpTo (high : Nat) (cs : List Char) : Option Nat :=
  if cs.head? = some '-' then none
  else (readInt cs).bind fun n => if n ≤ high then some n.toNat else none

/-! ## Floating-point numbers -/

/-- An unsigned number as a default writes it. -/
inductive Magnitude
  | infinite
  | notANumber
  /-- The number `coefficient · 10 ^ exponent`. -/
  | decimal (coefficient : Nat) (exponent : Int)
  deriving DecidableEq

/-- The bits of a magnitude in a format. -/
def Magnitude.bits (format : FloatFormat) : Magnitude → Nat
  | .infinite => format.infinity
  | .notANumber => format.notANumber
  | .decimal coefficient exponent => format.roundDecimal coefficient exponent

/-- The number written by digits with at most one point among them, or before or behind
them, times a power of ten. -/
def readMantissa (cs : List Char) (exponent : Int) : Option Magnitude :=
  let (whole, places) := (Text.cut? '.' cs).getD (cs, [])
  (readDigits (whole ++ places)).map fun n => .decimal n (exponent - places.length)

/-- A number in decimal notation, with or without an exponent, or the name of an
infinity or a NaN, whatever the case of its letters. -/
def readMagnitude (cs : List Char) : Option Magnitude :=
  let small := cs.map Char.toLower
  if small ∈ ["inf".toList, "infinity".toList] then some .infinite
  else if small = "nan".toList then some .notANumber
  else match Text.cut? 'e' small with
    | none => readMantissa small 0
    | some (mantissa, exponent) => (readInt exponent).bind (readMantissa mantissa)

/-- The bits of the number of a format that a text with an optional sign means. -/
def readFloat (format : FloatFormat) (cs : List Char) : Option Nat :=
  match cs with
  | '-' :: cs => (readMagnitude cs).map fun m => format.sign + m.bits format
  | '+' :: cs => (readMagnitude cs).map fun m => m.bits format
  | cs => (readMagnitude cs).map fun m => m.bits format

/-! ## Bytes -/

/-- The value of a digit in a base up to 16. -/
def digitValue? (base : Nat) (c : Char) : Option Nat :=
  let value :=
    if c.isDigit then c.toNat - '0'.toNat
    else if 'a' ≤ c.toLower ∧ c.toLower ≤ 'f' then c.toLower.toNat - 'a'.toNat + 10
    else base
  if value < base then some value else none

/-- The byte written by two hexadecimal digits. A plus may stand for the first. -/
def hexByte? (first second : Char) : Option UInt8 := do
  let high ← if first = '+' then some 0 else digitValue? 16 first
  let low ← digitValue? 16 second
  some (UInt8.ofNat (16 * high + low))

/-- The byte written by up to three octal digits, the first of which is known, and the
rest of the text. Of a number that is too large the low bits count. -/
def readOctal (first : Nat) (cs : List Char) : UInt8 × List Char :=
  match cs with
  | [] => (UInt8.ofNat first, [])
  | c :: rest =>
    match digitValue? 8 c with
    | none => (UInt8.ofNat first, cs)
    | some second =>
      match rest with
      | [] => (UInt8.ofNat (8 * first + second), [])
      | d :: rest' =>
        match digitValue? 8 d with
        | none => (UInt8.ofNat (8 * first + second), rest)
        | some third => (UInt8.ofNat (64 * first + 8 * second + third), rest')

/-- The byte that is written behind a backslash, and the rest of the text. -/
def readEscape : List Char → Option (UInt8 × List Char)
  | [] => none
  | 'a' :: rest => some (7, rest)
  | 'b' :: rest => some (8, rest)
  | 'f' :: rest => some (12, rest)
  | 'n' :: rest => some (10, rest)
  | 'r' :: rest => some (13, rest)
  | 't' :: rest => some (9, rest)
  | 'v' :: rest => some (11, rest)
  | 'x' :: a :: b :: rest | 'X' :: a :: b :: rest => (hexByte? a b).map (·, rest)
  | c :: rest =>
    if c ∈ ['\\', '?', '\'', '"'] then some (UInt8.ofNat c.toNat, rest)
    else (digitValue? 8 c).map fun first => readOctal first rest

/-- The bytes that a text with escapes means. An escape takes up at least one
character, so as much `fuel` as there are characters is enough. -/
def unescape : Nat → List Char → Option (List UInt8)
  | _, [] => some []
  | 0, _ :: _ => none
  | fuel + 1, c :: cs =>
    if c = '\\' then do
      let (b, rest) ← readEscape cs
      (unescape fuel rest).map (b :: ·)
    else (unescape fuel cs).map (String.utf8EncodeChar c ++ ·)

/-- The bytes that a text with escapes means. -/
def readBytesText (cs : List Char) : Option (List UInt8) :=
  unescape cs.length cs

/-! ## Defaults -/

/-- A declared default of a type. -/
def Scalar.readDefault (text : String) (s : Scalar) : Option Leaf :=
  let cs := text.toList
  match s with
  | .double => (readFloat .double cs).map fun bits => .f64 ⟨UInt64.ofNat bits⟩
  | .float => (readFloat .single cs).map fun bits => .f32 (UInt32.ofNat bits)
  | .int32 | .sint32 | .sfixed32 =>
    (readIntIn Int32.minValue.toInt Int32.maxValue.toInt cs).map fun n => .i32 (.ofInt n)
  | .int64 | .sint64 | .sfixed64 =>
    (readIntIn Int64.minValue.toInt Int64.maxValue.toInt cs).map fun n => .i64 (.ofInt n)
  | .uint32 | .fixed32 => (readNatUpTo (UInt32.size - 1) cs).map fun n => .u32 (.ofNat n)
  | .uint64 | .fixed64 => (readNatUpTo (UInt64.size - 1) cs).map fun n => .u64 (.ofNat n)
  | .bool =>
    if text = "true" then some (.bool true)
    else if text = "false" then some (.bool false)
    else none
  | .string => some (.string text)
  | .bytes => (readBytesText cs).map .bytes

end TemporalBindings.Schema
