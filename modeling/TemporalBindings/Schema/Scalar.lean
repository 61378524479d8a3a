import TemporalBindings.Number.Double
import TemporalBindings.Wire.Field

/-!
# TemporalBindings.Schema.Scalar

Single values that are not messages: their types, and how the content of a field
stands for them. Numbers are either varints, some of them in zigzag code, or have a
fixed size; a varint that is too large for its type loses its high bits.
-/

namespace TemporalBindings.Schema

open Wire Number

/-! ## Types and values -/

/-- The type of a single value that is neither a message nor of an enum. -/
inductive Scalar
  | double
  | float
  | int64
  | uint64
  | int32
  | fixed64
  | fixed32
  | bool
  | string
  | bytes
  | uint32
  | sfixed32
  | sfixed64
  | sint32
  | sint64
  deriving DecidableEq

/-- A single value that is not a message. A float is given by its bits. -/
inductive Leaf
  | bool (b : Bool)
  | i32 (n : Int32)
  | i64 (n : Int64)
  | u32 (n : UInt32)
  | u64 (n : UInt64)
  | f32 (bits : UInt32)
  | f64 (d : Double)
  | string (s : String)
  | bytes (b : List UInt8)
  | enum (number : Int32)
  deriving DecidableEq

/-- The zero value of a type. -/
def Scalar.zero : Scalar → Leaf
  | .double => .f64 .zero
  | .float => .f32 0
  | .int64 | .sfixed64 | .sint64 => .i64 0
  | .uint64 | .fixed64 => .u64 0
  | .int32 | .sfixed32 | .sint32 => .i32 0
  | .uint32 | .fixed32 => .u32 0
  | .bool => .bool false
  | .string => .string ""
  | .bytes => .bytes []

/-- Whether the bits are those of a NaN in single precision. -/
def isSingleNaN (bits : UInt32) : Bool :=
  255 <<< 23 < bits.toNat % (1 <<< 31)

/-- Whether two values are the same number, text or truth value. Zeros of both signs
are the same number, and a NaN is not the same as anything. -/
def Leaf.same : Leaf → Leaf → Bool
  | .f64 a, .f64 b => !a.isNaN && (a = b || (a.isZero && b.isZero))
  | .f32 a, .f32 b =>
    !isSingleNaN a && (a = b || (a.toNat % (1 <<< 31) = 0 && b.toNat % (1 <<< 31) = 0))
  | a, b => a = b

/-! ## On the wire -/

/-- The kind of the content of a field of a type. -/
def Scalar.kind : Scalar → Kind
  | .double | .fixed64 | .sfixed64 => .fixed64
  | .float | .fixed32 | .sfixed32 => .fixed32
  | .string | .bytes => .bytes
  | .int64 | .uint64 | .int32 | .bool | .uint32 | .sint32 | .sint64 => .varint

/-- The number that a zigzag code stands for: codes 0, 1, 2, 3 stand for 0, -1, 1,
-2. -/
def zigzag (code : Nat) : Int :=
  if code % 2 = 0 then code / 2 else -(code / 2 : Nat) - 1

/-- The zigzag code of a number. -/
def zigzagCode (n : Int) : Nat :=
  if 0 ≤ n then 2 * n.toNat else 2 * (-n).toNat - 1

theorem zigzag_zigzagCode (n : Int) : zigzag (zigzagCode n) = n := by
  unfold zigzag zigzagCode
  split <;> split <;> omega

/-- The content of a field as a value of a type. -/
def Scalar.read (s : Scalar) (f : Field) : Option Leaf :=
  match s with
  | .double => f.fixed64?.map fun v => .f64 ⟨v⟩
  | .float => f.fixed32?.map .f32
  | .int64 => f.uint64?.map fun v => .i64 v.toInt64
  | .uint64 => f.uint64?.map .u64
  | .int32 => f.int32?.map .i32
  | .fixed64 => f.fixed64?.map .u64
  | .fixed32 => f.fixed32?.map .u32
  | .bool => f.bool?.map .bool
  | .string => f.string?.map .string
  | .bytes => f.bytes?.map .bytes
  | .uint32 => f.uint64?.map fun v => .u32 v.toUInt32
  | .sfixed32 => f.fixed32?.map fun v => .i32 v.toInt32
  | .sfixed64 => f.fixed64?.map fun v => .i64 v.toInt64
  | .sint32 => f.uint64?.map fun v => .i32 (Int32.ofInt (zigzag v.toUInt32.toNat))
  | .sint64 => f.uint64?.map fun v => .i64 (Int64.ofInt (zigzag v.toNat))

/-- The content of a field as a value of an enum. -/
def readEnum (f : Field) : Option Leaf :=
  f.int32?.map .enum

/-- The field with a value of a type. -/
def Scalar.write (number : Nat) : Scalar → Leaf → Field
  | _, .bool b => .varint number (if b then 1 else 0)
  | .sfixed32, .i32 n => .fixed32 number n.toUInt32
  | .sint32, .i32 n => .varint number (UInt64.ofNat (zigzagCode n.toInt))
  | _, .i32 n => .varint number n.toInt64.toUInt64
  | .sfixed64, .i64 n => .fixed64 number n.toUInt64
  | .sint64, .i64 n => .varint number (UInt64.ofNat (zigzagCode n.toInt))
  | _, .i64 n => .varint number n.toUInt64
  | .fixed32, .u32 n => .fixed32 number n
  | _, .u32 n => .varint number n.toUInt64
  | .fixed64, .u64 n => .fixed64 number n
  | _, .u64 n => .varint number n
  | _, .f32 bits => .fixed32 number bits
  | _, .f64 d => .fixed64 number d.bits
  | _, .string s => .bytes number s.toUTF8.data.toList
  | _, .bytes b => .bytes number b
  | _, .enum n => .varint number n.toInt64.toUInt64

end TemporalBindings.Schema
