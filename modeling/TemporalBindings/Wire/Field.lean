import TemporalBindings.Wire.Varint

/-!
# TemporalBindings.Wire.Field

Serialized messages as trees. A message is a sequence of fields; a field is a key,
which holds its number and the kind of its content, followed by the content:

```
varint      key(n, 0)  varint
fixed64     key(n, 1)  8 bytes, least significant first
bytes       key(n, 2)  varint length, bytes
group       key(n, 3)  fields  key(n, 4)
fixed32     key(n, 5)  4 bytes, least significant first
```

The tree knows nothing of the message's type. In particular the content of a
nested message is left as bytes, and only groups are taken apart.
-/

namespace TemporalBindings.Wire

/-- A field of a serialized message: its number and its content. -/
inductive Field
  | varint (number : Nat) (value : UInt64)
  | fixed64 (number : Nat) (value : UInt64)
  | bytes (number : Nat) (value : List UInt8)
  | group (number : Nat) (fields : List Field)
  | fixed32 (number : Nat) (value : UInt32)

/-! ## Parts -/

/-- What follows a key. -/
inductive Kind
  | varint
  | fixed64
  | bytes
  | groupStart
  | groupEnd
  | fixed32
  deriving DecidableEq

/-- The low three bits of a key. -/
def Kind.code : Kind → Nat
  | .varint => 0
  | .fixed64 => 1
  | .bytes => 2
  | .groupStart => 3
  | .groupEnd => 4
  | .fixed32 => 5

/-- The kind with a given code; 6 and 7 are no codes. -/
def Kind.ofCode? : Nat → Option Kind
  | 0 => some .varint
  | 1 => some .fixed64
  | 2 => some .bytes
  | 3 => some .groupStart
  | 4 => some .groupEnd
  | 5 => some .fixed32
  | _ => none

theorem Kind.ofCode?_code (k : Kind) : Kind.ofCode? k.code = some k := by
  cases k <;> rfl

/-- Writes a key. -/
def writeKey (number : Nat) (kind : Kind) : List UInt8 :=
  Varint.write (UInt64.ofNat (8 * number + kind.code))

/-- Reads a key. It has at most 32 bits, and its number is at least 1. -/
def readKey (bytes : List UInt8) : Option (Nat × Kind × List UInt8) := do
  let (key, rest) ← Varint.read bytes
  let kind ← Kind.ofCode? (key.toNat % 8)
  if 8 ≤ key.toNat ∧ key.toNat < UInt32.size then some (key.toNat / 8, kind, rest) else none

/-- The `size` lowest bytes of a number, the least significant first. -/
def writeFixed : Nat → Nat → List UInt8
  | 0, _ => []
  | size + 1, v => UInt8.ofNat (v % 256) :: writeFixed size (v / 256)

/-- Reads `size` bytes as a number, the least significant first. -/
def readFixed : Nat → List UInt8 → Option (Nat × List UInt8)
  | 0, bytes => some (0, bytes)
  | _ + 1, [] => none
  | size + 1, b :: bytes => (readFixed size bytes).map fun (v, rest) => (b.toNat + 256 * v, rest)

/-- Writes bytes behind their number. -/
def writeBytes (bytes : List UInt8) : List UInt8 :=
  Varint.write (UInt64.ofNat bytes.length) ++ bytes

/-- Reads bytes behind their number. -/
def readBytes (bytes : List UInt8) : Option (List UInt8 × List UInt8) := do
  let (size, rest) ← Varint.read bytes
  if size.toNat ≤ rest.length then some (rest.take size.toNat, rest.drop size.toNat) else none

/-! ## Writing -/

/-- The content of a field that is no group, which is all that stands for it where
fields of one number are packed. -/
def Field.content : Field → List UInt8
  | .varint _ v => Varint.write v
  | .fixed64 _ v => writeFixed 8 v.toNat
  | .bytes _ b => writeBytes b
  | .group _ _ => []
  | .fixed32 _ v => writeFixed 4 v.toNat

mutual

/-- The bytes of a field. -/
def Field.write : Field → List UInt8
  | .varint n v => writeKey n .varint ++ Varint.write v
  | .fixed64 n v => writeKey n .fixed64 ++ writeFixed 8 v.toNat
  | .bytes n b => writeKey n .bytes ++ writeBytes b
  | .group n fs => writeKey n .groupStart ++ writeFields fs ++ writeKey n .groupEnd
  | .fixed32 n v => writeKey n .fixed32 ++ writeFixed 4 v.toNat

/-- The bytes of a message: those of its fields in order. -/
def writeFields : List Field → List UInt8
  | [] => []
  | f :: fs => f.write ++ writeFields fs

end

/-! ## Reading -/

/-- Reads the content of a field that is no group. -/
def readContent (number : Nat) : Kind → List UInt8 → Option (Field × List UInt8)
  | .varint, bytes => (Varint.read bytes).map fun (v, rest) => (.varint number v, rest)
  | .fixed64, bytes =>
    (readFixed 8 bytes).map fun (v, rest) => (.fixed64 number (UInt64.ofNat v), rest)
  | .bytes, bytes => (readBytes bytes).map fun (v, rest) => (.bytes number v, rest)
  | .fixed32, bytes =>
    (readFixed 4 bytes).map fun (v, rest) => (.fixed32 number (UInt32.ofNat v), rest)
  | .groupStart, _ | .groupEnd, _ => none

/-- Reads fields up to the end of the group `opened`, or up to the end of the bytes
if no group is open. Every field takes at least one byte, so as much `fuel` as
there are bytes, and one more, is enough. -/
def readUpTo : Nat → Option Nat → List UInt8 → Option (List Field × List UInt8)
  | 0, _, _ => none
  | _ + 1, none, [] => some ([], [])
  | _ + 1, some _, [] => none
  | fuel + 1, opened, b :: bs => do
    let (n, kind, rest) ← readKey (b :: bs)
    match kind with
    | .groupEnd => if opened = some n then some ([], rest) else none
    | .groupStart =>
      let (inner, rest) ← readUpTo fuel (some n) rest
      let (fs, rest) ← readUpTo fuel opened rest
      some (.group n inner :: fs, rest)
    | kind =>
      let (f, rest) ← readContent n kind rest
      let (fs, rest) ← readUpTo fuel opened rest
      some (f :: fs, rest)

/-- The fields of a message; `none` if the bytes are not those of a message. -/
def readFields (bytes : List UInt8) : Option (List Field) :=
  (readUpTo (bytes.length + 1) none bytes).map (·.1)

/-- Reads a field whose key has been read. -/
def readField (number : Nat) (kind : Kind) (bytes : List UInt8) : Option (Field × List UInt8) :=
  match kind with
  | .groupStart =>
    (readUpTo (bytes.length + 1) (some number) bytes).map fun (fs, rest) =>
      (.group number fs, rest)
  | kind => readContent number kind bytes

/-! ## Limits -/

/-- The levels of nesting that messages may have. -/
def maxDepth : Nat := 100

/-- Whether an undeclared field may be passed over with `depth` levels of nesting
left: every group takes one, and so does the field itself. -/
def Field.fits : Nat → Field → Bool
  | 0, _ => false
  | depth + 1, .group _ fs => fs.all (Field.fits depth)
  | _ + 1, _ => true

/-- Passes over an undeclared field on the way to `x`. -/
def passOver {α : Type} (depth : Nat) (f : Field) (x : α) : Option α :=
  if f.fits depth then some x else none

/-- Whether an undeclared field may be kept with `depth` levels of nesting left: every
group takes one, and nothing else does. -/
def Field.nestsWithin : Nat → Field → Bool
  | 0, .group _ _ => false
  | depth + 1, .group _ fs => fs.all (Field.nestsWithin depth)
  | _, _ => true

/-! ## Fields of a known type

The content of a field as a value of a type that a message may declare for it. -/

namespace Field

/-- The number of a field. -/
def number : Field → Nat
  | .varint n _ | .fixed64 n _ | .bytes n _ | .group n _ | .fixed32 n _ => n

/-- An unsigned 64-bit number. -/
def uint64? : Field → Option UInt64
  | .varint _ v => some v
  | _ => none

/-- Eight bytes. -/
def fixed64? : Field → Option UInt64
  | .fixed64 _ v => some v
  | _ => none

/-- Four bytes. -/
def fixed32? : Field → Option UInt32
  | .fixed32 _ v => some v
  | _ => none

/-- A signed 32-bit number: the low 32 bits of a varint. -/
def int32? (f : Field) : Option Int32 :=
  f.uint64?.map fun v => v.toUInt32.toInt32

/-- A truth value: any number but zero is true. -/
def bool? (f : Field) : Option Bool :=
  f.uint64?.map (· ≠ 0)

/-- Bytes. -/
def bytes? : Field → Option (List UInt8)
  | .bytes _ b => some b
  | _ => none

/-- A text, which has to be valid UTF-8. -/
def string? (f : Field) : Option String :=
  f.bytes?.bind fun b => String.fromUTF8? b.toByteArray

/-- The fields of a nested message. -/
def message? (f : Field) : Option (List Field) :=
  f.bytes?.bind readFields

end Field

/-! ## Packed fields

Numbers of a repeated field may come in one field of bytes, one after the other and
without keys. -/

/-- Reads contents of one kind as fields of a given number. -/
def unpack (number : Nat) (kind : Kind) : Nat → List UInt8 → Option (List Field)
  | _, [] => some []
  | 0, _ :: _ => none
  | fuel + 1, b :: bs => do
    let (f, rest) ← readContent number kind (b :: bs)
    (unpack number kind fuel rest).map (f :: ·)

/-- The fields that one field of a repeated field stands for, where each content is
of the given kind: itself, or those packed in it. -/
def Field.elements? (kind : Kind) : Field → Option (List Field)
  | .bytes n b => if kind = .bytes then some [.bytes n b] else unpack n kind b.length b
  | f => some [f]

end TemporalBindings.Wire
