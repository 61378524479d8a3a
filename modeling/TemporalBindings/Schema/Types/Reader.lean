import TemporalBindings.Schema.Types

/-!
# TemporalBindings.Schema.Types.Reader

Reading messages of known types. How a field is read depends on its type, and for
two kinds of fields its extent does too, so a message is read from its bytes and not
from a tree of fields:

* an entry of a map is bytes behind their number, whatever kind the key announces;
* a group ends with a key of its own.

Messages and groups take a level of nesting each. The entries of a map take none; in
them only the key and the value are read, and anything else is passed over.
-/

namespace TemporalBindings.Schema

open Wire

/-- What is being read: a message that takes up all the bytes, a group of a given
number, or an entry of a map, which takes up all the bytes. -/
inductive Extent
  | message
  | group (number : Nat)
  | entry
  deriving DecidableEq

/-- Whether fields of a number count in what is being read. -/
def Extent.has (extent : Extent) (number : Nat) : Bool :=
  extent ≠ .entry || number ∈ entryNumbers

/-- Reads fields into a message, with some levels of nesting left, and returns the
bytes behind them. -/
abbrev MessageReader :=
  Nat → Extent → Message → List UInt8 → Option (Message × List UInt8)

namespace Types

/-! ## One field -/

/-- The message after one more undeclared field. -/
def addUndeclared (ts : Types) (depth : Nat) (m : Message) (f : Field) : Option Message :=
  if ts.keepsUndeclared then
    if f.nestsWithin depth then some (m.keep f) else none
  else passOver depth f m

/-- The message after one more single value of a field, or several packed ones. -/
def addLeaves (m : Message) (t : FieldType) (f : Field) (kind : Kind) (read : Field → Option Leaf) :
    Option Message :=
  if t.repeated then do
    let fs ← f.elements? kind
    let vs ← fs.mapM read
    some (m.extend t (vs.map .leaf))
  else (read f).map fun v => m.store t (.leaf v)

/-- Reads a field whose key has been read, and adds it to a message. -/
def readPlain (number : Nat) (kind : Kind) (bytes : List UInt8) (add : Field → Option Message) :
    Option (Message × List UInt8) := do
  let (f, rest) ← readField number kind bytes
  let m ← add f
  some (m, rest)

/-- The message after one more message of a field, with `depth` levels of nesting
left, and the bytes behind it. -/
def readNestedMessage (ts : Types) (depth : Nat) (read : MessageReader) (m : Message)
    (t : FieldType) (name : String) (bytes : List UInt8) : Option (Message × List UInt8) := do
  let type ← ts.message? name
  let (inner, rest) ← readBytes bytes
  match depth with
  | 0 => none
  | depth + 1 =>
    let (nested, _) ← read depth .message (m.base t type) inner
    some (m.storeMessage t nested, rest)

/-- The message after one more group of a field, with `depth` levels of nesting left,
and the bytes behind it. -/
def readNestedGroup (ts : Types) (depth : Nat) (read : MessageReader) (m : Message)
    (t : FieldType) (name : String) (bytes : List UInt8) : Option (Message × List UInt8) := do
  let type ← ts.message? name
  match depth with
  | 0 => none
  | depth + 1 =>
    let (nested, rest) ← read depth (.group t.number) (m.base t type) bytes
    some (m.storeMessage t nested, rest)

/-- The message after one more entry of a map, and the bytes behind it. -/
def readMapEntry (ts : Types) (depth : Nat) (read : MessageReader) (m : Message) (t : FieldType)
    (name : String) (bytes : List UInt8) : Option (Message × List UInt8) := do
  let type ← ts.message? name
  let (inner, rest) ← readBytes bytes
  let (entry, _) ← read depth .entry (ts.newEntry type) inner
  some (m.enter t entry, rest)

/-- The message after one more field whose key has been read, and the bytes behind
it. `read` reads what is nested in the field. -/
def readStep (ts : Types) (depth : Nat) (read : MessageReader) (m : Message) (number : Nat)
    (kind : Kind) (bytes : List UInt8) : Option (Message × List UInt8) :=
  match ts.field? m.type number with
  | none => readPlain number kind bytes (ts.addUndeclared depth m)
  | some t =>
    match t.kind with
    | .scalar s => readPlain number kind bytes fun f => addLeaves m t f s.kind s.read
    | .enum => readPlain number kind bytes fun f => addLeaves m t f .varint readEnum
    | .message name =>
      if kind = .bytes then ts.readNestedMessage depth read m t name bytes else none
    | .group name =>
      if kind = .groupStart then ts.readNestedGroup depth read m t name bytes else none
    | .map name => ts.readMapEntry depth read m t name bytes

/-! ## All fields -/

/-- Reads fields into a message up to the end of what is being read. Every field takes
at least one byte, so as much `fuel` as there are bytes, and one more, is enough. -/
def readUntil (ts : Types) : Nat → MessageReader
  | 0, _, _, _, _ => none
  | _ + 1, _, extent, m, [] =>
    match extent with
    | .group _ => none
    | .message | .entry => some (m, [])
  | fuel + 1, depth, extent, m, b :: bs => do
    let (number, kind, rest) ← readKey (b :: bs)
    match kind, extent with
    | .groupEnd, .group opened => if number = opened then some (m, rest) else none
    | kind, extent =>
      if extent.has number then
        let (m, rest) ← ts.readStep depth (ts.readUntil fuel) m number kind rest
        ts.readUntil fuel depth extent m rest
      else
        let (f, rest) ← readField number kind rest
        let m ← passOver depth f m
        ts.readUntil fuel depth extent m rest

/-- The message after all fields in the bytes, with some levels of nesting left. -/
def readInto (ts : Types) (depth : Nat) (m : Message) (bytes : List UInt8) : Option Message :=
  (ts.readUntil (bytes.length + 1) depth .message m bytes).map (·.1)

end Types

end TemporalBindings.Schema
