import TemporalBindings.Schema.Scalar

/-!
# TemporalBindings.Schema.Message

Message types and messages of types that are known only from descriptors. A message
holds the values that were set, by field number, and the fields that its type does
not declare. What a reader sees of it depends on the declared fields:

* a field with explicit presence is present iff it was set;
* a field without is present iff its value differs from the default, which is the
  empty list for a repeated field.

A field that is not present reads as its default.
-/

namespace TemporalBindings.Schema

/-! ## Types -/

/-- The type of the values of a field. Message types are given by their full names. A
map is a repeated field of entries, which are messages with a key and a value. -/
inductive FieldKind
  | scalar (type : Scalar)
  | enum
  | message (type : String)
  | group (type : String)
  | map (entry : String)
  deriving DecidableEq

/-- A declared field or extension. The default is that of a single value, and means
nothing for messages. -/
structure FieldType where
  name : String
  number : Nat
  kind : FieldKind
  repeated : Bool
  /-- Whether all numbers of a repeated field are written into one field of bytes. -/
  packed : Bool
  /-- Whether the field can be set to its default. -/
  explicit : Bool
  /-- The oneof of the message that the field belongs to, if any. -/
  oneof : Option Nat
  default : Leaf
  deriving DecidableEq

/-- A message type: its full name and its fields. -/
structure MessageType where
  name : String
  fields : List FieldType
  deriving DecidableEq

/-! ## Messages -/

mutual

/-- The value of a field. -/
inductive Value
  | leaf (v : Leaf)
  | message (m : Message)
  | list (items : List Value)
  | map (entries : List Value)

/-- A message: its type, the values set, in ascending order of field numbers, and the
undeclared fields. -/
inductive Message
  | mk (type : MessageType) (stored : List (Nat × Value)) (undeclared : List Wire.Field)

end

namespace Message

/-- The type of a message. -/
def type : Message → MessageType
  | ⟨t, _, _⟩ => t

/-- The values set in a message. -/
def stored : Message → List (Nat × Value)
  | ⟨_, s, _⟩ => s

/-- The fields of a message that its type does not declare. -/
def undeclared : Message → List Wire.Field
  | ⟨_, _, u⟩ => u

/-- A message in which nothing is set. -/
def empty (type : MessageType) : Message :=
  ⟨type, [], []⟩

end Message

namespace MessageType

/-- The field with a given number. -/
def field? (t : MessageType) (number : Nat) : Option FieldType :=
  t.fields.find? (·.number = number)

/-- The field with a given name. -/
def fieldNamed? (t : MessageType) (name : String) : Option FieldType :=
  t.fields.find? (·.name = name)

end MessageType

/-! ## What a reader sees -/

/-- What an absent field reads as. -/
def FieldType.absent (t : FieldType) : Value :=
  match t.kind, t.repeated with
  | .map _, _ => .map []
  | _, true => .list []
  | .message name, false | .group name, false => .message (.empty ⟨name, []⟩)
  | .scalar _, false | .enum, false => .leaf t.default

/-- Whether a value is the one that an absent field reads as. Messages count as
different from each other: a field of a message type is present if it is set. -/
def Value.isAbsent : Value → Value → Bool
  | .leaf a, .leaf b => a.same b
  | .list items, .list _ => items.isEmpty
  | .map entries, .map _ => entries.isEmpty
  | _, _ => false

/-- Whether a field is present with a value that has been set. -/
def FieldType.presentWith (t : FieldType) (v : Value) : Bool :=
  t.explicit || !v.isAbsent t.absent

namespace Message

/-- The fields that are present, in ascending order of their numbers. -/
def present (m : Message) : List (FieldType × Value) :=
  m.stored.filterMap fun (number, v) =>
    (m.type.field? number).bind fun t => if t.presentWith v then some (t, v) else none

/-- The value of a field of a given name; `none` if the type has no such field. -/
def get? (m : Message) (name : String) : Option Value :=
  (m.type.fieldNamed? name).map fun t => (m.stored.lookup t.number).getD t.absent

end Message

namespace Value

/-- A value that is a message. -/
def message? : Value → Option Message
  | .message m => some m
  | _ => none

/-- A value that is a text. -/
def string? : Value → Option String
  | .leaf (.string s) => some s
  | _ => none

/-- A value that is a signed 64-bit number. -/
def int64? : Value → Option Int64
  | .leaf (.i64 n) => some n
  | _ => none

/-- A value that is a signed 32-bit number. -/
def int32? : Value → Option Int32
  | .leaf (.i32 n) => some n
  | _ => none

/-- A value that is a truth value. -/
def bool? : Value → Option Bool
  | .leaf (.bool b) => some b
  | _ => none

end Value

end TemporalBindings.Schema
