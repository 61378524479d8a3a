import TemporalBindings.Assoc
import TemporalBindings.Schema.Message

/-!
# TemporalBindings.Schema.Types

Known message types and extensions, and how a message takes in one more value. A
field of the wire belongs to the declared field of its number, or else to the
extension of its number that is known for the message's type, wherever that is
declared.

Of several occurrences of a field, those of a repeated one are collected, those of a
message are merged, and of any other the last one counts. Setting one member of a
oneof removes the others.
-/

namespace TemporalBindings.Schema

open Wire

/-! ## Known types -/

/-- An extension: its full name, the full name of the message type that it extends,
and the field that it adds to it. -/
structure Extension where
  name : String
  extended : String
  field : FieldType
  deriving DecidableEq

/-- The known message types and extensions, and whether a message keeps the fields
that it does not declare. -/
structure Types where
  messages : List MessageType
  extensions : List Extension
  keepsUndeclared : Bool := true

namespace Types

/-- The message type of a given full name. -/
def message? (ts : Types) (name : String) : Option MessageType :=
  ts.messages.find? (·.name = name)

/-- The extension of a message type with a given number. -/
def extension? (ts : Types) (extended : String) (number : Nat) : Option FieldType :=
  (ts.extensions.find? fun e => e.extended = extended && e.field.number = number).map (·.field)

/-- The field or extension of a message type with a given number. -/
def field? (ts : Types) (t : MessageType) (number : Nat) : Option FieldType :=
  (t.field? number).or (ts.extension? t.name number)

end Types

/-! ## Storing -/

namespace Message

/-- The message without the other members of the oneof that a field belongs to. -/
def clearOthers (m : Message) (t : FieldType) : Message :=
  match t.oneof with
  | none => m
  | some _ =>
    ⟨m.type, m.stored.filter fun (number, _) =>
      number = t.number || (m.type.field? number).bind (·.oneof) ≠ t.oneof, m.undeclared⟩

/-- The message with the value of a field. -/
def store (m : Message) (t : FieldType) (v : Value) : Message :=
  let m := m.clearOthers t
  ⟨m.type, put t.number v m.stored, m.undeclared⟩

/-- The message with one more undeclared field. -/
def keep (m : Message) (f : Field) : Message :=
  ⟨m.type, m.stored, m.undeclared ++ [f]⟩

/-- The elements of a repeated field that have been read so far. -/
def elements (m : Message) (t : FieldType) : List Value :=
  match m.stored.lookup t.number with
  | some (.list items) | some (.map items) => items
  | _ => []

/-- The message with more elements of a repeated field. -/
def extend (m : Message) (t : FieldType) (vs : List Value) : Message :=
  m.store t (.list (m.elements t ++ vs))

/-- The message with one more entry of a map. -/
def enter (m : Message) (t : FieldType) (entry : Message) : Message :=
  m.store t (.map (m.elements t ++ [.message entry]))

/-- The nested message that a field has been set to so far. -/
def nested? (m : Message) (t : FieldType) : Option Message :=
  (m.stored.lookup t.number).bind Value.message?

/-- The message that one more occurrence of a message field adds to: a new one for a
repeated field, and otherwise what the field has been set to so far. -/
def base (m : Message) (t : FieldType) (type : MessageType) : Message :=
  if t.repeated then .empty type else (m.nested? t).getD (.empty type)

/-- The message with the message that a field has been read as. -/
def storeMessage (m : Message) (t : FieldType) (nested : Message) : Message :=
  if t.repeated then m.extend t [.message nested] else m.store t (.message nested)

end Message

/-! ## Entries of maps -/

/-- The fields of a map entry that hold its key and its value. -/
def entryNumbers : List Nat := [1, 2]

namespace Types

/-- What an absent field reads as, with the type of a message in full. -/
def absent (ts : Types) (t : FieldType) : Value :=
  match t.absent with
  | .message m => .message (.empty ((ts.message? m.type.name).getD m.type))
  | v => v

/-- An entry of a map before anything of it is read. It always has a key and a value,
which are at first what absent fields read as. -/
def newEntry (ts : Types) (type : MessageType) : Message :=
  (entryNumbers.filterMap type.field?).foldl (fun m t => m.store t (ts.absent t)) (.empty type)

end Types

end TemporalBindings.Schema
