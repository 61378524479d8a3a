import TemporalBindings.Schema.Types

/-!
# TemporalBindings.Schema.Types.Writer

Writing messages of known types. A message is written as the fields that are present,
in ascending order of their numbers, and behind them the undeclared ones. Numbers of a
packed field come in one field of bytes, which is written even if there are none.
-/

namespace TemporalBindings.Schema

open Wire

/-- A single value of a field. -/
def FieldType.leafField (t : FieldType) (v : Leaf) : Field :=
  match t.kind with
  | .scalar s => s.write t.number v
  | _ => Scalar.int32.write t.number v

/-- A message of a field, given by its fields. -/
def FieldType.messageField (t : FieldType) (fields : List Field) : Field :=
  match t.kind with
  | .group _ => .group t.number fields
  | _ => .bytes t.number (writeFields fields)

/-- The items of a repeated field. -/
def FieldType.itemFields (t : FieldType) (items : List Field) : List Field :=
  if t.packed then [.bytes t.number (items.flatMap Field.content)] else items

namespace Types

mutual

/-- The fields of a message. -/
def fieldsOf (ts : Types) : Message → List Field
  | ⟨type, stored, undeclared⟩ => ts.fieldsOfStored type stored ++ undeclared

/-- The fields that are written for the values of a message. -/
def fieldsOfStored (ts : Types) (type : MessageType) : List (Nat × Value) → List Field
  | [] => []
  | (number, v) :: rest =>
    (match ts.field? type number with
      | some t => if t.presentWith v then ts.fieldsOfValue t v else []
      | none => []) ++ ts.fieldsOfStored type rest

/-- The fields that are written for the value of a field. -/
def fieldsOfValue (ts : Types) (t : FieldType) : Value → List Field
  | .leaf v => [t.leafField v]
  | .message m => [t.messageField (ts.fieldsOf m)]
  | .list items => t.itemFields (ts.fieldsOfItems t items)
  | .map entries => ts.fieldsOfItems t entries

/-- The fields that are written for values of a field one after the other. -/
def fieldsOfItems (ts : Types) (t : FieldType) : List Value → List Field
  | [] => []
  | v :: vs => ts.fieldsOfValue t v ++ ts.fieldsOfItems t vs

end

/-- The bytes of a message. -/
def write (ts : Types) (m : Message) : List UInt8 :=
  writeFields (ts.fieldsOf m)

end Types

end TemporalBindings.Schema
