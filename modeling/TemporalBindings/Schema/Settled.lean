import TemporalBindings.Schema.Descriptor
import TemporalBindings.Schema.Flaw
import TemporalBindings.Schema.Types.Writer

/-!
# TemporalBindings.Schema.Settled

Settled options. The options of an element are read as they come, before the types that
they are made of are known. Once the types are known the options are read with them,
written again, and from then on are what has been written. So a value that its type does
not keep, or that counts as absent, is gone from the options for every reader.
-/

namespace TemporalBindings.Schema

open Wire

/-! ## Options -/

namespace Types

/-- The types with which options of a type of the standard are read: these ones if they
have that type, and otherwise the full types of the standard. -/
def forOptions (ts : Types) (type : String) : Types :=
  if (ts.message? type).isSome then ts else Standard.full

/-- Options as a message with all that is known of their type. -/
def readOptions (ts : Types) (element : String) (o : Options) : Except Flaw Message :=
  let known := ts.forOptions o.typeName
  let empty : Message := .empty ((known.message? o.typeName).getD o.basic.type)
  match known.readInto maxDepth empty o.bytes with
  | some m => .ok m
  | none => .error (.malformedOptions element)

/-- Settled options. An element without options has none. -/
def settle (ts : Types) (element : String) (o : Options) : Except Flaw Options := do
  if o.given then
    let m ← ts.readOptions element o
    match (Options.empty o.basic.type).add? maxDepth ((ts.forOptions o.typeName).write m) with
    | some o => .ok o
    | none => .error (.malformedOptions element)
  else .ok o

end Types

/-! ## Descriptors -/

/-- A field with settled options. -/
def FieldDescriptor.settled (ts : Types) (d : FieldDescriptor) : Except Flaw FieldDescriptor := do
  let options ← ts.settle d.name d.options
  .ok { d with options }

/-- A value of an enum with settled options. -/
def ValueDescriptor.settled (ts : Types) (d : ValueDescriptor) : Except Flaw ValueDescriptor := do
  let options ← ts.settle d.name d.options
  .ok { d with options }

/-- A range in a message of a given name with settled options. -/
def RangeDescriptor.settled (ts : Types) (message : String) (d : RangeDescriptor) :
    Except Flaw RangeDescriptor := do
  let options ← ts.settle message d.options
  .ok { d with options }

/-- An enum with settled options. -/
def EnumDescriptor.settled (ts : Types) (d : EnumDescriptor) : Except Flaw EnumDescriptor := do
  let options ← ts.settle d.name d.options
  let values ← d.values.mapM (·.settled ts)
  .ok { d with options, values }

/-- A oneof with settled options. -/
def OneofDescriptor.settled (ts : Types) (d : OneofDescriptor) : Except Flaw OneofDescriptor := do
  let options ← ts.settle d.name d.options
  .ok { d with options }

/-- A message with settled options. -/
def MessageDescriptor.settled (ts : Types) (d : MessageDescriptor) :
    Except Flaw MessageDescriptor := do
  let options ← ts.settle d.name d.options
  let fields ← d.fields.mapM (·.settled ts)
  let extensions ← d.extensions.mapM (·.settled ts)
  let enums ← d.enums.mapM (·.settled ts)
  let oneofs ← d.oneofs.mapM (·.settled ts)
  let extensionRanges ← d.extensionRanges.mapM (·.settled ts d.name)
  .ok { d with options, fields, extensions, enums, oneofs, extensionRanges }

mutual

/-- A message and the messages in it with settled options. -/
def MessageTree.settled (ts : Types) : MessageTree → Except Flaw MessageTree
  | .node d nested => do
    let d ← d.settled ts
    let nested ← settledTrees ts nested
    .ok (.node d nested)

/-- Several messages and the messages in them with settled options. -/
def settledTrees (ts : Types) : List MessageTree → Except Flaw (List MessageTree)
  | [] => .ok []
  | t :: rest => do
    let t ← t.settled ts
    let rest ← settledTrees ts rest
    .ok (t :: rest)

end

/-- A method with settled options. -/
def MethodDescriptor.settled (ts : Types) (d : MethodDescriptor) :
    Except Flaw MethodDescriptor := do
  let options ← ts.settle d.name d.options
  .ok { d with options }

/-- A service with settled options. -/
def ServiceDescriptor.settled (ts : Types) (d : ServiceDescriptor) :
    Except Flaw ServiceDescriptor := do
  let options ← ts.settle d.name d.options
  let methods ← d.methods.mapM (·.settled ts)
  .ok { d with options, methods }

/-- A file with settled options. -/
def FileDescriptor.settled (ts : Types) (d : FileDescriptor) : Except Flaw FileDescriptor := do
  let options ← ts.settle d.name d.options
  let messages ← settledTrees ts d.messages
  let enums ← d.enums.mapM (·.settled ts)
  let services ← d.services.mapM (·.settled ts)
  let extensions ← d.extensions.mapM (·.settled ts)
  .ok { d with options, messages, enums, services, extensions }

end TemporalBindings.Schema
