import TemporalBindings.Schema.Check
import TemporalBindings.Schema.Default

/-!
# TemporalBindings.Schema.Types.Declared

The types that files declare. A field that names its type is of that type, whatever
code it gives; the code then only tells a group from a message. A field without a name,
or with an empty one, has the scalar type of its code.
-/

namespace TemporalBindings.Schema

open Wire

/-! ## Types of fields -/

/-- The type of a field with a given code. Codes that are not known count as that of
a double; the codes of groups, messages and enums give none. -/
def scalarOfCode? (code : Int32) : Option Scalar :=
  match code.toInt with
  | 2 => some .float
  | 3 => some .int64
  | 4 => some .uint64
  | 5 => some .int32
  | 6 => some .fixed64
  | 7 => some .fixed32
  | 8 => some .bool
  | 9 => some .string
  | 10 | 11 | 14 => none
  | 12 => some .bytes
  | 13 => some .uint32
  | 15 => some .sfixed32
  | 16 => some .sfixed64
  | 17 => some .sint32
  | 18 => some .sint64
  | _ => some .double

/-- Whether a symbol is that of a message. -/
def SymbolKind.isMessage : SymbolKind → Bool
  | .message _ => true
  | _ => false

/-- Whether a symbol can be the type of a field. -/
def SymbolKind.isType : SymbolKind → Bool
  | .message _ | .enum _ => true
  | _ => false

/-- A field whose values are messages of a given type. -/
def FieldDescriptor.messageKind (d : FieldDescriptor) (type : String) (isEntry : Bool) :
    FieldKind :=
  if d.repeated && isEntry then .map type
  else if d.type = 10 then .group type
  else .message type

/-- The number of the value of an enum that a default names; without one, that of the
first value. -/
def enumDefault? (values : List (String × Int32)) : Option String → Option Int32
  | none => some ((values.head?.map (·.2)).getD 0)
  | some text => values.lookup text

/-- A declared default of a type, or its zero without one. -/
def Scalar.default? (s : Scalar) : Option String → Option Leaf
  | none => some s.zero
  | some text => s.readDefault text

/-- Whether the values are messages. -/
def FieldKind.isMessage : FieldKind → Bool
  | .message _ | .group _ | .map _ => true
  | .scalar _ | .enum => false

/-- Whether several values can be packed into one field. -/
def FieldKind.packable : FieldKind → Bool
  | .scalar s => s.kind ≠ .bytes
  | .enum => true
  | .message _ | .group _ | .map _ => false

/-- Whether the values of a repeated field are packed when written. Where its options say
nothing of it the version of the language decides. -/
def FieldDescriptor.packs (d : FieldDescriptor) (proto3 : Bool) (kind : FieldKind) : Bool :=
  d.repeated && kind.packable && d.packed.getD proto3

/-- The type that a field names, if it names one. -/
def FieldDescriptor.namedType? (d : FieldDescriptor) : Option String :=
  d.typeName.filter (· ≠ "")

namespace Scope

/-- What `name` means when the element called `user` uses it, or the flaw that it
means nothing. -/
def resolve (s : Scope) (wanted : SymbolKind → Bool) (user name : String) : Except Flaw Symbol :=
  match s.resolve? wanted user name with
  | some x => .ok x
  | none => .error (.unresolved name user)

/-- The type of a field's values and their default. -/
def typeOf (s : Scope) (d : FieldDescriptor) (user : String) : Except Flaw (FieldKind × Leaf) := do
  match d.namedType? with
  | none =>
    match scalarOfCode? d.type with
    | none => .error (.missingTypeName user)
    | some scalar =>
      match scalar.default? d.default with
      | some v => .ok (.scalar scalar, v)
      | none => .error (.badDefault user)
  | some name =>
    let x ← s.resolve SymbolKind.isType user name
    match x.kind with
    | .message isEntry =>
      demand d.default.isNone (.badDefault user)
      .ok (d.messageKind x.name isEntry, .bool false)
    | .enum values =>
      match enumDefault? values d.default with
      | some n => .ok (.enum, .enum n)
      | none => .error (.badDefault user)
    | _ => .error (.unresolved name user)

/-! ## Messages and extensions -/

/-- A field of a message of a given full name. -/
def field (s : Scope) (proto3 : Bool) (d : FieldDescriptor) (message : String) :
    Except Flaw FieldType := do
  let (kind, default) ← s.typeOf d (qualify message d.name)
  .ok
    { name := d.name
      number := d.number.toInt.toNat
      kind, default
      repeated := d.repeated
      packed := d.packs proto3 kind
      explicit :=
        d.proto3Optional || d.oneofIndex.isSome || (!d.repeated && (kind.isMessage || !proto3))
      oneof := d.oneofIndex.map (·.toInt.toNat) }

/-- A message type. -/
def messageType (s : Scope) (proto3 : Bool) (scope : String) (m : MessageDescriptor) :
    Except Flaw MessageType := do
  let name := qualify scope m.name
  let fields ← m.fields.mapM fun d => s.field proto3 d name
  .ok ⟨name, fields⟩

/-- An extension. `messages` are all messages of all files with their scopes. -/
def extension (s : Scope) (messages : List (String × MessageDescriptor)) (proto3 : Bool)
    (scope : String) (d : FieldDescriptor) : Except Flaw Extension := do
  let name := qualify scope d.name
  let (kind, default) ← s.typeOf d name
  let extended ← s.resolve SymbolKind.isMessage name (d.extendee.getD "")
  demand
    (messages.any fun (scope, m) => qualify scope m.name = extended.name && m.allowsNumber d)
    (.badNumber name)
  .ok
    { name
      extended := extended.name
      field :=
        { name := d.name
          number := d.number.toInt.toNat
          kind, default
          repeated := d.repeated
          packed := d.packs proto3 kind
          explicit := !d.repeated
          oneof := none } }

end Scope

/-- What can be referred to from a file, one of several files. -/
def FileDescriptor.scopeIn (d : FileDescriptor) (files : List FileDescriptor) : Scope :=
  ⟨files.flatMap (·.symbols), visibleFrom files d⟩

/-- The types that files declare. -/
def declaredTypes (files : List FileDescriptor) : Except Flaw Types := do
  let messages := files.flatMap (·.allMessages)
  let declared ← files.mapM fun d => do
    let scope := d.scopeIn files
    let types ← d.allMessages.mapM fun (name, m) => scope.messageType d.isProto3 name m
    let extensions ← d.allExtensions.mapM fun (name, x) =>
      scope.extension messages d.isProto3 name x
    .ok (types, extensions)
  .ok { messages := declared.flatMap (·.1), extensions := declared.flatMap (·.2) }

end TemporalBindings.Schema
