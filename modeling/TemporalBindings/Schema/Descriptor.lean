import TemporalBindings.Schema.Standard

/-!
# TemporalBindings.Schema.Descriptor

File descriptors as a compiler sends them: names are not resolved and nothing is
checked. Every type of descriptor comes with a function that adds one field of the
wire to it; reading a descriptor is adding all its fields to the empty one.
-/

namespace TemporalBindings.Schema

open Wire

/-! ## Fields and extensions -/

/-- A field or an extension. `packed` is what its options, as they come, say of packing. -/
structure FieldDescriptor where
  name : String := ""
  number : Int32 := 0
  label : Int32 := 1
  type : Int32 := 1
  typeName : Option String := none
  extendee : Option String := none
  default : Option String := none
  jsonName : Option String := none
  oneofIndex : Option Int32 := none
  proto3Optional : Bool := false
  packed : Option Bool := none
  options : Options := .empty Standard.fieldOptions

/-- The fields of a message nested in a field, if a level of nesting is left. -/
def nestedFields (depth : Nat) (f : Field) : Option (List Field) :=
  if depth = 0 then none else f.message?

/-- The options with those of one more field, if a level of nesting is left. -/
def Options.read (o : Options) (depth : Nat) (f : Field) : Option Options :=
  if depth = 0 then none else f.bytes?.bind (o.add? (depth - 1))

/-- A nested descriptor made of its fields. -/
def readNested {α : Type} (depth : Nat) (f : Field) (empty : α)
    (add : Nat → α → Field → Option α) : Option α :=
  (nestedFields depth f).bind fun fs => fs.foldlM (add (depth - 1)) empty

/-- Checks that a field which nothing depends on has the type it is declared with. -/
def checked {α β : Type} (read : Option β) (x : α) : Option α :=
  read.map fun _ => x

namespace FieldDescriptor

/-- Whether the field is repeated. -/
def repeated (d : FieldDescriptor) : Bool :=
  d.label = 3

/-- The descriptor with some options. -/
def withOptions (d : FieldDescriptor) (o : Options) : FieldDescriptor :=
  { d with options := o, packed := (o.set? "packed").bind Value.bool? }

/-- The descriptor after one more field. -/
def addField (depth : Nat) (d : FieldDescriptor) (f : Field) : Option FieldDescriptor :=
  match f.number with
  | 1 => f.string?.map fun s => { d with name := s }
  | 2 => f.string?.map fun s => { d with extendee := some s }
  | 3 => f.int32?.map fun n => { d with number := n }
  | 4 => f.int32?.map fun n => { d with label := n }
  | 5 => f.int32?.map fun n => { d with type := n }
  | 6 => f.string?.map fun s => { d with typeName := some s }
  | 7 => f.string?.map fun s => { d with default := some s }
  | 8 => (d.options.read depth f).map d.withOptions
  | 9 => f.int32?.map fun n => { d with oneofIndex := some n }
  | 10 => f.string?.map fun s => { d with jsonName := some s }
  | 17 => f.bool?.map fun b => { d with proto3Optional := b }
  | _ => passOver depth f d

end FieldDescriptor

/-! ## Enums -/

/-- A value of an enum. -/
structure ValueDescriptor where
  name : String := ""
  number : Int32 := 0
  options : Options := .empty Standard.enumValueOptions

/-- The descriptor after one more field. -/
def ValueDescriptor.addField (depth : Nat) (d : ValueDescriptor) (f : Field) :
    Option ValueDescriptor :=
  match f.number with
  | 1 => f.string?.map fun s => { d with name := s }
  | 2 => f.int32?.map fun n => { d with number := n }
  | 3 => (d.options.read depth f).map fun o => { d with options := o }
  | _ => passOver depth f d

/-- A range of numbers. -/
structure RangeDescriptor where
  start : Int32 := 0
  stop : Int32 := 0
  options : Options := .empty Standard.rangeOptions

/-- The range after one more field. Only some ranges have options. -/
def RangeDescriptor.addField (hasOptions : Bool) (depth : Nat) (d : RangeDescriptor) (f : Field) :
    Option RangeDescriptor :=
  match f.number, hasOptions with
  | 1, _ => f.int32?.map fun n => { d with start := n }
  | 2, _ => f.int32?.map fun n => { d with stop := n }
  | 3, true => (d.options.read depth f).map fun o => { d with options := o }
  | _, _ => passOver depth f d

/-- An enum. -/
structure EnumDescriptor where
  name : String := ""
  values : List ValueDescriptor := []
  reservedRanges : List RangeDescriptor := []
  options : Options := .empty Standard.enumOptions

/-- The descriptor after one more field. -/
def EnumDescriptor.addField (depth : Nat) (d : EnumDescriptor) (f : Field) :
    Option EnumDescriptor :=
  match f.number with
  | 1 => f.string?.map fun s => { d with name := s }
  | 2 => (readNested depth f {} ValueDescriptor.addField).map fun v =>
      { d with values := d.values ++ [v] }
  | 3 => (d.options.read depth f).map fun o => { d with options := o }
  | 4 => (readNested depth f {} (RangeDescriptor.addField false)).map fun x =>
      { d with reservedRanges := d.reservedRanges ++ [x] }
  | 5 => checked f.string? d
  | _ => passOver depth f d

/-! ## Messages -/

/-- A oneof. -/
structure OneofDescriptor where
  name : String := ""
  options : Options := .empty Standard.oneofOptions

/-- The descriptor after one more field. -/
def OneofDescriptor.addField (depth : Nat) (d : OneofDescriptor) (f : Field) :
    Option OneofDescriptor :=
  match f.number with
  | 1 => f.string?.map fun s => { d with name := s }
  | 2 => (d.options.read depth f).map fun o => { d with options := o }
  | _ => passOver depth f d

/-- A message without the messages declared in it. -/
structure MessageDescriptor where
  name : String := ""
  fields : List FieldDescriptor := []
  extensions : List FieldDescriptor := []
  enums : List EnumDescriptor := []
  extensionRanges : List RangeDescriptor := []
  oneofs : List OneofDescriptor := []
  reservedRanges : List RangeDescriptor := []
  options : Options := .empty Standard.messageOptions

/-- A message and the messages declared in it. -/
inductive MessageTree
  | node (message : MessageDescriptor) (nested : List MessageTree)

/-- The descriptor after one more field that is not a nested message. -/
def MessageDescriptor.addField (depth : Nat) (d : MessageDescriptor) (f : Field) :
    Option MessageDescriptor :=
  match f.number with
  | 1 => f.string?.map fun s => { d with name := s }
  | 2 => (readNested depth f {} FieldDescriptor.addField).map fun x =>
      { d with fields := d.fields ++ [x] }
  | 4 => (readNested depth f {} EnumDescriptor.addField).map fun x =>
      { d with enums := d.enums ++ [x] }
  | 5 => (readNested depth f {} (RangeDescriptor.addField true)).map fun x =>
      { d with extensionRanges := d.extensionRanges ++ [x] }
  | 6 => (readNested depth f {} FieldDescriptor.addField).map fun x =>
      { d with extensions := d.extensions ++ [x] }
  | 7 => (d.options.read depth f).map fun o => { d with options := o }
  | 8 => (readNested depth f {} OneofDescriptor.addField).map fun x =>
      { d with oneofs := d.oneofs ++ [x] }
  | 9 => (readNested depth f {} (RangeDescriptor.addField false)).map fun x =>
      { d with reservedRanges := d.reservedRanges ++ [x] }
  | 10 => checked f.string? d
  | _ => passOver depth f d

namespace MessageTree

/-- A tree without anything in it. -/
def empty : MessageTree :=
  .node {} []

/-- The tree after one more field. -/
def addField : Nat → MessageTree → Field → Option MessageTree
  | 0, .node d nested, f =>
    if f.number = 3 then none else (d.addField 0 f).map (.node · nested)
  | depth + 1, .node d nested, f =>
    if f.number = 3 then do
      let inner ← f.message?
      let t ← inner.foldlM (addField depth) empty
      some (.node d (nested ++ [t]))
    else (d.addField (depth + 1) f).map (.node · nested)

end MessageTree

/-! ## Services -/

/-- A method. -/
structure MethodDescriptor where
  name : String := ""
  input : String := ""
  output : String := ""
  options : Options := .empty Standard.methodOptions

/-- The descriptor after one more field. -/
def MethodDescriptor.addField (depth : Nat) (d : MethodDescriptor) (f : Field) :
    Option MethodDescriptor :=
  match f.number with
  | 1 => f.string?.map fun s => { d with name := s }
  | 2 => f.string?.map fun s => { d with input := s }
  | 3 => f.string?.map fun s => { d with output := s }
  | 4 => (d.options.read depth f).map fun o => { d with options := o }
  | 5 | 6 => checked f.bool? d
  | _ => passOver depth f d

/-- A service. -/
structure ServiceDescriptor where
  name : String := ""
  methods : List MethodDescriptor := []
  options : Options := .empty Standard.serviceOptions

/-- The descriptor after one more field. -/
def ServiceDescriptor.addField (depth : Nat) (d : ServiceDescriptor) (f : Field) :
    Option ServiceDescriptor :=
  match f.number with
  | 1 => f.string?.map fun s => { d with name := s }
  | 2 => (readNested depth f {} MethodDescriptor.addField).map fun x =>
      { d with methods := d.methods ++ [x] }
  | 3 => (d.options.read depth f).map fun o => { d with options := o }
  | _ => passOver depth f d

/-! ## Files -/

/-- The comments at one place of a file. The path leads from the file's descriptor to
the element there, by field numbers and indices. -/
structure Location where
  path : List Int32 := []
  leading : Option String := none
  trailing : Option String := none
  detached : List String := []

/-- The numbers in one field of a repeated field of them. -/
def int32s? (f : Field) : Option (List Int32) :=
  (f.elements? .varint).bind fun fs => fs.mapM Field.int32?

/-- The location after one more field. -/
def Location.addField (depth : Nat) (l : Location) (f : Field) : Option Location :=
  match f.number with
  | 1 => (int32s? f).map fun ns => { l with path := l.path ++ ns }
  | 2 => checked (int32s? f) l
  | 3 => f.string?.map fun s => { l with leading := some s }
  | 4 => f.string?.map fun s => { l with trailing := some s }
  | 6 => f.string?.map fun s => { l with detached := l.detached ++ [s] }
  | _ => passOver depth f l

/-- The locations after one more field of the source information. -/
def addLocation (depth : Nat) (ls : List Location) (f : Field) : Option (List Location) :=
  match f.number with
  | 1 => (readNested depth f {} Location.addField).map fun l => ls ++ [l]
  | _ => passOver depth f ls

/-- A file. -/
structure FileDescriptor where
  name : String := ""
  package : String := ""
  imports : List String := []
  publicImports : List Int32 := []
  weakImports : List Int32 := []
  messages : List MessageTree := []
  enums : List EnumDescriptor := []
  services : List ServiceDescriptor := []
  extensions : List FieldDescriptor := []
  options : Options := .empty Standard.fileOptions
  locations : List Location := []
  syntaxName : Option String := none

namespace FileDescriptor

/-- The descriptor after one more field. -/
def addField (depth : Nat) (d : FileDescriptor) (f : Field) : Option FileDescriptor :=
  match f.number with
  | 1 => f.string?.map fun s => { d with name := s }
  | 2 => f.string?.map fun s => { d with package := s }
  | 3 => f.string?.map fun s => { d with imports := d.imports ++ [s] }
  | 4 => do
    let inner ← nestedFields depth f
    let t ← inner.foldlM (MessageTree.addField (depth - 1)) .empty
    some { d with messages := d.messages ++ [t] }
  | 5 => (readNested depth f {} EnumDescriptor.addField).map fun x =>
      { d with enums := d.enums ++ [x] }
  | 6 => (readNested depth f {} ServiceDescriptor.addField).map fun x =>
      { d with services := d.services ++ [x] }
  | 7 => (readNested depth f {} FieldDescriptor.addField).map fun x =>
      { d with extensions := d.extensions ++ [x] }
  | 8 => (d.options.read depth f).map fun o => { d with options := o }
  | 9 => (readNested depth f d.locations addLocation).map fun ls => { d with locations := ls }
  | 10 => (int32s? f).map fun ns => { d with publicImports := d.publicImports ++ ns }
  | 11 => (int32s? f).map fun ns => { d with weakImports := d.weakImports ++ ns }
  | 12 => f.string?.map fun s => { d with syntaxName := some s }
  | _ => passOver depth f d

/-- Reads a file descriptor. It stands inside the set of all of them, which takes one
level of nesting. -/
def read (bytes : List UInt8) : Option FileDescriptor :=
  (readFields bytes).bind fun fs => fs.foldlM (addField (maxDepth - 1)) {}

/-- Whether the file is written in the third version of the language. -/
def isProto3 (d : FileDescriptor) : Bool :=
  d.syntaxName = some "proto3"

end FileDescriptor

end TemporalBindings.Schema
