import TemporalBindings.Schema.Flaw
import TemporalBindings.Schema.Symbol

/-!
# TemporalBindings.Schema.Check

What is checked of file descriptors before their names are resolved. A check gives the
first flaw, if there is one.
-/

namespace TemporalBindings.Schema

/-! ## Flaws -/

/-- The first element that is in the list more than once. -/
def firstDuplicate [DecidableEq α] : List α → Option α
  | [] => none
  | x :: xs => if x ∈ xs then some x else firstDuplicate xs

/-- Fails with a flaw if there is one. -/
def refuse {α : Type} (found : Option α) (flaw : α → Flaw) : Except Flaw Unit :=
  match found with
  | some x => .error (flaw x)
  | none => .ok ()

/-- Fails with a flaw unless a condition holds. -/
def demand (condition : Bool) (flaw : Flaw) : Except Flaw Unit :=
  if condition then .ok () else .error flaw

/-! ## Numbers and names -/

/-- Whether a number lies in a range, whose end does not belong to it. -/
def RangeDescriptor.has (r : RangeDescriptor) (n : Int32) : Bool :=
  r.start ≤ n && n < r.stop

/-- Whether a number lies in a range, whose end belongs to it. -/
def RangeDescriptor.includes (r : RangeDescriptor) (n : Int32) : Bool :=
  r.start ≤ n && n ≤ r.stop

/-- A name without underscores and differences of case. -/
def looseName (name : String) : List Char :=
  (name.toList.filter (· ≠ '_')).map Char.toLower

/-- A name without underscores, in which what followed one of them begins with an upper-case
letter. `upper` says whether an underscore has just been left out. -/
def joinedName (upper : Bool) : List Char → List Char
  | [] => []
  | c :: cs =>
    if c = '_' then joinedName true cs
    else (if upper then c.toUpper else c) :: joinedName false cs

/-- The name of a field in JSON. -/
def FieldDescriptor.nameInJson (d : FieldDescriptor) : List Char :=
  match d.jsonName with
  | some name => name.toList
  | none => joinedName false d.name.toList

/-! ## Elements -/

namespace MessageDescriptor

/-- Whether the number of a field is one that the message allows it. The numbers that
are set apart for extensions belong to the fields that say what they extend, and to no
others. -/
def allowsNumber (m : MessageDescriptor) (x : FieldDescriptor) : Bool :=
  let n := x.number
  1 ≤ n && n ≤ 536870911 && !(19000 ≤ n && n ≤ 19999) && !(m.reservedRanges.any (·.has n)) &&
    m.extensionRanges.any (·.has n) == x.extendee.isSome

/-- Whether the field belongs to no oneof or to one that the message has. -/
def hasOneof (m : MessageDescriptor) (x : FieldDescriptor) : Bool :=
  match x.oneofIndex with
  | none => true
  | some i => 0 ≤ i && i.toInt < m.oneofs.length

/-- Checks the fields of a message. -/
def check (m : MessageDescriptor) (proto3 : Bool) (name : String) : Except Flaw Unit := do
  let full (x : FieldDescriptor) := qualify name x.name
  refuse (m.fields.find? fun x => !m.allowsNumber x) fun x => .badNumber (full x)
  refuse (firstDuplicate (m.fields.map (·.number))) fun _ => .duplicateNumber name
  refuse (m.fields.find? fun x => !m.hasOneof x) fun x => .badOneofIndex (full x)
  refuse (firstDuplicate (m.fields.map FieldDescriptor.nameInJson)) fun _ => .sameJsonName name
  if proto3 then
    refuse (firstDuplicate (m.fields.map fun x => looseName x.name)) fun _ => .similarNames name

end MessageDescriptor

/-- Checks the values of an enum. -/
def EnumDescriptor.check (e : EnumDescriptor) (proto3 : Bool) (name : String) :
    Except Flaw Unit := do
  match e.values with
  | [] => .error (.emptyEnum name)
  | v :: _ =>
    demand (!proto3 || v.number = 0) (.firstValueNotZero name)
    refuse (e.values.find? fun v => e.reservedRanges.any (·.includes v.number)) fun _ =>
      .reservedValue name
    if !e.options.isSet "allow_alias" then
      refuse (firstDuplicate (e.values.map (·.number))) fun _ => .duplicateValue name

/-! ## Files -/

namespace FileDescriptor

/-- Checks that a file's imports are among the files and that their indices are
right. -/
def checkImports (d : FileDescriptor) (files : List FileDescriptor) : Except Flaw Unit := do
  let names := files.map (·.name)
  refuse (d.imports.find? (· ∉ names)) fun imported => .missingImport d.name imported
  demand ((d.publicImports ++ d.weakImports).all fun i => 0 ≤ i && i.toInt < d.imports.length)
    (.badImportIndex d.name)

/-- Checks what can be checked of a file alone. -/
def check (d : FileDescriptor) : Except Flaw Unit := do
  demand (d.syntaxName ∈ [none, some "proto2", some "proto3"]) (.unknownSyntaxName d.name)
  d.allMessages.forM fun (scope, m) => m.check d.isProto3 (qualify scope m.name)
  d.allEnums.forM fun (scope, e) => e.check d.isProto3 (qualify scope e.name)

end FileDescriptor

/-- Checks that no full name is declared twice. Packages may be shared, but not with
anything else. -/
def checkNames (files : List FileDescriptor) : Except Flaw Unit := do
  let names := files.flatMap fun d => d.elements.map (·.name)
  let packages := files.flatMap (·.packages)
  refuse (firstDuplicate names) .duplicateName
  refuse (names.find? (· ∈ packages)) .duplicateName

end TemporalBindings.Schema
