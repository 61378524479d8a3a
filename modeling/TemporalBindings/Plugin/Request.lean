import TemporalBindings.Error
import TemporalBindings.Source.Numeral
import TemporalBindings.Wire.Field

/-!
# TemporalBindings.Plugin.Request

The request of a run, a serialized message. The files' descriptors are taken from it
as bytes: they are read only once it is known what extends their options, and bad
bytes in one of them are no fault of the request.
-/

namespace TemporalBindings.Plugin

open Wire

/-- The version of the compiler that sends a request. -/
structure CompilerVersion where
  major : Option Int32 := none
  minor : Option Int32 := none
  patch : Option Int32 := none
  suffix : Option String := none
  deriving DecidableEq

/-- A request: the files that bindings are asked for, the parameter, the version of
the compiler, and the descriptors of those files and of all they import. -/
structure Request where
  files : List String := []
  parameter : Option String := none
  compiler : Option CompilerVersion := none
  descriptors : List (List UInt8) := []
  deriving DecidableEq

/-! ## The compiler's version in words -/

/-- A version as it is printed: the three numbers, and the suffix if it is not
empty. A number that is not given is zero. -/
def CompilerVersion.text (v : CompilerVersion) : String :=
  let number (n : Option Int32) := String.ofList (Source.intText (n.getD 0).toInt)
  "v" ++ number v.major ++ "." ++ number v.minor ++ "." ++ number v.patch ++
    match v.suffix with
    | none => ""
    | some suffix => if suffix = "" then "" else "-" ++ suffix

/-- The version as it is printed if there may be none. -/
def compilerText : Option CompilerVersion → String
  | none => "(unknown)"
  | some v => v.text

/-! ## Reading

The last of several singular fields counts; several versions are one version in
several pieces. Undeclared fields are passed over. -/

/-- The version after one more field. -/
def CompilerVersion.addField (v : CompilerVersion) (f : Field) : Option CompilerVersion :=
  match f.number with
  | 1 => f.int32?.map fun n => { v with major := some n }
  | 2 => f.int32?.map fun n => { v with minor := some n }
  | 3 => f.int32?.map fun n => { v with patch := some n }
  | 4 => f.string?.map fun s => { v with suffix := some s }
  | _ => passOver (maxDepth - 1) f v

namespace Request

/-- The request after one more field. -/
def addField (r : Request) (f : Field) : Option Request :=
  match f.number with
  | 1 => f.string?.map fun s => { r with files := r.files ++ [s] }
  | 2 => f.string?.map fun s => { r with parameter := some s }
  | 3 => do
    let fields ← f.message?
    let v ← fields.foldlM CompilerVersion.addField (r.compiler.getD {})
    some { r with compiler := some v }
  | 15 => f.bytes?.map fun b => { r with descriptors := r.descriptors ++ [b] }
  | _ => passOver maxDepth f r

/-- The request made of fields. -/
def ofFields? (fields : List Field) : Option Request :=
  fields.foldlM addField {}

/-- Reads a request. -/
def decode (bytes : List UInt8) : Except Error Request :=
  match (readFields bytes).bind ofFields? with
  | some r => .ok r
  | none => .error .requestDecode

end Request

/-! ## Writing -/

/-- A 32-bit number as the content of a field: it is extended with its sign. -/
def int32Field (number : Nat) (n : Int32) : Field :=
  .varint number n.toInt64.toUInt64

/-- A text as the content of a field. -/
def stringField (number : Nat) (s : String) : Field :=
  .bytes number s.toUTF8.data.toList

/-- The fields of a version. -/
def CompilerVersion.toFields (v : CompilerVersion) : List Field :=
  (v.major.map (int32Field 1)).toList ++ (v.minor.map (int32Field 2)).toList ++
    (v.patch.map (int32Field 3)).toList ++ (v.suffix.map (stringField 4)).toList

/-- The fields of a request, in ascending order of their numbers. -/
def Request.toFields (r : Request) : List Field :=
  r.files.map (stringField 1) ++ (r.parameter.map (stringField 2)).toList ++
    (r.compiler.map fun v => Field.bytes 3 (writeFields v.toFields)).toList ++
    r.descriptors.map (.bytes 15)

end TemporalBindings.Plugin
