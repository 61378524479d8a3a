import TemporalBindings.Generator

/-!
# TemporalBindings.Plugin.Response

The response to a request: an error or the generated files, never both. In either
case it says that optional fields of proto3 files are supported.
-/

namespace TemporalBindings.Plugin

open Wire

/-- A response. -/
structure Response where
  error : Option String
  supportedFeatures : UInt64
  files : List (String × String)
  deriving DecidableEq

/-- The bit that says that optional fields of proto3 files are supported. -/
def optionalFields : UInt64 := 1

/-- The response to a result. -/
def Response.ofResult : Except Error (List (String × String)) → Response
  | .ok files => ⟨none, optionalFields, files⟩
  | .error e => ⟨some e.message, optionalFields, []⟩

/-- The response to a request. -/
def respond (r : Request) : Response :=
  .ofResult (generate r).result

namespace Response

/-- A generated file as a message: its name and its text. -/
def fileFields (file : String × String) : List Field :=
  [stringField 1 file.1, stringField 15 file.2]

/-- The fields of a response. -/
def toFields (r : Response) : List Field :=
  (r.error.map (stringField 1)).toList ++ [.varint 2 r.supportedFeatures] ++
    r.files.map fun file => .bytes 15 (writeFields (fileFields file))

/-- The serialized response. -/
def encode (r : Response) : List UInt8 :=
  writeFields r.toFields

end Response

end TemporalBindings.Plugin
