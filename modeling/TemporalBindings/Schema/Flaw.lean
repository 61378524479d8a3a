/-!
# TemporalBindings.Schema.Flaw

What can be wrong with a set of file descriptors.
-/

namespace TemporalBindings.Schema

/-- A reason to refuse a set of file descriptors. -/
inductive Flaw
  /-- A file descriptor is not a well-formed message of its type. -/
  | malformedFile
  | duplicateFile (file : String)
  | missingImport (file imported : String)
  /-- The index of a public or weak import is not that of an import. -/
  | badImportIndex (file : String)
  /-- The file names a version of the language that is neither of the two known ones. -/
  | unknownSyntaxName (file : String)
  | duplicateName (name : String)
  /-- A field number outside the range of field numbers, inside a reserved one, or inside
  one that is set apart for extensions; or that of an extension and not inside such. -/
  | badNumber (field : String)
  | duplicateNumber (field : String)
  /-- Two fields have the same name but for underscores and case. -/
  | similarNames (message : String)
  /-- Two fields have the same name in JSON. -/
  | sameJsonName (message : String)
  | badOneofIndex (field : String)
  | missingTypeName (field : String)
  /-- A name that is not defined, not visible, or of the wrong sort. -/
  | unresolved (name scope : String)
  | badDefault (field : String)
  | emptyEnum (enum : String)
  /-- The first value of an open enum has to be zero. -/
  | firstValueNotZero (enum : String)
  | duplicateValue (enum : String)
  | reservedValue (enum : String)
  | malformedOptions (element : String)
  deriving DecidableEq

/-- A flaw in words. -/
def Flaw.message : Flaw → String
  | .malformedFile => "malformed file descriptor"
  | .duplicateFile file => "file '" ++ file ++ "' is given twice"
  | .missingImport file imported => "import '" ++ imported ++ "' of '" ++ file ++ "' is missing"
  | .badImportIndex file => "import index of '" ++ file ++ "' is out of range"
  | .unknownSyntaxName file => "unknown syntax of '" ++ file ++ "'"
  | .duplicateName name => "name '" ++ name ++ "' is defined twice"
  | .badNumber field => "invalid number of field '" ++ field ++ "'"
  | .duplicateNumber field => "number of field '" ++ field ++ "' is used twice"
  | .similarNames message => "two fields of '" ++ message ++ "' have similar names"
  | .sameJsonName message => "two fields of '" ++ message ++ "' have the same name in JSON"
  | .badOneofIndex field => "oneof index of field '" ++ field ++ "' is out of range"
  | .missingTypeName field => "field '" ++ field ++ "' has no type name"
  | .unresolved name scope => "name '" ++ name ++ "' used in '" ++ scope ++ "' cannot be resolved"
  | .badDefault field => "invalid default value of field '" ++ field ++ "'"
  | .emptyEnum enum => "enum '" ++ enum ++ "' has no values"
  | .firstValueNotZero enum => "first value of enum '" ++ enum ++ "' is not zero"
  | .duplicateValue enum => "number in enum '" ++ enum ++ "' is used twice"
  | .reservedValue enum => "number in enum '" ++ enum ++ "' is reserved"
  | .malformedOptions element => "malformed options of '" ++ element ++ "'"

end TemporalBindings.Schema
