import TemporalBindings.Schema.Flaw
import TemporalBindings.Worker.Problem

/-!
# TemporalBindings.Error

The reasons for which no bindings are generated. Every error ends the whole run:
either all files are written or none is.
-/

namespace TemporalBindings

/-- Why no bindings are generated. -/
inductive Error
  /-- The request is not a well-formed message. -/
  | requestDecode
  | invalidParameter (parameter : String)
  | invalidDescriptors (flaw : Schema.Flaw)
  | unknownFile (file : String)
  | malformedExtension (extension element field : String) (problem : Worker.Problem)
  | missingImportPath (file : String)
  | moduleMismatch (path moduleRoot : String)
  | duplicateDeclaration (file name : String)
  deriving DecidableEq

namespace Error

/-- The error in words. -/
def message : Error → String
  | .requestDecode => "Failed to decode CodeGeneratorRequest: malformed message"
  | .invalidParameter parameter => "Invalid plugin parameter '" ++ parameter ++ "'"
  | .invalidDescriptors flaw => "Invalid descriptor set: " ++ flaw.message
  | .unknownFile file =>
    "File '" ++ file ++ "' was requested but is not part of the descriptor set"
  | .malformedExtension extension element field problem =>
    "Malformed '" ++ extension ++ "' option on '" ++ element ++ "': field '" ++ field ++ "' " ++
      problem.message
  | .missingImportPath file => "Unable to determine Go import path for '" ++ file ++ "'"
  | .moduleMismatch path moduleRoot =>
    "Output path '" ++ path ++ "' does not start with module prefix '" ++ moduleRoot ++ "'"
  | .duplicateDeclaration file name =>
    "Generated declaration '" ++ name ++ "' in '" ++ file ++
      "' is already declared in the same Go package"

/-- The error's code, for tools that look it up. -/
def code : Error → String
  | .requestDecode => "temporal_go::request::decode_failed"
  | .invalidParameter _ => "temporal_go::request::invalid_parameter"
  | .invalidDescriptors _ => "temporal_go::descriptor::invalid_pool"
  | .unknownFile _ => "temporal_go::descriptor::unknown_file"
  | .malformedExtension .. => "temporal_go::extension::malformed"
  | .missingImportPath _ => "temporal_go::go_package::missing_import_path"
  | .moduleMismatch .. => "temporal_go::go_package::module_mismatch"
  | .duplicateDeclaration .. => "temporal_go::validate::duplicate_declaration"

/-- What to do about the error, if there is anything general to say. -/
def help : Error → Option String
  | .requestDecode =>
    some "Run this binary as a protoc plugin: protoc --temporal-go_out=. foo.proto"
  | .invalidParameter _ =>
    some ("Supported parameters: paths=import|source_relative, module=<prefix>, " ++
      "M<file>=<import path>")
  | .malformedExtension .. =>
    some ("Make sure the imported temporal/worker.proto matches the one shipped with this " ++
      "plugin")
  | .missingImportPath file =>
    some ("Add `option go_package = \"example.com/foo;foo\";` or pass M" ++ file ++
      "=<import path>")
  | .duplicateDeclaration .. =>
    some ("Rename one of the services or methods; names are built as " ++
      "<Verb><Service><Method>")
  | .invalidDescriptors _ | .unknownFile _ | .moduleMismatch .. => none

end Error

end TemporalBindings
