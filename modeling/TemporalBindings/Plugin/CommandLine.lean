import TemporalBindings.Plugin.Response

/-!
# TemporalBindings.Plugin.CommandLine

The command. Without arguments it reads a serialized request and writes the
serialized response; an error of the generator is part of the response and no failure
of the command. Its only argument asks for the version.
-/

namespace TemporalBindings.Plugin

/-- How a run ends: its exit code, its output, and what it has to say to the user. -/
structure Outcome where
  code : UInt8
  output : List UInt8
  diagnostic : String

/-- What the arguments ask for. -/
inductive Command
  | respond
  | version
  | unknown (argument : String)

/-- Reads the arguments. The first one decides, and nothing may follow two dashes. -/
def Command.ofArguments : List String → Command
  | [] => .respond
  | a :: rest =>
    if a = "--version" ∨ a.toList.take 2 = ['-', 'V'] then .version
    else if a = "--" then
      match rest with
      | [] => .respond
      | b :: _ => .unknown b
    else .unknown a

/-- Responds to a serialized request. -/
def respondTo (input : List UInt8) : Outcome :=
  match Request.decode input with
  | .ok r => ⟨0, (respond r).encode, ""⟩
  | .error e => ⟨1, [], e.message⟩

/-- The version as it is printed. -/
def versionText : String :=
  Bindings.generatorName ++ " " ++ Bindings.generatorVersion ++ "\n"

/-- Runs the command. -/
def runCommand (arguments : List String) (input : List UInt8) : Outcome :=
  match Command.ofArguments arguments with
  | .respond => respondTo input
  | .version => ⟨0, versionText.toUTF8.data.toList, ""⟩
  | .unknown a => ⟨2, [], "error: unexpected argument '" ++ a ++ "' found"⟩

end TemporalBindings.Plugin
