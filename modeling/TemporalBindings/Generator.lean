import TemporalBindings.Bindings.Loader
import TemporalBindings.Bindings.Output
import TemporalBindings.Bindings.Uniqueness

/-!
# TemporalBindings.Generator

From a request to generated files. The steps are taken one after the other, and the
first that fails is the end: the parameter, the descriptors, the requested files in
order, and last the names that all of them declare.
-/

namespace TemporalBindings

open Bindings Plugin

/-- Loads what a request asks for, under the parameter that it gives. -/
def loadRequest (r : Request) : Report (List Bindings.File) := do
  let parameter ← Parameter.parse r.parameter
  load r parameter

/-- The names and texts of the files generated for a request under a parameter, against
given packages of the engine and of the standard library. -/
def generateUnder (parameter : Parameter) (sdk : Sdk) (r : Request) :
    Report (List (String × String)) := do
  let files ← load r parameter
  checkUnique files
  pure (output files sdk (compilerText r.compiler))

/-- The names and texts of the files generated for a request, under the parameter that it
gives. -/
def generate (r : Request) : Report (List (String × String)) := do
  let parameter ← Parameter.parse r.parameter
  generateUnder parameter {} r

end TemporalBindings
