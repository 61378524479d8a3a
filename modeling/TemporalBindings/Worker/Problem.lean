import TemporalBindings.Worker.OptionValue

/-!
# TemporalBindings.Worker.Problem

What can be wrong with a value in the worker extension.
-/

namespace TemporalBindings.Worker

/-- Why a value is refused. -/
inductive Problem
  /-- The extension itself is not of a message type. -/
  | extensionNotMessage
  | notString
  | notMessage
  /-- The value is not of the type that its setting asks for. -/
  | notOfKind (kind : Kind)
  | notFinite
  | negative
  | nanosOutOfRange
  deriving DecidableEq

/-- A problem in words, as the end of a sentence about the field. -/
def Problem.message : Problem → String
  | .extensionNotMessage => "is not a message"
  | .notString => "must be a string"
  | .notMessage => "must be a message"
  | .notOfKind kind => "must be of type " ++ kind.protoType
  | .notFinite => "must be finite"
  | .negative => "must not be negative"
  | .nanosOutOfRange => "has out of range nanos"

end TemporalBindings.Worker
