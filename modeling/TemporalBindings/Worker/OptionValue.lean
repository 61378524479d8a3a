import TemporalBindings.Number.Double

/-!
# TemporalBindings.Worker.OptionValue

The values that options of a worker hold. There are five kinds of them. Every kind
has a zero value, and an option at its zero value is not written out; a duration is
zero only by being absent, so `0s` is a value like any other.
-/

namespace TemporalBindings.Worker

open Number

/-! ## Durations -/

/-- A length of time: whole seconds and nanoseconds. -/
structure Duration where
  seconds : Nat
  nanos : Nat
  deriving DecidableEq

/-- The length in seconds as a double. Seconds and nanoseconds are rounded each for
itself before their sum is. -/
def Duration.inSeconds (d : Duration) : Double :=
  (Double.ofRatio d.seconds 1).add (Double.ofRatio d.nanos 1000000000)

/-! ## Values -/

/-- The kind of a value. -/
inductive Kind
  | bool
  | int
  | float
  | string
  | duration
  deriving DecidableEq

/-- The type of a field that may hold values of a kind. -/
def Kind.protoType : Kind → String
  | .bool => "bool"
  | .int => "int32"
  | .float => "double"
  | .string => "string"
  | .duration => "google.protobuf.Duration"

/-- The value of one option. -/
inductive OptionValue
  | bool (b : Bool)
  | int (n : Int32)
  | float (d : Double)
  | string (s : String)
  | duration (d : Option Duration)
  deriving DecidableEq

/-- The zero value of a kind. -/
def Kind.zero : Kind → OptionValue
  | .bool => .bool false
  | .int => .int 0
  | .float => .float .zero
  | .string => .string ""
  | .duration => .duration none

namespace OptionValue

/-- The kind of a value. -/
def kind : OptionValue → Kind
  | .bool _ => .bool
  | .int _ => .int
  | .float _ => .float
  | .string _ => .string
  | .duration _ => .duration

/-- Whether a value is the zero value of its kind. A zero of either sign is. -/
def isZero : OptionValue → Bool
  | .bool b => !b
  | .int n => n = 0
  | .float d => d.isZero
  | .string s => s = ""
  | .duration d => d.isNone

/-! ## Contents

The content of a value, which is zero for a value of another kind. -/

/-- The content of a truth value. -/
def toBool : OptionValue → Bool
  | .bool b => b
  | _ => false

/-- The content of an integer. -/
def toInt : OptionValue → Int32
  | .int n => n
  | _ => 0

/-- The content of a double. -/
def toFloat : OptionValue → Double
  | .float d => d
  | _ => .zero

/-- The content of a text. -/
def toText : OptionValue → String
  | .string s => s
  | _ => ""

/-- The content of a duration. -/
def toDuration : OptionValue → Option Duration
  | .duration d => d
  | _ => none

end OptionValue

end TemporalBindings.Worker
