import TemporalBindings.Report
import TemporalBindings.Schema.Types
import TemporalBindings.Worker.Options

/-!
# TemporalBindings.Worker.Extension

Worker options in descriptors. The message that holds them is of whatever type a
request declares for it: fields are matched with settings by their names, and a field
that matches none is ignored with a warning, so that newer declarations still work. A
field that does match has to hold a value of the setting's kind.
-/

namespace TemporalBindings.Worker

open Schema

/-! ## Values -/

/-- A duration message as a duration. A missing part is zero. -/
def Duration.read (m : Message) : Except Problem Duration :=
  let seconds := (((m.get? "seconds").bind Value.int64?).getD 0).toInt
  let nanos := (((m.get? "nanos").bind Value.int32?).getD 0).toInt
  if seconds < 0 ∨ nanos < 0 then .error .negative
  else if 1000000000 ≤ nanos then .error .nanosOutOfRange
  else .ok ⟨seconds.toNat, nanos.toNat⟩

/-- A value as one of a given kind. -/
def OptionValue.read : Kind → Value → Except Problem OptionValue
  | .bool, .leaf (.bool b) => .ok (.bool b)
  | .int, .leaf (.i32 n) => .ok (.int n)
  | .float, .leaf (.f64 d) => if d.isFinite then .ok (.float d) else .error .notFinite
  | .string, .leaf (.string s) => .ok (.string s)
  | .duration, .message m =>
    if m.type.name = "google.protobuf.Duration" then
      (Duration.read m).map fun d => .duration (some d)
    else .error (.notOfKind .duration)
  | k, _ => .error (.notOfKind k)

/-! ## Options -/

namespace Options

/-- The options after the fields given by name. `extension` and `element` say where
the fields were found. -/
def addFields (extension element : String) (o : Options) :
    List (String × Value) → Report Options
  | [] => pure o
  | (name, v) :: rest =>
    match Setting.ofProtoName? name with
    | none => do
      Report.warn ⟨extension, element, name⟩
      addFields extension element o rest
    | some s =>
      match OptionValue.read s.kind v with
      | .ok v => addFields extension element (o.set s v) rest
      | .error problem =>
        Report.ofExcept (.error (.malformedExtension extension element name problem))

/-- The options that a message holds. -/
def ofMessage (extension element : String) (m : Message) : Report Options :=
  addFields extension element {} (m.present.map fun (t, v) => (t.name, v))

end Options

end TemporalBindings.Worker
