import TemporalBindings.Source.Package

/-!
# TemporalBindings.Bindings.Sdk

The packages that generated code refers to besides those of the messages: three of
the standard library and three of the workflow engine.
-/

namespace TemporalBindings.Bindings

open Source

/-- The packages that generated code is written against. -/
structure Sdk where
  context : Package := ⟨"context", "context"⟩
  log : Package := ⟨"log", "log"⟩
  time : Package := ⟨"time", "time"⟩
  client : Package := ⟨"go.temporal.io/sdk/client", "client"⟩
  worker : Package := ⟨"go.temporal.io/sdk/worker", "worker"⟩
  workflow : Package := ⟨"go.temporal.io/sdk/workflow", "workflow"⟩
  deriving DecidableEq

end TemporalBindings.Bindings
