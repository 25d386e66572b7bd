import ContractPipeline.Journal
import ContractPipeline.Storage.Sink

/-! Jobs: what writes to a sink, may fail, and records events. What was offered to the sink and
recorded before a failure stays. -/
namespace ContractPipeline

/-- A job that fails with an error of type `ε` or ends in a value of type `α`. -/
abbrev Job (ε α : Type) := ExceptT ε (StateT Storage.Sink Recorded) α

namespace Job

variable {ε ε' α : Type}

def on (job : Job ε α) (sink : Storage.Sink) : Recorded (Except ε α × Storage.Sink) :=
  StateT.run (ExceptT.run job) sink

def ofRecorded (result : Recorded (Except ε α)) : Job ε α :=
  ExceptT.mk fun sink => do
    let value ← result
    return (value, sink)

def ofExcept (result : Except ε α) : Job ε α :=
  ofRecorded (pure result)

def emit (event : Event) : Job ε Unit :=
  ofRecorded do
    Recorded.emit event
    return .ok ()

def offer (piece : Bytes) : Job Storage.IoError Unit :=
  ExceptT.mk fun sink => pure (sink.write piece)

def offerText (text : String) : Job Storage.IoError Unit :=
  offer (.ofString text)

def failingAs (f : ε → ε') (job : Job ε α) : Job ε' α :=
  ExceptT.mk fun sink => do
    let (result, sink) ← job.on sink
    return (result.mapError f, sink)

end Job

end ContractPipeline
