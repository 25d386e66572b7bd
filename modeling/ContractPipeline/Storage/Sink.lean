import ContractPipeline.Storage.Error
import ContractPipeline.Text.Utf8

/-! Where output goes: something that is offered one piece after another, and that may refuse one. -/
namespace ContractPipeline.Storage

/-- A receiver of output. Whether it refuses the latest piece depends on all that it was offered,
the latest piece in front. -/
structure Sink where
  refusal? : List Bytes → Option IoError
  offered : List Bytes

namespace Sink

def unlimited : Sink where
  refusal? _ := none
  offered := []

def offeredLength (offered : List Bytes) : Nat :=
  offered.flatten.length

def full : IoError := .other "writer full"

/-- A sink that takes a number of bytes in all. Of a piece that is too long it takes the
beginning. -/
def limited (limit : Nat) : Sink where
  refusal? offered := if limit < offeredLength offered then some full else none
  offered := []

def ofLimit : Option Nat → Sink
  | some limit => limited limit
  | none => unlimited

def write (sink : Sink) (piece : Bytes) : Except IoError Unit × Sink :=
  let next : Sink := { sink with offered := piece :: sink.offered }
  match sink.refusal? next.offered with
  | some error => (.error error, next)
  | none => (.ok (), next)

def offers (sink : Sink) : Bytes :=
  sink.offered.reverse.flatten

def taken (sink : Sink) : Option Nat → Bytes
  | some limit => sink.offers.take limit
  | none => sink.offers

/-- Whatever becomes of a piece, it has been offered. -/
theorem offers_write (sink : Sink) (piece : Bytes) :
    (sink.write piece).2.offers = sink.offers ++ piece := by
  dsimp only [write]
  split <;> simp [offers]

end Sink

end ContractPipeline.Storage
