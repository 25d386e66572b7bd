import ContractPipeline.Journal

/-! Hooks on the creation of a server, which may change its keep-alive timeout. Timeouts are in
milliseconds. -/
namespace ContractPipeline.Extension

abbrev ServerHook := Nat → Recorded Nat

namespace ServerHook

/-- The timeout that outlives tests with long pauses. -/
def raisedKeepAlive : Nat := 300000

def raise : ServerHook := fun _ =>
  return raisedKeepAlive

def assign (timeout : Nat) : ServerHook := fun _ =>
  return timeout

def add (amount : Nat) : ServerHook := fun timeout =>
  return timeout + amount

def noting (label : String) (hook : ServerHook) : ServerHook := fun timeout => do
  Recorded.emit (.note label)
  hook timeout

def runAll (hooks : List ServerHook) (timeout : Nat) : Recorded Nat :=
  hooks.foldlM (fun timeout hook => hook timeout) timeout

end ServerHook

end ContractPipeline.Extension
