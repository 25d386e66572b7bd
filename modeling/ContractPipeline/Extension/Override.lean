import ContractPipeline.Compiler.Cache
import ContractPipeline.Compiler.Native

/-! Overrides of the request for a compiler build. Each may hand the request on to those below it,
down to the cache. -/
namespace ContractPipeline.Extension

open Compiler (Build CompilerError NativeCompiler Outcome)

/-- What is done on a request for a version. It answers, records, and consults what lies below, and
nothing else: it keeps no state from one request to the next, and changes no files. -/
abbrev Override := String → Plan Outcome Outcome

namespace Override

def native (compiler : NativeCompiler) : Override := fun version => do
  let outcome ← compiler.resolve version
  return outcome.map Compiler.Descriptor.build

/-- Hands a request on a number of times and keeps the last outcome, which is that of the first
time where there is no other. -/
def repeated : Nat → Plan Outcome Outcome
  | 0 | 1 => Plan.next
  | times + 2 => do
    let _ ← Plan.next
    repeated (times + 1)

def fixed (path : Storage.Path) : Override := fun version =>
  return .ok (.native path version)

def fail (error : CompilerError) : Override := fun _ =>
  return .error error

/-- Hands a request on and adds to the long version of what comes back. -/
def lengthen (ending : String) : Override := fun _ => do
  let outcome ← Plan.next
  return outcome.map fun build => { build with longVersion := build.longVersion ++ ending }

/-- Hands a request on and answers with a native build at a path where that fails. -/
def rescue (path : Storage.Path) : Override := fun version => do
  match ← Plan.next with
  | .ok build => return .ok build
  | .error _ => return .ok (.native path version)

def again (times : Nat) : Override := fun _ =>
  repeated times

/-- Leaves all versions but one to what lies below. -/
def only (version : Option String) (override : Override) : Override := fun requested =>
  match version with
  | none => override requested
  | some version => if version = requested then override requested else Plan.next

def noting (label : String) (override : Override) : Override := fun version => do
  Plan.emit (.note (label ++ " " ++ version))
  override version

end Override

/-- Carries out those overrides that lie below a depth, the uppermost first. -/
def runBelow (overrides : List Override) (cache : Recorded Outcome) (version : String) :
    (depth : Nat) → depth ≤ overrides.length → Recorded Outcome
  | 0, _ => cache
  | depth + 1, h =>
    (overrides[depth] version).run (runBelow overrides cache version depth (by omega))

end ContractPipeline.Extension
