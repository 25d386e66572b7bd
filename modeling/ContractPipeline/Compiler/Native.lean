import ContractPipeline.Compiler.Build
import ContractPipeline.Environment
import ContractPipeline.Plan

/-! The installed native compiler, and how it is preferred to what lies below it. -/
namespace ContractPipeline.Compiler

/-- The version that the native compiler serves, and where it is. -/
structure NativeCompiler where
  expectedVersion : Option String
  binaryPath : Option Storage.Path
  deriving DecidableEq, Repr

inductive Descriptor
  | native (build : Build)
  | delegated (build : Build)
  deriving DecidableEq, Repr

namespace Descriptor

def build : Descriptor → Build
  | .native build | .delegated build => build

def isNative : Descriptor → Bool
  | .native _ => true
  | .delegated _ => false

end Descriptor

namespace NativeCompiler

def ofEnvironment (env : Environment) : NativeCompiler where
  expectedVersion := env.get? Variable.solcVersion.key
  binaryPath := (env.get? Variable.solcPath.key).map .ofString

/-- Whether the native compiler serves a version: without an expected version, none. -/
def serves (native : NativeCompiler) (version : String) : Bool :=
  native.expectedVersion == some version

/-- The path of the compiler; without one, the name of the program. -/
def path (native : NativeCompiler) : Storage.Path :=
  native.binaryPath.getD "solc"

def usingNative (compiler : NativeCompiler) (version : String) : LogRecord :=
  ⟨.debug, "Using native compiler " ++ compiler.path.quote ++ " for solc " ++ version⟩

def usingDownloaded (version : String) : LogRecord :=
  ⟨.warn, "Using compiler downloaded by the build framework for solc " ++ version⟩

/-- Answers for the expected version without looking further; any other version is handed on once,
and what comes back is kept as it is. -/
def resolve {ε : Type} (native : NativeCompiler) (version : String) :
    Plan (Except ε Build) (Except ε Descriptor) := do
  if native.serves version then
    Plan.emit (.log (native.usingNative version))
    return .ok (.native (.native native.path version))
  else
    Plan.emit (.log (usingDownloaded version))
    let outcome ← Plan.next
    return outcome.map .delegated

end NativeCompiler

end ContractPipeline.Compiler
