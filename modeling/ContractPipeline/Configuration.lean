import ContractPipeline.Compiler.Native
import ContractPipeline.Network

/-! The configuration of the pipeline, read once from the environment. -/
namespace ContractPipeline

structure Optimizer where
  enabled : Bool
  runs : Nat
  deriving DecidableEq, Repr

/-- What contracts are compiled with. -/
structure Solidity where
  version : String
  optimizer : Optimizer
  deriving DecidableEq, Repr

/-- Reports of gas usage. The price, in gwei, is for estimates of costs. -/
structure GasReporter where
  enabled : Bool
  showMethodSignature : Bool
  currency : String
  gasPrice : Nat
  onlyCalledMethods : Bool
  deriving DecidableEq, Repr

/-- The test runner, with its timeout in milliseconds. -/
structure TestRunner where
  timeout : Nat
  deriving DecidableEq, Repr

structure Bindings where
  target : String
  alwaysGenerateOverloads : Bool
  deriving DecidableEq, Repr

structure Configuration where
  networks : Networks
  port : Nat
  solidity : Solidity
  nativeCompiler : Compiler.NativeCompiler
  cacheDirectory : Storage.Path
  gasReporter : GasReporter
  testRunner : TestRunner
  bindings : Bindings
  namedAccounts : List (String × Nat)
  deriving DecidableEq, Repr

namespace Configuration

def defaultVersion : String := "0.8.0"

def defaultRuns : Nat := 200

def defaultCacheDirectory : String := ".toolchain/compilers"

def runs (env : Environment) : Except ConfigError Nat :=
  env.number .u32 Variable.optimizerRuns.key defaultRuns

/-- The port of the server, from the variable that the profile of the local node is made from. -/
def serverPort (env : Environment) : Except ConfigError Nat :=
  env.number .u16 Variable.rpcPort.key Networks.defaultPort

/-- The configuration for an environment, given those parts of it that cannot always be read. -/
def assemble (env : Environment) (runs : Nat) (networks : Networks) (port : Nat) :
    Configuration where
  networks := networks
  port := port
  solidity := ⟨(env.get? Variable.solcVersion.key).getD defaultVersion, ⟨true, runs⟩⟩
  nativeCompiler := .ofEnvironment env
  cacheDirectory := .ofString ((env.get? Variable.cacheDirectory.key).getD defaultCacheDirectory)
  gasReporter := ⟨env.isSet Variable.reportGas.key, true, "USD", 205, true⟩
  testRunner := ⟨300000⟩
  bindings := ⟨"ethers-v5", false⟩
  namedAccounts := [("deployer", 0)]

/-- Reads a configuration. Nothing of what the profiles were read from is kept, so that the variable
of the port is read a second time. -/
def read (env : Environment) : Except ConfigError Configuration := do
  let runs ← runs env
  let networks ← Networks.load env
  let port ← serverPort env
  return assemble env runs networks port

def loaded (config : Configuration) : LogRecord :=
  ⟨.debug, "Loaded configuration: solc " ++ config.solidity.version ++ ", " ++
    toString config.solidity.optimizer.runs ++ " optimizer runs, default network " ++
    config.networks.defaultName⟩

def load (env : Environment) : Recorded (Except ConfigError Configuration) :=
  match read env with
  | .error error => pure (.error error)
  | .ok config => do
    Recorded.emit (.log config.loaded)
    return .ok config

def namedAccount? (config : Configuration) (role : String) : Option Nat :=
  config.namedAccounts.lookup role

end Configuration

end ContractPipeline
