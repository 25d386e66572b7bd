import ContractPipeline.CommandLine.Help
import ContractPipeline.Text.Integer

/-! The commands of the program. -/
namespace ContractPipeline.CommandLine

inductive Command
  | accounts (network? : Option String)
  | resolve (version : String)
  | cached
  | config
  | networks
  | tasks
  | node (port? : Option Nat)
  deriving DecidableEq, Repr

def readPort? (text : String) : Option Nat :=
  ((Text.readInteger? .i64 text.toList).filter fun n => 0 ≤ n && n ≤ 65535).map Int.toNat

def networkOption : OptionSpec where
  short := 'n'
  long := "network"
  valueName := "NETWORK"
  about := "Network whose signers are listed (defaults to the default network)"
  accepts _ := true

def portOption : OptionSpec where
  short := 'p'
  long := "port"
  valueName := "PORT"
  about := "Port to listen on (defaults to RPC_PORT or 8545)"
  accepts text := (readPort? text).isSome

def versionArgument : ArgumentSpec where
  valueName := "VERSION"
  about := "Solidity compiler version, e.g. 0.8.0"

def plain (name about : String) (command : Command) : Spec Command :=
  .leaf name about ⟨none, none, fun _ _ => some command⟩

def programName : String := "toolchain"

def program : Spec Command :=
  .group programName "Compiler selection and lifecycle hooks for a smart-contract pipeline"
    (some "0.1.0") [
    .leaf "accounts" "Prints the list of accounts"
      ⟨some networkOption, none, fun network? _ => some (.accounts network?)⟩,
    .group "solc" "Compiler operations" none [
      .leaf "resolve" "Resolve the compiler build of a version"
        ⟨none, some versionArgument, fun _ version? => version?.map .resolve⟩,
      plain "cached" "List cached compiler versions" .cached],
    plain "config" "Print the resolved configuration" .config,
    plain "networks" "List network profiles" .networks,
    plain "tasks" "List registered tasks" .tasks,
    .leaf "node" "Start the local dev server"
      ⟨some portOption, none, fun port? _ => some (.node (port?.bind readPort?))⟩]

end ContractPipeline.CommandLine
