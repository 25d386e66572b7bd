import ContractPipeline.Configuration
import ContractPipeline.Json.Value

/-! The configuration as JSON. Of a seed phrase, only that there is one is shown. -/
namespace ContractPipeline

open Json (Value)

def NetworkProfile.members (profile : NetworkProfile) : List (String × Value) := [
  ("url", .ofText? profile.url),
  ("gas_price", .ofNumber? profile.gasPrice),
  ("accounts", .text profile.accounts.kind),
  ("timeout", .ofNumber? profile.timeout),
  ("gas", .ofNumber? profile.gas),
  ("allow_unlimited_contract_size", .bool profile.allowUnlimitedContractSize)]

def Networks.toJson (networks : Networks) : Value :=
  .record [
    ("default_network", .text networks.defaultName),
    ("profiles", .record (networks.profiles.map fun (name, profile) =>
      (name, .record profile.members)))]

/-- The profiles as a list, each with its name and whether it is the default one. -/
def Networks.toJsonList (networks : Networks) : Value :=
  .list (networks.profiles.map fun (name, profile) =>
    .record (("name", .text name) :: ("default", .bool (name == networks.defaultName)) ::
      profile.members))

/-- The whole configuration, with its paths as they are displayed. -/
def Configuration.toJson (config : Configuration) : Value :=
  .record [
    ("networks", config.networks.toJson),
    ("rpc_port", .number config.port),
    ("solidity", .record [
      ("version", .text config.solidity.version),
      ("optimizer", .record [
        ("enabled", .bool config.solidity.optimizer.enabled),
        ("runs", .number config.solidity.optimizer.runs)])]),
    ("native_compiler", .record [
      ("expected_version", .ofText? config.nativeCompiler.expectedVersion),
      ("binary_path", .ofText? (config.nativeCompiler.binaryPath.map Storage.Path.display))]),
    ("compiler_cache_dir", .text config.cacheDirectory),
    ("gas_reporter", .record [
      ("enabled", .bool config.gasReporter.enabled),
      ("show_method_sig", .bool config.gasReporter.showMethodSignature),
      ("currency", .text config.gasReporter.currency),
      ("gas_price", .number config.gasReporter.gasPrice),
      ("only_called_methods", .bool config.gasReporter.onlyCalledMethods)]),
    ("test_runner", .record [("timeout_ms", .number config.testRunner.timeout)]),
    ("typechain", .record [
      ("target", .text config.bindings.target),
      ("always_generate_overloads", .bool config.bindings.alwaysGenerateOverloads)]),
    ("named_accounts", .record (config.namedAccounts.map fun (role, index) =>
      (role, .number index)))]

def Configuration.paths (config : Configuration) : List Storage.Path :=
  config.nativeCompiler.binaryPath.toList ++ [config.cacheDirectory]

/-- What is written of a configuration: nothing, where a path in it is no text. -/
def Configuration.written? (config : Configuration) : Option Value :=
  if config.paths.all (·.toString?.isSome) then some config.toJson else none

end ContractPipeline
