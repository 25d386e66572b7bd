import ContractPipeline.Extension.Registry

/-! The application: its configuration, and a registry with the built-in extensions. -/
namespace ContractPipeline

/-- A configuration with a registry that was set up for it. -/
structure Application where
  config : Configuration
  registry : Extension.Registry

namespace Application

def bareRegistry (config : Configuration) : Extension.Registry :=
  .empty ⟨config.cacheDirectory⟩

def start (env : Environment) : Recorded (Except ConfigError Application) := do
  match ← Configuration.load env with
  | .error error => return .error error
  | .ok config =>
    let registry ← (bareRegistry config).install config
    return .ok ⟨config, registry⟩

end Application

end ContractPipeline
