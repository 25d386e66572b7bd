import ContractPipeline.Application
import ContractPipeline.Proofs.Networks

/-! What a successful reading of the environment yields: the configuration that is put together from
the two numbers in it, and an application with exactly the built-in extensions. -/
namespace ContractPipeline

namespace Configuration

variable {env env' : Environment} {config : Configuration}

theorem runs_eq (h : env.get? Variable.optimizerRuns.key = env'.get? Variable.optimizerRuns.key) :
    runs env = runs env' :=
  Environment.number_congr h _ _

/-- A configuration is read if its three parts are that may fail. -/
theorem read_eq_ok_iff_reads :
    read env = .ok config ↔ ∃ n networks port, runs env = .ok n ∧
      Networks.load env = .ok networks ∧ serverPort env = .ok port ∧
      config = assemble env n networks port := by
  unfold read
  cases runs env with
  | error error => simp [bind, Except.bind]
  | ok n =>
    cases Networks.load env with
    | error error => simp [bind, Except.bind]
    | ok networks =>
      cases serverPort env with
      | error error => simp [bind, Except.bind]
      | ok port => simp [bind, Except.bind, pure, Except.pure, eq_comm]

theorem read_eq_error_iff_reads {error : ConfigError} :
    read env = .error error ↔ runs env = .error error ∨
      (∃ n, runs env = .ok n) ∧ (Networks.load env = .error error ∨
        (∃ networks, Networks.load env = .ok networks) ∧ serverPort env = .error error) := by
  unfold read
  cases runs env with
  | error other => simp [bind, Except.bind]
  | ok n =>
    cases Networks.load env with
    | error other => simp [bind, Except.bind]
    | ok networks =>
      cases serverPort env with
      | error other => simp [bind, Except.bind]
      | ok port => simp [bind, Except.bind, pure, Except.pure]

/-- The port is read alike for the profiles and for the server: in the same variable, as a number of
the same type, and with the same default. -/
theorem serverPort_eq_port (env : Environment) : serverPort env = Networks.port env := rfl

def ofNumbers (env : Environment) (runs port : Nat) : Configuration :=
  assemble env runs (.standard env port) port

/-- The second reading of the port finds what the first one found. -/
theorem read_eq_ok_iff :
    read env = .ok config ↔ ∃ n port, runs env = .ok n ∧ Networks.port env = .ok port ∧
      config = ofNumbers env n port := by
  simp only [read_eq_ok_iff_reads, serverPort_eq_port, Networks.load_eq_ok_iff]
  constructor
  · rintro ⟨n, networks, port, hn, ⟨first, hf, rfl⟩, hp, rfl⟩
    rw [hf, Except.ok.injEq] at hp
    subst hp
    exact ⟨n, first, hn, hf, rfl⟩
  · rintro ⟨n, port, hn, hp, rfl⟩
    exact ⟨n, _, port, hn, ⟨port, hp, rfl⟩, hp, rfl⟩

theorem value_load (env : Environment) : (load env).value = read env := by
  unfold load
  cases read env with
  | error error => rfl
  | ok config => rfl

end Configuration

namespace Application

/-- The application of a configuration: over its compiler cache, the accounts task, the raised
keep-alive timeout and the native compiler. -/
def standard (config : Configuration) : Application where
  config := config
  registry :=
    { cache := ⟨config.cacheDirectory⟩
      overrides := [.native config.nativeCompiler]
      serverHooks := [.raise]
      tasks := [(Extension.Registry.accountsName, Extension.Registry.accountsTask)] }

theorem start_eq (env : Environment) :
    start env = match Configuration.read env with
      | .error error => pure (.error error)
      | .ok config => do
        Recorded.emit (.log config.loaded)
        return .ok (standard config) := by
  unfold start Configuration.load
  cases h : Configuration.read env with
  | error error => rfl
  | ok config => rfl

theorem value_start_eq_ok_iff (env : Environment) (app : Application) :
    (start env).value = .ok app ↔
      ∃ config, Configuration.read env = .ok config ∧ app = standard config := by
  rw [start_eq]
  cases h : Configuration.read env with
  | error error => simp
  | ok config => simp [eq_comm]

end Application

end ContractPipeline
