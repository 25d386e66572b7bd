import ContractPipeline.Proofs.Networks
import ContractPipeline.Proofs.Startup

/-! When a configuration can be read, which variable is blamed where it cannot, and that the parts of
a configuration which come from one variable agree with each other. -/
namespace ContractPipeline

/-- The first variable, in the order of reading, that holds something else than its number. -/
inductive Environment.FirstFault (env : Environment) : (key value : String) → Prop
  | runs {value : String} (h : env.Assigns "SOLC_OPTIMIZER_RUNS" value)
      (hn : ∀ n, ¬Text.IntegerKind.u32.Padded value.toList n) :
      FirstFault env "SOLC_OPTIMIZER_RUNS" value
  | port {value : String} (hr : env.HoldsInteger .u32 "SOLC_OPTIMIZER_RUNS")
      (h : env.Assigns "RPC_PORT" value) (hn : ∀ n, ¬Text.IntegerKind.u16.Padded value.toList n) :
      FirstFault env "RPC_PORT" value

/-- A table of profiles in which a request finds exactly what is listed, and the default is. -/
structure Networks.Resolves (networks : Networks) : Prop where
  default : ∃ profile, (networks.defaultName, profile) ∈ networks.profiles ∧
    networks.resolve none = .ok (networks.defaultName, profile)
  listed : ∀ name profile, (name, profile) ∈ networks.profiles →
    networks.resolve (some name) = .ok (name, profile)
  others : ∀ name, name ∉ networks.profiles.map Prod.fst →
    networks.resolve (some name) = .error (.unknownNetwork name)

namespace Configuration

/-- A configuration whose parts agree with each other and with the variables that they share. -/
structure Consistent (env : Environment) (config : Configuration) : Prop where
  assigned : ∀ value, env.Assigns "RPC_PORT" value →
    Text.IntegerKind.u16.Padded value.toList config.port
  unassigned : (∀ value, ¬env.Assigns "RPC_PORT" value) → config.port = 8545
  readBack : Text.readInteger? .u16 (toString config.port).toList = some (config.port : Int)
  endpoint : ∃ profile, config.networks.get? "localhost" = some profile ∧
    profile.url = some ("http://localhost:" ++ toString config.port)
  networks : Networks.load env = .ok config.networks
  served : serverPort env = .ok config.port
  version : config.solidity.version = config.nativeCompiler.expectedVersion.getD "0.8.0"
  resolves : config.networks.Resolves

end Configuration

namespace Configuration

variable {env : Environment} {config : Configuration} {error : ConfigError}

/-- Where the first reading of the port has not failed, the second one does not. -/
theorem read_eq_error_iff :
    read env = .error error ↔
      runs env = .error error ∨ (∃ n, runs env = .ok n) ∧ Networks.port env = .error error := by
  rw [read_eq_error_iff_reads, Networks.load_eq_error_iff, serverPort_eq_port]
  constructor
  · rintro (hr | ⟨hr, hp | ⟨⟨networks, hl⟩, hp⟩⟩)
    · exact .inl hr
    · exact .inr ⟨hr, hp⟩
    · obtain ⟨port, hport, -⟩ := (Networks.load_eq_ok_iff env).mp hl
      rw [hport] at hp
      cases hp
  · rintro (hr | ⟨hr, hp⟩)
    · exact .inl hr
    · exact .inr ⟨hr, .inl hp⟩

theorem read_eq_error_iff_firstFault :
    read env = .error error ↔
      ∃ key value, env.FirstFault key value ∧ error = .invalidNumber key value := by
  rw [read_eq_error_iff, runs, Networks.port, Environment.exists_number_iff,
    Environment.number_eq_error_iff, Environment.number_eq_error_iff]
  constructor
  · rintro (⟨value, ha, hn, rfl⟩ | ⟨hr, value, ha, hn, rfl⟩)
    · exact ⟨_, value, .runs ha hn, rfl⟩
    · exact ⟨_, value, .port hr ha hn, rfl⟩
  · rintro ⟨key, value, hf, rfl⟩
    cases hf with
    | runs ha hn => exact .inl ⟨value, ha, hn, rfl⟩
    | port hr ha hn => exact .inr ⟨hr, value, ha, hn, rfl⟩

theorem exists_read_iff :
    (∃ config, read env = .ok config) ↔
      env.HoldsInteger .u32 "SOLC_OPTIMIZER_RUNS" ∧ env.HoldsInteger .u16 "RPC_PORT" := by
  have hr : (∃ n, runs env = .ok n) ↔ env.HoldsInteger .u32 "SOLC_OPTIMIZER_RUNS" :=
    Environment.exists_number_iff
  have hp : (∃ n, Networks.port env = .ok n) ↔ env.HoldsInteger .u16 "RPC_PORT" :=
    Environment.exists_number_iff
  rw [← hr, ← hp]
  simp only [read_eq_ok_iff]
  constructor
  · rintro ⟨_, n, port, hn, hport, -⟩
    exact ⟨⟨n, hn⟩, port, hport⟩
  · rintro ⟨⟨n, hn⟩, port, hport⟩
    exact ⟨_, n, port, hn, hport, rfl⟩

theorem resolves_standard (env : Environment) (port : Nat) : (Networks.standard env port).Resolves where
  default := by
    have hg : (Networks.standard env port).get? "localhost" = some (.localNode port) := rfl
    have ho := Networks.inOrder_standard env port
    exact ⟨.localNode port, (Networks.get?_eq_some_iff ho).mp hg, Networks.resolve_of_get?_eq_some hg⟩
  listed name profile hm := by
    have ho := Networks.inOrder_standard env port
    exact Networks.resolve_of_get?_eq_some ((Networks.get?_eq_some_iff ho).mpr hm)
  others name hn := Networks.resolve_of_get?_eq_none (Networks.get?_eq_none_iff.mpr hn)

/-- What is read of the port for the profiles and for the server agrees, since both are read from one
variable; and so does what is read of the version for the compiler and for the settings. -/
theorem consistent_assemble {runs port : Nat} {networks : Networks}
    (hl : Networks.load env = .ok networks) (hp : serverPort env = .ok port) :
    Consistent env (assemble env runs networks port) := by
  obtain ⟨shown, hshown, rfl⟩ := (Networks.load_eq_ok_iff env).mp hl
  -- Two readings of one variable: the port in the profile is the one that is served.
  have hagree : shown = port := by
    rw [serverPort_eq_port, hshown, Except.ok.injEq] at hp
    exact hp
  have hi : env.integer .u16 "RPC_PORT" 8545 = .ok (port : Int) :=
    Environment.integer_of_number rfl hp
  have hc := Environment.integer_eq_ok_iff.mp hi
  have hrange : (port : Int) ≤ 65535 := by
    rcases hc with ⟨-, hd⟩ | ⟨value, -, hv⟩
    · omega
    · exact hv.atMost
  constructor
  case assigned =>
    intro value ha
    rcases hc with ⟨hn, -⟩ | ⟨other, ho, hv⟩
    · exact absurd ha (hn value)
    · cases ho.unique ha
      exact hv
  case unassigned =>
    intro hn
    rcases hc with ⟨-, hd⟩ | ⟨other, ho, -⟩
    · exact Int.ofNat.inj hd
    · exact absurd ho (hn other)
  case readBack =>
    have hl : (0 : Int) ≤ port := Int.natCast_nonneg port
    exact Text.readInteger?_toString hl hrange
  case endpoint =>
    refine ⟨.localNode shown, rfl, ?_⟩
    rw [hagree]
    rfl
  case networks => exact hl
  case served => exact hp
  case version => rfl
  case resolves => exact resolves_standard env shown

/-- A configuration can be read exactly if the two numbers can. Otherwise the first variable at fault
is blamed with its whole value, and nothing is recorded. A configuration that is read is consistent. -/
theorem load_consistent (env : Environment) :
    ((∃ config, (load env).value = .ok config) ↔
      env.HoldsInteger .u32 "SOLC_OPTIMIZER_RUNS" ∧ env.HoldsInteger .u16 "RPC_PORT") ∧
    (∀ error, (load env).value = .error error ↔
      ∃ key value, env.FirstFault key value ∧ error = .invalidNumber key value) ∧
    (∀ error, (load env).value = .error error → (load env).events = []) ∧
    ∀ config, (load env).value = .ok config →
      (load env).events = [.log config.loaded] ∧ Consistent env config := by
  simp only [value_load]
  refine ⟨exists_read_iff, fun error => read_eq_error_iff_firstFault, fun error h => ?_,
    fun config h => ⟨?_, ?_⟩⟩
  · rw [load, h]
    rfl
  · rw [load, h]
    rfl
  · obtain ⟨n, networks, port, -, hl, hp, rfl⟩ := read_eq_ok_iff_reads.mp h
    exact consistent_assemble hl hp

theorem load_consistent_signed_port :
    let env : Environment := ⟨[("RPC_PORT", "x"), ("RPC_PORT", "\t+0080 "), ("SOLC_VERSION", "0.7.6")]⟩
    let faulty : Environment := ⟨[("RPC_PORT", "65536"), ("SOLC_OPTIMIZER_RUNS", " 2e3 ")]⟩
    (∃ config, (load env).value = .ok config ∧ config.port = 80 ∧ Consistent env config) ∧
    (load faulty).value = .error (.invalidNumber "SOLC_OPTIMIZER_RUNS" " 2e3 ") ∧
    (load faulty).events = [] ∧ faulty.FirstFault "SOLC_OPTIMIZER_RUNS" " 2e3 " := by
  intro env faulty
  have hl : (load env).value = .ok (ofNumbers env 200 80) := by rfl
  have hf : (load faulty).value = .error (.invalidNumber "SOLC_OPTIMIZER_RUNS" " 2e3 ") := by rfl
  obtain ⟨-, -, -, hc⟩ := load_consistent env
  obtain ⟨-, he, hn, -⟩ := load_consistent faulty
  obtain ⟨key, value, hfault, hk⟩ := (he _).mp hf
  cases hk
  exact ⟨⟨_, hl, rfl, (hc _ hl).2⟩, hf, hn _ hf, hfault⟩

end Configuration

end ContractPipeline
