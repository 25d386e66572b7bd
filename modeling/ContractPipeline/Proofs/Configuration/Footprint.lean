import ContractPipeline.Proofs.Networks
import ContractPipeline.Proofs.Startup

/-! Which variables a configuration is made from. Two environments that assign the same to the eleven
variables of the pipeline are read alike, and each part of a configuration depends on its own
variables only. -/
namespace ContractPipeline.Configuration

open NetworkProfile (publicTest_eq inProcess_eq)
open Networks (port_eq)

def variableNames : List String :=
  ["SOLC_VERSION", "SOLC_PATH", "SOLC_OPTIMIZER_RUNS", "REPORT_GAS", "RPC_PORT", "TEST_MNEMONIC",
    "RINKEBY_URL", "RINKEBY_MNEMONIC", "GOERLI_URL", "GOERLI_MNEMONIC", "SOLC_CACHE_DIR"]

def ShareProfile (config config' : Configuration) (name : String) : Prop :=
  ∃ profile, config.networks.get? name = some profile ∧ config'.networks.get? name = some profile

/-- Each part is the same in both configurations if its own variables are, whatever the others. -/
structure SameParts (env env' : Environment) (config config' : Configuration) : Prop where
  rinkeby : env.AgreeOn env' ["RINKEBY_URL", "RINKEBY_MNEMONIC"] →
    config.ShareProfile config' "rinkeby"
  goerli : env.AgreeOn env' ["GOERLI_URL", "GOERLI_MNEMONIC"] → config.ShareProfile config' "goerli"
  inProcess : env.AgreeOn env' ["TEST_MNEMONIC"] → config.ShareProfile config' "hardhat"
  localNode : env.AgreeOn env' ["RPC_PORT"] →
    config.ShareProfile config' "localhost" ∧ config.port = config'.port
  nativeCompiler : env.AgreeOn env' ["SOLC_VERSION", "SOLC_PATH"] →
    config.nativeCompiler = config'.nativeCompiler
  solidity : env.AgreeOn env' ["SOLC_VERSION", "SOLC_OPTIMIZER_RUNS"] →
    config.solidity = config'.solidity
  cacheDirectory : env.AgreeOn env' ["SOLC_CACHE_DIR"] →
    config.cacheDirectory = config'.cacheDirectory
  gasReporter : ((∃ value, env.Assigns "REPORT_GAS" value) ↔
      ∃ value, env'.Assigns "REPORT_GAS" value) →
    config.gasReporter = config'.gasReporter
  constant : config.networks.defaultName = config'.networks.defaultName ∧
    config.testRunner = config'.testRunner ∧ config.bindings = config'.bindings ∧
    config.namedAccounts = config'.namedAccounts

variable {env env' : Environment}

theorem key_mem_variableNames (v : Variable) : v.key ∈ variableNames := by
  cases v <;> decide

theorem ofEnvironment_eq
    (hv : env.get? Variable.solcVersion.key = env'.get? Variable.solcVersion.key)
    (hp : env.get? Variable.solcPath.key = env'.get? Variable.solcPath.key) :
    Compiler.NativeCompiler.ofEnvironment env = .ofEnvironment env' := by
  rw [Compiler.NativeCompiler.ofEnvironment, hv, hp]
  rfl

theorem networksLoad_eq (h : ∀ v : Variable, env.get? v.key = env'.get? v.key) :
    Networks.load env = Networks.load env' := by
  have hd (port : Nat) : Networks.definitions env port = Networks.definitions env' port := by
    simp only [Networks.definitions, inProcess_eq (h .testPhrase), publicTest_eq (h _) (h _)]
  have hs : Networks.standard env = Networks.standard env' := by
    funext port
    rw [Networks.standard, hd port]
    rfl
  rw [Networks.load, Networks.load, hs, port_eq (h .rpcPort)]

theorem assemble_eq (h : ∀ v : Variable, env.get? v.key = env'.get? v.key) (runs : Nat)
    (networks : Networks) (port : Nat) :
    assemble env runs networks port = assemble env' runs networks port := by
  have hn := ofEnvironment_eq (h .solcVersion) (h .solcPath)
  have hs : env.isSet Variable.reportGas.key = env'.isSet Variable.reportGas.key :=
    congrArg Option.isSome (h .reportGas)
  simp only [assemble, hn, hs, h .solcVersion, h .cacheDirectory]

theorem load_eq (h : ∀ v : Variable, env.get? v.key = env'.get? v.key) : load env = load env' := by
  have hr : read env = read env' := by
    simp only [read, runs_eq (h .optimizerRuns), networksLoad_eq h, serverPort_eq_port,
      port_eq (h .rpcPort), assemble_eq h]
  rw [load, load, hr]

theorem get?_key_eq {names : List String} (h : env.AgreeOn env' names) (v : Variable)
    (hv : v.key ∈ names) : env.get? v.key = env'.get? v.key :=
  h.get?_eq hv

theorem sameParts_ofNumbers {n m port port' : Nat} (hn : runs env = .ok n) (hm : runs env' = .ok m)
    (hp : Networks.port env = .ok port) (hp' : Networks.port env' = .ok port') :
    SameParts env env' (ofNumbers env n port) (ofNumbers env' m port') where
  rinkeby h := by
    have he := publicTest_eq (get?_key_eq h .rinkebyUrl (by decide))
      (get?_key_eq h .rinkebyPhrase (by decide))
    exact ⟨_, rfl, congrArg some he.symm⟩
  goerli h := by
    have he := publicTest_eq (get?_key_eq h .goerliUrl (by decide))
      (get?_key_eq h .goerliPhrase (by decide))
    exact ⟨_, rfl, congrArg some he.symm⟩
  inProcess h := by
    have he := inProcess_eq (get?_key_eq h .testPhrase (by decide))
    exact ⟨_, rfl, congrArg some he.symm⟩
  localNode h := by
    have he := port_eq (get?_key_eq h .rpcPort (by decide))
    rw [hp, hp', Except.ok.injEq] at he
    subst he
    exact ⟨⟨_, rfl, rfl⟩, rfl⟩
  nativeCompiler h :=
    ofEnvironment_eq (get?_key_eq h .solcVersion (by decide)) (get?_key_eq h .solcPath (by decide))
  solidity h := by
    have he := runs_eq (get?_key_eq h .optimizerRuns (by decide))
    rw [hn, hm, Except.ok.injEq] at he
    subst he
    simp only [ofNumbers, assemble, get?_key_eq h .solcVersion (by decide)]
  cacheDirectory h := by
    simp only [ofNumbers, assemble, get?_key_eq h .cacheDirectory (by decide)]
  gasReporter h := by
    have hs : env.isSet Variable.reportGas.key = env'.isSet Variable.reportGas.key := by
      apply Bool.eq_iff_iff.mpr
      rw [Environment.isSet_iff, Environment.isSet_iff]
      exact h
    simp only [ofNumbers, assemble, hs]
  constant := ⟨rfl, rfl, rfl, rfl⟩

/-- The reading of a configuration, with its errors and its record, depends on the eleven variables:
not on other names, nor on pairs that a later one replaces, nor on how pairs with different names are
ordered. Of two configurations, each part depends on its own variables. -/
theorem load_depends_on_variables :
    (∀ env env', env.AgreeOn env' variableNames → load env = load env') ∧
    (∀ pairs pairs' : List (String × String),
      (∀ key ∈ variableNames, pairs.filter (·.1 = key) = pairs'.filter (·.1 = key)) →
      load ⟨pairs⟩ = load ⟨pairs'⟩) ∧
    (∀ before pair after,
      (pair.1 ∈ variableNames → ∃ later ∈ after, later.1 = pair.1) →
      load ⟨before ++ pair :: after⟩ = load ⟨before ++ after⟩) ∧
    ∀ env env' config config', (load env).value = .ok config → (load env').value = .ok config' →
      SameParts env env' config config' := by
  refine ⟨fun env env' h => ?_, fun pairs pairs' h => ?_, fun before pair after h => ?_,
    fun env env' config config' hc hc' => ?_⟩
  · apply load_eq
    intro v
    exact h.get?_eq (key_mem_variableNames v)
  · apply load_eq
    intro v
    exact Environment.get?_congr_filter (h v.key (key_mem_variableNames v))
  · apply load_eq
    intro v
    apply Environment.get?_append_cons
    intro hk
    obtain ⟨later, hl, hn⟩ := h (hk ▸ key_mem_variableNames v)
    exact ⟨later, hl, hn.trans hk⟩
  · rw [value_load] at hc hc'
    obtain ⟨n, port, hn, hp, rfl⟩ := read_eq_ok_iff.mp hc
    obtain ⟨m, port', hm, hp', rfl⟩ := read_eq_ok_iff.mp hc'
    exact sameParts_ofNumbers hn hm hp hp'

theorem load_depends_on_variables_goerli :
    let env : Environment := ⟨[("SOLC_VERSION", "0.7.6"), ("HOME", "/root"), ("SOLC_VERSION", ""),
      ("RPC_PORT", "1"), ("GOERLI_URL", "https://goerli.example"), ("RPC_PORT", "\t+0080 ")]⟩
    let fewer : Environment := ⟨[("GOERLI_URL", "https://goerli.example"), ("RPC_PORT", "\t+0080 ")]⟩
    let other : Environment := ⟨[("GOERLI_URL", "x"), ("RPC_PORT", "9545"), ("REPORT_GAS", "no")]⟩
    load env = load fewer ∧
    ∃ config config', (load env).value = .ok config ∧ (load other).value = .ok config' ∧
      config.ShareProfile config' "rinkeby" ∧ config.solidity = config'.solidity ∧
      ¬config.ShareProfile config' "goerli" ∧ ¬config.ShareProfile config' "localhost" := by
  intro env fewer other
  obtain ⟨hl, -, -, hs⟩ := load_depends_on_variables
  have he : (load env).value = .ok (ofNumbers env 200 80) := by rfl
  have ho : (load other).value = .ok (ofNumbers other 200 9545) := by rfl
  have hp := hs env other _ _ he ho
  refine ⟨hl env fewer (Environment.agreeOn_iff.mpr (by decide)), _, _, he, ho, ?_, ?_, ?_, ?_⟩
  · exact hp.rinkeby (Environment.agreeOn_iff.mpr (by decide))
  · exact hp.solidity (Environment.agreeOn_iff.mpr (by decide))
  · rintro ⟨profile, hg, hg'⟩
    exact absurd (hg.trans hg'.symm) (by decide)
  · rintro ⟨profile, hg, hg'⟩
    exact absurd (hg.trans hg'.symm) (by decide)

end ContractPipeline.Configuration
