import ContractPipeline.Proofs.Account.Listing
import ContractPipeline.Proofs.Configuration.Veil
import ContractPipeline.Proofs.Networks
import ContractPipeline.Proofs.Startup
import ContractPipeline.Proofs.Wallet.Outcomes

/-! The task that lists accounts. All keys of a network are derived before the first address is
written, and nothing that is configured for another network matters. -/
namespace ContractPipeline

open Extension (Registry TaskContext TaskError TaskHandler)
open Storage (Sink)

namespace Networks

def networkVariables : List Variable :=
  [.testPhrase, .rinkebyUrl, .rinkebyPhrase, .goerliUrl, .goerliPhrase]

def ownVariables : String → List Variable
  | "goerli" => [.goerliUrl, .goerliPhrase]
  | "hardhat" => [.testPhrase]
  | "rinkeby" => [.rinkebyUrl, .rinkebyPhrase]
  | _ => []

end Networks

/-- Two environments that agree on all variables of the configuration but the endpoints and the seed
phrases of other networks than one. -/
def Environment.AgreeFor (name : String) (env env' : Environment) : Prop :=
  ∀ v : Variable, (v ∈ Networks.networkVariables → v ∈ Networks.ownVariables name) →
    env.get? v.key = env'.get? v.key

theorem Environment.AgreeFor.get?_of_notMem {name : String} {env env' : Environment} {v : Variable}
    (h : env.AgreeFor name env') (hv : v ∉ Networks.networkVariables) :
    env.get? v.key = env'.get? v.key :=
  h v fun hm => absurd hm hv

/-- The lines for the accounts of a phrase: the address of each index, in order. -/
structure Wallet.IsListing (phrase : String) (lines : List String) : Prop where
  length : lines.length = 20
  address : ∀ i < 20, ∃ pair, Wallet.derive phrase (.ofNat i) = .ok pair ∧
    lines[i]? = some pair.address.text
  single : ∀ line ∈ lines, '\n' ∉ line.toList

section Phrase

variable {phrase : String}

theorem Provider.isListing {signers : List Signer}
    (hl : signers.length = 20) (hs : ∀ i (h : i < signers.length),
      signer (Wallet.Accounts.ofPhrase phrase) (.ofNat (0 + i)) = .ok signers[i]) :
    Wallet.IsListing phrase (signers.map Signer.address) where
  length := by rw [List.length_map, hl]
  address i hi := by
    have hd := signer_ofPhrase_eq_ok (hs i (by omega))
    rw [Nat.zero_add] at hd
    exact ⟨_, hd, by simp [hl, hi, Signer.address]⟩
  single line hm := by
    obtain ⟨signer, -, rfl⟩ := List.mem_map.mp hm
    exact newline_notMem_address signer

theorem Provider.signers_of_derivable
    (hd : ∀ i < 20, ∃ pair, Wallet.derive phrase (.ofNat i) = .ok pair) :
    ∃ found, signers (Wallet.Accounts.ofPhrase phrase) 20 0 = .ok found ∧
      Wallet.IsListing phrase (found.map Signer.address) := by
  have hc := collects_signers (Wallet.Accounts.ofPhrase phrase) 20 0
  generalize signers (Wallet.Accounts.ofPhrase phrase) 20 0 = outcome at hc
  cases hc with
  | all hl hs => exact ⟨_, rfl, isListing hl hs⟩
  | @least i _ hi he hs =>
    obtain ⟨e, hf, -⟩ := signer_ofPhrase_eq_error he
    obtain ⟨pair, hp⟩ := hd i hi
    rw [Nat.zero_add, hp] at hf
    cases hf

theorem Provider.signers_of_underivable
    (hd : ∃ i < 20, ∃ e, Wallet.derive phrase (.ofNat i) = .error e) :
    ∃ i < 20, ∃ e, Wallet.derive phrase (.ofNat i) = .error e ∧
      (∀ j < i, ∃ pair, Wallet.derive phrase (.ofNat j) = .ok pair) ∧
      signers (Wallet.Accounts.ofPhrase phrase) 20 0 = .error (.key e) := by
  have hc := collects_signers (Wallet.Accounts.ofPhrase phrase) 20 0
  generalize signers (Wallet.Accounts.ofPhrase phrase) 20 0 = outcome at hc
  cases hc with
  | all hl hs =>
    obtain ⟨i, hi, e, he⟩ := hd
    have hp := signer_ofPhrase_eq_ok (hs i (hl ▸ hi))
    rw [Nat.zero_add, he] at hp
    cases hp
  | @least i _ hi he hs =>
    obtain ⟨e, hf, rfl⟩ := signer_ofPhrase_eq_error he
    rw [Nat.zero_add] at hf
    refine ⟨i, hi, e, hf, ?_, rfl⟩
    intro j hj
    obtain ⟨signer, hs⟩ := hs j hj
    rw [Nat.zero_add] at hs
    exact ⟨_, signer_ofPhrase_eq_ok hs⟩

end Phrase

namespace Extension.TaskHandler

variable {context : TaskContext} {sink : Sink}

theorem accounts_congr {context' : TaskContext}
    (h : context.config.networks.resolve context.network? =
      context'.config.networks.resolve context'.network?) :
    accounts context = accounts context' := by
  unfold accounts
  rw [h]

theorem value_accounts_of_error {error : ConfigError}
    (h : context.config.networks.resolve context.network? = .error error) :
    ((accounts context).on sink).value = (.error (.config error), sink) := by
  rw [accounts, h]
  rfl

theorem value_accounts_of_ok {name : String} {profile : NetworkProfile}
    (h : context.config.networks.resolve context.network? = .ok (name, profile)) :
    ((accounts context).on sink).value =
      match ((Provider.ofSource profile.accounts).list.on sink).value with
      | (.ok _, next) => (.ok (), next)
      | (.error error, next) => (.error (.signer error), next) := by
  unfold accounts
  rw [Job.value_on_bind, Job.value_on_ofExcept, h]
  dsimp only [Except.mapError]
  rw [Job.value_on_bind, Job.value_on_emit]
  dsimp only
  rw [Job.value_on_bind, Job.value_on_failingAs]
  obtain ⟨result, next⟩ := ((Provider.ofSource profile.accounts).list.on sink).value
  cases result with
  | error error => rfl
  | ok => rfl

theorem value_accounts_of_remote {name : String} {profile : NetworkProfile}
    (h : context.config.networks.resolve context.network? = .ok (name, profile))
    (hp : profile.accounts = .remote) : ((accounts context).on sink).value = (.ok (), sink) := by
  rw [value_accounts_of_ok h, hp]
  rfl

theorem value_accounts_of_signers_error {name phrase : String} {profile : NetworkProfile}
    {error : SignerError}
    (h : context.config.networks.resolve context.network? = .ok (name, profile))
    (hp : profile.accounts = .phrase phrase)
    (hs : Provider.signers (Wallet.Accounts.ofPhrase phrase) 20 0 = .error error) :
    ((accounts context).on sink).value = (.error (.signer error), sink) := by
  have hv : (Provider.ofSource (.phrase phrase)).value = .error error := hs
  rw [value_accounts_of_ok h, hp, Provider.value_on_list, hv]

/-- What a listing ends in: all lines were offered, or the sink has refused what was offered last,
and only the beginning of the lines was offered. -/
def Offers (sink : Sink) (lines : List String) (result : Except TaskError Unit × Sink) : Prop :=
  (result.1 = .ok () ∧ result.2.offers = sink.offers ++ Provider.lineBytes lines) ∨
    ∃ error rest, result.1 = .error (.signer (.io error)) ∧
      sink.refusal? result.2.offered = some error ∧
      sink.offers ++ Provider.lineBytes lines = result.2.offers ++ rest

theorem offers_accounts_of_signers_ok {name phrase : String} {profile : NetworkProfile}
    {signers : List Signer}
    (h : context.config.networks.resolve context.network? = .ok (name, profile))
    (hp : profile.accounts = .phrase phrase)
    (hs : Provider.signers (Wallet.Accounts.ofPhrase phrase) 20 0 = .ok signers) :
    Offers sink (signers.map Signer.address) ((accounts context).on sink).value := by
  have hv : (Provider.ofSource (.phrase phrase)).value = .ok signers := hs
  rw [value_accounts_of_ok h, hp, Provider.value_on_list, hv]
  have he := Provider.ends_writeAddresses signers sink
  dsimp only
  generalize ((Provider.writeAddresses signers).on sink).value = result at he
  cases he with
  | complete _ ho => exact .inl ⟨rfl, ho⟩
  | refused rest _ he ho => exact .inr ⟨_, rest, rfl, he, ho⟩

end Extension.TaskHandler

namespace Networks

variable {env env' : Environment} {name : String}

theorem resolve_congr {networks networks' : Networks} {name? : Option String}
    (hd : networks.defaultName = networks'.defaultName)
    (hg : networks.get? (name?.getD networks'.defaultName) =
      networks'.get? (name?.getD networks'.defaultName)) :
    networks.resolve name? = networks'.resolve name? := by
  simp only [resolve, hd, hg]

theorem publicTest_congr {url phrase : Variable} (h : env.AgreeFor name env')
    (hu : url ∈ ownVariables name) (hp : phrase ∈ ownVariables name) :
    NetworkProfile.publicTest env url phrase = .publicTest env' url phrase :=
  NetworkProfile.publicTest_eq (h url fun _ => hu) (h phrase fun _ => hp)

theorem inProcess_congr (h : env.AgreeFor "hardhat" env') :
    NetworkProfile.inProcess env = .inProcess env' :=
  NetworkProfile.inProcess_eq (h .testPhrase fun _ => by decide)

/-- The profile of a network is made of its own variables. -/
theorem get?_standard_congr (h : env.AgreeFor name env') (port : Nat) :
    (standard env port).get? name = (standard env' port).get? name := by
  by_cases hg : name = "goerli"
  · subst hg
    exact congrArg some (publicTest_congr h (by decide) (by decide))
  by_cases hh : name = "hardhat"
  · subst hh
    exact congrArg some (inProcess_congr h)
  by_cases hl : name = "localhost"
  · subst hl
    rfl
  by_cases hr : name = "rinkeby"
  · subst hr
    exact congrArg some (publicTest_congr h (by decide) (by decide))
  have hn (env : Environment) : (standard env port).get? name = none := by
    simp [get?_standard, definitions, publicTests, List.lookup_cons, beq_eq_false_iff_ne.mpr, hg, hh,
      hl, hr]
  rw [hn env, hn env']

end Networks

namespace Application

theorem run_accounts_standard (config : Configuration) (context : TaskContext) :
    (standard config).registry.run "accounts" context = TaskHandler.accounts context := rfl

/-- Nothing of the configuration is read differently but the profiles of other networks. -/
theorem start_agreeFor {env env' : Environment} {app : Application} {name? : Option String}
    (h : (start env).value = .ok app)
    (ha : env.AgreeFor (name?.getD app.config.networks.defaultName) env') :
    ∃ app', (start env').value = .ok app' ∧
      app'.config.networks.resolve name? = app.config.networks.resolve name? := by
  obtain ⟨config, hc, rfl⟩ := (value_start_eq_ok_iff env app).mp h
  obtain ⟨runs, port, hr, hp, rfl⟩ := Configuration.read_eq_ok_iff.mp hc
  have hr' : Configuration.runs env' = .ok runs :=
    (Configuration.runs_eq (ha.get?_of_notMem (v := .optimizerRuns) (by decide))).symm.trans hr
  have hp' : Networks.port env' = .ok port :=
    (Networks.port_eq (ha.get?_of_notMem (v := .rpcPort) (by decide))).symm.trans hp
  have hc' := Configuration.read_eq_ok_iff.mpr ⟨runs, port, hr', hp', rfl⟩
  refine ⟨_, (value_start_eq_ok_iff env' _).mpr ⟨_, hc', rfl⟩, ?_⟩
  have hg := Networks.get?_standard_congr ha port
  change (Networks.standard env' port).resolve name? = (Networks.standard env port).resolve name?
  exact Networks.resolve_congr rfl hg.symm

/-- What the task that lists accounts does, on any sink: a network that is not in the table, and a
phrase of which some key cannot be derived, are reported before anything is offered to the sink; a
network without a phrase offers nothing; all other phrases offer the lines of their addresses, and
fail only where the sink does. Nothing that is configured for another network counts. -/
theorem lists_accounts (env : Environment) (app : Application) (h : (start env).value = .ok app)
    (name? : Option String) :
    let networks := app.config.networks
    let name := name?.getD networks.defaultName
    networks.defaultName = "localhost" ∧
    networks.profiles.map Prod.fst = ["goerli", "hardhat", "localhost", "rinkeby"] ∧
    (∀ sink : Sink,
      let result := ((app.registry.run "accounts" ⟨app.config, name?⟩).on sink).value
      (networks.get? name = none → result = (.error (.config (.unknownNetwork name)), sink)) ∧
      ∀ profile, networks.get? name = some profile →
        (profile.accounts = .remote → result = (.ok (), sink)) ∧
        ∀ phrase, profile.accounts = .phrase phrase →
          ((∃ i < 20, ∃ e, Wallet.derive phrase (.ofNat i) = .error e) →
            ∃ i < 20, ∃ e, Wallet.derive phrase (.ofNat i) = .error e ∧
              (∀ j < i, ∃ pair, Wallet.derive phrase (.ofNat j) = .ok pair) ∧
              result = (.error (.signer (.key e)), sink)) ∧
          ((∀ i < 20, ∃ pair, Wallet.derive phrase (.ofNat i) = .ok pair) →
            ∃ lines, Wallet.IsListing phrase lines ∧ TaskHandler.Offers sink lines result)) ∧
    ∀ env', env.AgreeFor name env' →
      ∃ app', (start env').value = .ok app' ∧ ∀ sink,
        (app'.registry.run "accounts" ⟨app'.config, name?⟩).on sink =
          (app.registry.run "accounts" ⟨app.config, name?⟩).on sink := by
  intro networks name
  obtain ⟨config, hc, rfl⟩ := (value_start_eq_ok_iff env app).mp h
  refine ⟨?_, ?_, fun sink => ⟨fun hn => ?_, fun profile hg => ⟨fun hp => ?_, fun phrase hp => ?_⟩⟩,
    fun env' ha => ?_⟩
  · obtain ⟨runs, port, -, -, rfl⟩ := Configuration.read_eq_ok_iff.mp hc
    rfl
  · obtain ⟨runs, port, -, -, rfl⟩ := Configuration.read_eq_ok_iff.mp hc
    rfl
  · exact TaskHandler.value_accounts_of_error (Networks.resolve_of_get?_eq_none hn)
  · exact TaskHandler.value_accounts_of_remote (Networks.resolve_of_get?_eq_some hg) hp
  · have hg := Networks.resolve_of_get?_eq_some hg
    constructor
    · intro hd
      obtain ⟨i, hi, e, he, hj, hs⟩ := Provider.signers_of_underivable hd
      exact ⟨i, hi, e, he, hj, TaskHandler.value_accounts_of_signers_error hg hp hs⟩
    · intro hd
      obtain ⟨signers, hs, hl⟩ := Provider.signers_of_derivable hd
      exact ⟨_, hl, TaskHandler.offers_accounts_of_signers_ok hg hp hs⟩
  · obtain ⟨app', hs, he⟩ := start_agreeFor h ha
    refine ⟨app', hs, fun sink => ?_⟩
    obtain ⟨config', -, rfl⟩ := (value_start_eq_ok_iff env' app').mp hs
    have hj : TaskHandler.accounts ⟨(standard config').config, name?⟩ =
        TaskHandler.accounts ⟨(standard config).config, name?⟩ := TaskHandler.accounts_congr he
    rw [run_accounts_standard, run_accounts_standard, hj]

theorem lists_accounts_refused_phrases :
    let words := "abandon abandon abandon abandon abandon abandon abandon abandon abandon abandon " ++
      "abandon abandon"
    let env : Environment := ⟨[("TEST_MNEMONIC", " "), ("RINKEBY_MNEMONIC", "\tabandon  ability "),
      ("GOERLI_MNEMONIC", words)]⟩
    ∃ app, (start env).value = .ok app ∧ ∀ sink : Sink,
      let result (name? : Option String) :=
        ((app.registry.run "accounts" ⟨app.config, name?⟩).on sink).value
      result (some "mainnet") = (.error (.config (.unknownNetwork "mainnet")), sink) ∧
      result none = (.ok (), sink) ∧
      result (some "hardhat") = (.error (.signer (.key .emptyPhrase)), sink) ∧
      result (some "rinkeby") =
        (.error (.signer (.key (.invalidPhrase (.entropyLength 3)))), sink) ∧
      result (some "goerli") =
        (.error (.signer (.key (.invalidPhrase (.checksum words)))), sink) := by
  intro words env
  have hs : (start env).value = .ok (standard (.ofNumbers env 200 8545)) := by rfl
  have hblank : Wallet.seedOfPhrase " " = .error .emptyPhrase := by decide +kernel
  have hshort : Wallet.seedOfPhrase "\tabandon  ability " =
      .error (.invalidPhrase (.entropyLength 3)) := by decide +kernel
  have hwords : Wallet.seedOfPhrase words = .error (.invalidPhrase (.checksum words)) := by
    decide +kernel
  refine ⟨_, hs, fun sink => ?_⟩
  -- A phrase at fault is at fault for every index, so that the least one shows the fault.
  have refused {name phrase : String} {profile : NetworkProfile} {e : KeyError}
      (hg : (Networks.standard env 8545).get? name = some profile)
      (hp : profile.accounts = .phrase phrase) (he : Wallet.IsPhraseError e)
      (hseed : Wallet.seedOfPhrase phrase = .error e) :
      (((standard (.ofNumbers env 200 8545)).registry.run "accounts"
        ⟨.ofNumbers env 200 8545, some name⟩).on sink).value = (.error (.signer (.key e)), sink) := by
    have hd (i : UInt32) : Wallet.derive phrase i = .error e :=
      (Wallet.derive_eq_error_iff he).mpr hseed
    have hl := ((lists_accounts env _ hs (some name)).2.2.1 sink).2 profile hg
    obtain ⟨i, -, e', he', -, hr⟩ := (hl.2 phrase hp).1 ⟨0, by decide, e, hd _⟩
    rw [hd] at he'
    cases he'
    exact hr
  refine ⟨?_, ?_, ?_, ?_, ?_⟩
  · exact ((lists_accounts env _ hs (some "mainnet")).2.2.1 sink).1 rfl
  · exact (((lists_accounts env _ hs none).2.2.1 sink).2 (.localNode 8545) rfl).1 rfl
  · exact refused rfl rfl .empty hblank
  · exact refused rfl rfl (.invalid _) hshort
  · exact refused rfl rfl (.invalid _) hwords

end Application

end ContractPipeline
