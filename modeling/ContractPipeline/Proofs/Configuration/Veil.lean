import ContractPipeline.Configuration.Json
import ContractPipeline.Proofs.Startup
import ContractPipeline.Proofs.Variables

/-! Configurations without the words of their seed phrases. Whatever shows a configuration shows the
same of it when it is veiled, and what is read under a veil does not depend on the words. -/
namespace ContractPipeline

/-- The same error, or two values that are related. -/
inductive SameEnd {ε α : Type} (R : α → α → Prop) : Except ε α → Except ε α → Prop
  | error (error : ε) : SameEnd R (.error error) (.error error)
  | ok {a b : α} (h : R a b) : SameEnd R (.ok a) (.ok b)

theorem SameEnd.mono {ε α : Type} {R S : α → α → Prop} {x y : Except ε α} (h : SameEnd R x y)
    (hs : ∀ a b, R a b → S a b) : SameEnd S x y := by
  cases h with
  | error error => exact .error error
  | ok h => exact .ok (hs _ _ h)

theorem sameEnd_of_map_eq {ε α β : Type} {f : α → β} {x y : Except ε α} (h : x.map f = y.map f) :
    SameEnd (fun a b => f a = f b) x y := by
  cases x with
  | error error =>
    cases y with
    | error error' => cases h; exact .error error
    | ok b => cases h
  | ok a =>
    cases y with
    | error error' => cases h
    | ok b => exact .ok (Except.ok.inj h)

/-- The source without the words of a phrase. -/
def AccountSource.veiled : AccountSource → AccountSource
  | .phrase _ => .phrase ""
  | .remote => .remote

def NetworkProfile.veiled (profile : NetworkProfile) : NetworkProfile :=
  { profile with accounts := profile.accounts.veiled }

def Networks.veiled (networks : Networks) : Networks :=
  { networks with profiles := networks.profiles.map fun (name, profile) => (name, profile.veiled) }

def Configuration.veiled (config : Configuration) : Configuration :=
  { config with networks := config.networks.veiled }

@[simp] theorem AccountSource.kind_veiled (source : AccountSource) :
    source.veiled.kind = source.kind := by
  cases source <;> rfl

@[simp] theorem NetworkProfile.members_veiled (profile : NetworkProfile) :
    profile.veiled.members = profile.members := by
  simp [members, veiled]

@[simp] theorem Networks.toJson_veiled (networks : Networks) :
    networks.veiled.toJson = networks.toJson := by
  simp [toJson, veiled, Function.comp_def]

@[simp] theorem Networks.toJsonList_veiled (networks : Networks) :
    networks.veiled.toJsonList = networks.toJsonList := by
  simp [toJsonList, veiled, Function.comp_def]

@[simp] theorem Configuration.toJson_veiled (config : Configuration) :
    config.veiled.toJson = config.toJson := by
  simp [toJson, veiled]

@[simp] theorem Configuration.written?_veiled (config : Configuration) :
    config.veiled.written? = config.written? := by
  rw [written?, toJson_veiled]
  rfl

theorem Configuration.loaded_veiled (config : Configuration) :
    config.veiled.loaded = config.loaded := rfl

/-- Two environments that agree on all variables but the seed phrases, and on whether those of the
public test networks are set. -/
structure Environment.AgreeButForPhrases (env env' : Environment) : Prop where
  others : ∀ key, key ∉ [Variable.testPhrase, .rinkebyPhrase, .goerliPhrase].map Variable.key →
    env.get? key = env'.get? key
  rinkeby : env.isSet Variable.rinkebyPhrase.key = env'.isSet Variable.rinkebyPhrase.key
  goerli : env.isSet Variable.goerliPhrase.key = env'.isSet Variable.goerliPhrase.key

theorem AccountSource.veiled_ofPhrase? {words words' : Option String}
    (h : words.isSome = words'.isSome) : (ofPhrase? words).veiled = (ofPhrase? words').veiled := by
  cases words <;> cases words' <;> first | rfl | cases h

theorem NetworkProfile.veiled_publicTest {env env' : Environment} {url phrase : Variable}
    (hu : env.get? url.key = env'.get? url.key)
    (hp : env.isSet phrase.key = env'.isSet phrase.key) :
    (publicTest env url phrase).veiled = (publicTest env' url phrase).veiled := by
  simp only [publicTest, veiled, hu, AccountSource.veiled_ofPhrase? hp]

theorem NetworkProfile.veiled_inProcess (env env' : Environment) :
    (inProcess env).veiled = (inProcess env').veiled := rfl

variable {env env' : Environment}

theorem Networks.port_congr (h : env.AgreeButForPhrases env') : port env = port env' :=
  port_eq (h.others _ (by decide))

theorem Networks.veiled_standard (h : env.AgreeButForPhrases env') (port : Nat) :
    (standard env port).veiled = (standard env' port).veiled := by
  have hg := NetworkProfile.veiled_publicTest (h.others Variable.goerliUrl.key (by decide)) h.goerli
  have hr := NetworkProfile.veiled_publicTest (h.others Variable.rinkebyUrl.key (by decide)) h.rinkeby
  have hi := NetworkProfile.veiled_inProcess env env'
  have hd : (definitions env port).map (fun (name, profile) => (name, profile.veiled)) =
      (definitions env' port).map fun (name, profile) => (name, profile.veiled) := by
    simp only [definitions, publicTests, List.map_cons, List.map_nil, List.cons_append,
      List.nil_append, hg, hr, hi]
  simp only [standard, veiled, Table.map_insertAll, hd]

theorem Networks.veiled_load (h : env.AgreeButForPhrases env') :
    (load env).map veiled = (load env').map veiled := by
  rw [load, load, port_congr h]
  cases port env' with
  | error error => rfl
  | ok port => exact congrArg Except.ok (veiled_standard h port)

namespace Configuration

theorem veiled_assemble (h : env.AgreeButForPhrases env') (runs : Nat) {networks networks' : Networks}
    (hn : networks.veiled = networks'.veiled) (port : Nat) :
    (assemble env runs networks port).veiled = (assemble env' runs networks' port).veiled := by
  have hv := h.others Variable.solcVersion.key (by decide)
  have hp := h.others Variable.solcPath.key (by decide)
  have hc := h.others Variable.cacheDirectory.key (by decide)
  have hg := h.others Variable.reportGas.key (by decide)
  simp only [assemble, veiled, Compiler.NativeCompiler.ofEnvironment, Environment.isSet, hn, hv, hp,
    hc, hg]

/-- What is read under a veil is the same, and so is the error where nothing can be read. -/
theorem veiled_read (h : env.AgreeButForPhrases env') :
    (read env).map veiled = (read env').map veiled := by
  have hr : runs env = runs env' := runs_eq (h.others _ (by decide))
  have hs : serverPort env = serverPort env' := Networks.port_congr h
  have hl := sameEnd_of_map_eq (Networks.veiled_load h)
  unfold read
  rw [hr, hs]
  generalize Networks.load env = networks at hl ⊢
  generalize Networks.load env' = networks' at hl ⊢
  cases runs env' with
  | error error => rfl
  | ok n =>
    cases hl with
    | error error => rfl
    | ok hv =>
      cases serverPort env' with
      | error error => rfl
      | ok port => exact congrArg Except.ok (veiled_assemble h n hv port)

end Configuration
end ContractPipeline
