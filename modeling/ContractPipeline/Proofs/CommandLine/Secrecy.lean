import ContractPipeline.CommandLine.Run
import ContractPipeline.Proofs.Configuration.Veil

/-! Two runs whose environments differ in seed phrases alone: nothing but the list of accounts tells
them apart. -/
namespace ContractPipeline

open CommandLine (Command Finish Host Report)
open Server (DevServer)

/-- Runs with the same events whose values are related. -/
structure Recorded.Alike {α : Type} (R : α → α → Prop) (x y : Recorded α) : Prop where
  value : R x.value y.value
  events : x.events = y.events

theorem Recorded.Alike.bind {α β : Type} {R : α → α → Prop} {S : β → β → Prop} {x y : Recorded α}
    {f g : α → Recorded β} (h : Alike R x y) (hf : ∀ a b, R a b → Alike S (f a) (g b)) :
    Alike S (x >>= f) (y >>= g) := by
  have hb := hf _ _ h.value
  constructor
  · exact hb.value
  rw [events_bind, events_bind, h.events, hb.events]

namespace Server.DevServer

theorem document?_veiled (port keepAlive : Nat) (config : Configuration) (path : Bytes) :
    (⟨port, keepAlive, config.veiled⟩ : DevServer).document? path =
      (⟨port, keepAlive, config⟩ : DevServer).document? path := by
  have hn : config.veiled.networks.toJsonList = config.networks.toJsonList :=
    config.networks.toJsonList_veiled
  simp only [document?, hn, config.written?_veiled]
  rfl

theorem respond_veiled (port keepAlive : Nat) (config : Configuration) (request : Request) :
    (⟨port, keepAlive, config.veiled⟩ : DevServer).respond request =
      (⟨port, keepAlive, config⟩ : DevServer).respond request := by
  simp only [respond, permissions, answer, document?_veiled]
  rfl

end Server.DevServer

theorem CommandLine.runNetworks_veiled (networks : Networks) :
    runNetworks networks.veiled = runNetworks networks := by
  rw [runNetworks, runNetworks, Networks.veiled, List.flatMap_map]
  rfl

/-- Configurations that show nothing to tell them apart. -/
structure Configuration.LooksLike (config config' : Configuration) : Prop where
  written : config.written? = config'.written?
  compact : config.toJson.toCompact = config'.toJson.toCompact
  pretty : config.toJson.toPretty = config'.toJson.toPretty
  networksCompact : config.networks.toJson.toCompact = config'.networks.toJson.toCompact
  networksPretty : config.networks.toJson.toPretty = config'.networks.toJson.toPretty
  loaded : config.loaded = config'.loaded

/-- Applications that do nothing to tell them apart, list their accounts aside. -/
structure Application.LooksLike (app app' : Application) : Prop where
  config : app.config.LooksLike app'.config
  respond : ∀ port keepAlive request,
    (⟨port, keepAlive, app.config⟩ : DevServer).respond request =
      (⟨port, keepAlive, app'.config⟩ : DevServer).respond request
  getBuild : ∀ files version,
    app.registry.getBuild files version = app'.registry.getBuild files version
  serverCreated : ∀ timeout, app.registry.serverCreated timeout = app'.registry.serverCreated timeout
  descriptions : app.registry.descriptions = app'.registry.descriptions

/-- Two ways to end that look the same from outside: a server answers every request alike. -/
inductive CommandLine.Finish.LooksLike : Finish → Finish → Prop
  | done : LooksLike .done .done
  | failed (failure : CommandLine.Failure) : LooksLike (.failed failure) (.failed failure)
  | serving {server server' : DevServer} (hp : server.port = server'.port)
      (hk : server.keepAlive = server'.keepAlive)
      (hr : ∀ request, server.respond request = server'.respond request) :
      LooksLike (.serving server) (.serving server')

structure CommandLine.Report.LooksLike (report report' : Report) : Prop where
  output : report.output = report'.output
  finish : report.finish.LooksLike report'.finish

theorem CommandLine.Report.LooksLike.refl (report : Report) : report.LooksLike report := by
  constructor
  · rfl
  cases report.finish with
  | done => exact .done
  | failed failure => exact .failed failure
  | serving server => exact .serving rfl rfl fun _ => rfl

theorem CommandLine.Report.alike_of_eq {x y : Recorded Report} (h : x = y) :
    x.Alike LooksLike y := by
  rw [h]
  exact ⟨.refl _, rfl⟩

theorem Configuration.looksLike_of_veiled {config config' : Configuration}
    (h : config.veiled = config'.veiled) : config.LooksLike config' := by
  have hw : config.written? = config'.written? := by
    rw [← config.written?_veiled, h, config'.written?_veiled]
  have hj : config.toJson = config'.toJson := by
    rw [← config.toJson_veiled, h, config'.toJson_veiled]
  have hn : config.networks.toJson = config'.networks.toJson := by
    have ht := congrArg (·.networks.toJson) h
    rwa [veiled, Networks.toJson_veiled, veiled, Networks.toJson_veiled] at ht
  have hl : config.loaded = config'.loaded := by
    rw [← config.loaded_veiled, h, config'.loaded_veiled]
  exact ⟨hw, by rw [hj], by rw [hj], by rw [hn], by rw [hn], hl⟩

namespace Application

/-- Applications that differ at most in the words of their phrases. -/
structure Twins (app app' : Application) : Prop where
  config : app.config.veiled = app'.config.veiled
  registry : app.registry = app'.registry

theorem twins_standard {config config' : Configuration} (h : config.veiled = config'.veiled) :
    Twins (standard config) (standard config') := by
  have hr : (standard config.veiled).registry = (standard config'.veiled).registry := by rw [h]
  exact ⟨h, hr⟩

theorem Twins.looksLike {app app' : Application} (h : Twins app app') : app.LooksLike app' where
  config := Configuration.looksLike_of_veiled h.config
  respond port keepAlive request := by
    rw [← DevServer.respond_veiled, h.config, DevServer.respond_veiled]
  getBuild _ _ := by rw [h.registry]
  serverCreated _ := by rw [h.registry]
  descriptions := by rw [h.registry]

end Application

variable {env env' : Environment}

theorem Configuration.load_alike (h : env.AgreeButForPhrases env') :
    (load env).Alike (SameEnd fun a b => a.veiled = b.veiled) (load env') := by
  have hs := sameEnd_of_map_eq (veiled_read h)
  unfold load
  generalize read env = x at hs
  generalize read env' = y at hs
  cases hs with
  | error error => exact ⟨.error error, rfl⟩
  | ok hv =>
    have hl := (looksLike_of_veiled hv).loaded
    exact ⟨.ok hv, congrArg (fun record => [Event.log record]) hl⟩

theorem Application.start_alike (h : env.AgreeButForPhrases env') :
    (start env).Alike (SameEnd Twins) (start env') := by
  refine (Configuration.load_alike h).bind fun a b hs => ?_
  cases hs with
  | error error => exact ⟨.error error, rfl⟩
  | ok hv => exact ⟨.ok (twins_standard hv), rfl⟩

namespace CommandLine

theorem finish_looksLike {server server' : DevServer} (isPortFree : Nat → Bool)
    (hp : server.port = server'.port) (hk : server.keepAlive = server'.keepAlive)
    (hr : ∀ request, server.respond request = server'.respond request) :
    Finish.LooksLike
      (if isPortFree server.port then .serving server else .failed (.server .addressInUse))
      (if isPortFree server'.port then .serving server' else .failed (.server .addressInUse)) := by
  rw [hp]
  by_cases hf : isPortFree server'.port = true
  · rw [if_pos hf, if_pos hf]
    exact .serving hp hk hr
  · rw [if_neg hf, if_neg hf]
    exact .failed _

theorem runNode_alike {app app' : Application} (h : app.Twins app') (isPortFree : Nat → Bool)
    (port? : Option Nat) :
    (runNode app isPortFree port?).Alike Report.LooksLike (runNode app' isPortFree port?) := by
  have hp : app.config.port = app'.config.port := congrArg (·.port) h.config
  have hr : ∀ port keepAlive request,
      (⟨port, keepAlive, app.config⟩ : DevServer).respond request =
        (⟨port, keepAlive, app'.config⟩ : DevServer).respond request := h.looksLike.respond
  unfold runNode
  rw [h.registry, hp]
  exact ⟨⟨rfl, finish_looksLike isPortFree rfl rfl (hr _ _)⟩, rfl⟩

/-- Whatever a command shows, other than the list of accounts, twins show as well. -/
theorem Command.run_alike {app app' : Application} (h : app.Twins app') (files : Storage.FileTree)
    (isPortFree : Nat → Bool) (command : Command) (ha : ∀ network?, command ≠ .accounts network?) :
    (command.run ⟨env, files, isPortFree⟩ app).Alike Report.LooksLike
      (command.run ⟨env', files, isPortFree⟩ app') := by
  cases command with
  | accounts network? => exact absurd rfl (ha network?)
  | resolve version =>
    apply Report.alike_of_eq
    simp only [run, runResolve, h.registry]
  | cached =>
    have hc : app.config.cacheDirectory = app'.config.cacheDirectory :=
      congrArg (·.cacheDirectory) h.config
    apply Report.alike_of_eq
    simp only [run, runCached, hc]
  | config =>
    have hw := h.looksLike.config.written
    apply Report.alike_of_eq
    rw [run, run, hw]
  | networks =>
    have hn : app.config.networks.veiled = app'.config.networks.veiled :=
      congrArg (·.networks) h.config
    apply Report.alike_of_eq
    rw [run, run, ← runNetworks_veiled, hn, runNetworks_veiled]
  | tasks =>
    apply Report.alike_of_eq
    simp only [run, h.registry]
  | node port? => exact runNode_alike h isPortFree port?

theorem start_alike (h : env.AgreeButForPhrases env') (files : Storage.FileTree)
    (isPortFree : Nat → Bool) (command : Command) (ha : ∀ network?, command ≠ .accounts network?) :
    (start ⟨env, files, isPortFree⟩ command).Alike Report.LooksLike
      (start ⟨env', files, isPortFree⟩ command) := by
  refine (Application.start_alike h).bind fun a b hs => ?_
  cases hs with
  | error error => exact Report.alike_of_eq rfl
  | ok ht => exact command.run_alike ht files isPortFree ha

end CommandLine

/-- Environments that agree on all but the seed phrases, and on whether those of the public test
networks are set, end in the same error or in configurations and applications that show and do the
same, with the same log; and so does each command that does not list accounts. -/
theorem phrases_leave_no_trace (h : env.AgreeButForPhrases env') (files : Storage.FileTree)
    (isPortFree : Nat → Bool) :
    (Configuration.load env).Alike (SameEnd Configuration.LooksLike) (Configuration.load env') ∧
    SameEnd (fun a b => a.toJson = b.toJson ∧ a.toJsonList = b.toJsonList) (Networks.load env)
      (Networks.load env') ∧
    (Application.start env).Alike (SameEnd Application.LooksLike) (Application.start env') ∧
    ∀ command : Command, (∀ network?, command ≠ .accounts network?) →
      (CommandLine.start ⟨env, files, isPortFree⟩ command).Alike Report.LooksLike
        (CommandLine.start ⟨env', files, isPortFree⟩ command) := by
  have hl := Configuration.load_alike h
  have hs := Application.start_alike h
  have hn := sameEnd_of_map_eq (Networks.veiled_load h)
  refine ⟨⟨hl.value.mono fun _ _ => Configuration.looksLike_of_veiled, hl.events⟩, ?_,
    ⟨hs.value.mono fun _ _ => Application.Twins.looksLike, hs.events⟩,
    CommandLine.start_alike h files isPortFree⟩
  refine hn.mono fun a b hab => ⟨?_, ?_⟩
  · rw [← a.toJson_veiled, hab, b.toJson_veiled]
  · rw [← a.toJsonList_veiled, hab, b.toJsonList_veiled]

theorem phrases_leave_no_trace_on_rinkeby :
    let env : Environment := ⟨[("RINKEBY_MNEMONIC", "legal winner"), ("RPC_PORT", "8600")]⟩
    let env' : Environment :=
      ⟨[("TEST_MNEMONIC", "zoo"), ("RPC_PORT", "8600"), ("RINKEBY_MNEMONIC", "letter advice")]⟩
    env.AgreeButForPhrases env' ∧ Configuration.read env ≠ Configuration.read env' ∧
      (CommandLine.start ⟨env, .empty, fun _ => true⟩ .config).value.output =
        (CommandLine.start ⟨env', .empty, fun _ => true⟩ .config).value.output := by
  intro env env'
  have h : env.AgreeButForPhrases env' := by
    refine ⟨fun key hk => ?_, by decide, by decide⟩
    simp only [List.map_cons, List.map_nil, List.mem_cons, List.not_mem_nil, or_false, not_or] at hk
    obtain ⟨ht, hr, -⟩ := hk
    have ht' : (key == "TEST_MNEMONIC") = false := beq_eq_false_iff_ne.mpr ht
    have hr' : (key == "RINKEBY_MNEMONIC") = false := beq_eq_false_iff_ne.mpr hr
    have hl : List.lookup key [("RPC_PORT", "8600"), ("RINKEBY_MNEMONIC", "legal winner")] =
        List.lookup key [("RINKEBY_MNEMONIC", "letter advice"), ("RPC_PORT", "8600"),
          ("TEST_MNEMONIC", "zoo")] := by
      rw [List.lookup_cons, List.lookup_cons, List.lookup_cons, List.lookup_cons,
        List.lookup_cons, hr', ht']
    exact congrArg (Option.filter (· ≠ "")) hl
  refine ⟨h, fun he => absurd (congrArg Except.toOption he) (by decide), ?_⟩
  exact ((phrases_leave_no_trace h .empty fun _ => true).2.2.2 .config nofun).value.output

end ContractPipeline
