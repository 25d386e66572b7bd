import ContractPipeline.Proofs.Extension.Registration
import ContractPipeline.Proofs.Extension.SameTrace

/-! Installing the built-in extensions again: what the earlier installation added is dead. Its
override answers only what the later one answers before it, the timeout that it assigns is assigned
anew, and its task is replaced. -/
namespace ContractPipeline.Extension

open Compiler (NativeCompiler Outcome)

/-- An override that prefers a native compiler leaves no trace below another one that prefers the
same compiler, whatever stands between, above and below them. -/
theorem nested_native_native (native : NativeCompiler) (below between above : List Override)
    (version : String) (base : Recorded Outcome) :
    (nested (plans (below ++ .native native :: (between ++ .native native :: above)) version)
        base).SameTrace
      (nested (plans (below ++ (between ++ .native native :: above)) version) base) := by
  simp only [plans_append, plans_cons, nested_append, nested_cons]
  cases h : native.serves version with
  | true =>
    -- The upper of the two answers alone, so that the lower one is not reached.
    rw [Override.run_native_of_serves native version _ h,
      Override.run_native_of_serves native version _ h]
    exact .refl _
  | false =>
    refine nested_sameTrace (Plan.run_sameTrace (nested_sameTrace ?_ _) _) _
    exact Override.run_native_sameTrace h _

theorem ServerHook.runAll_append_cons (earlier later : List ServerHook) (hook : ServerHook)
    (timeout : Nat) : runAll (earlier ++ hook :: later) timeout =
      (do let before ← runAll earlier timeout
          let after ← hook before
          runAll later after) := by
  rw [runAll, List.foldlM_append]
  rfl

/-- Nothing before an assignment of the timeout counts. -/
theorem ServerHook.value_runAll_assign {hook : ServerHook} {assigned : Nat}
    (h : ∀ timeout, (hook timeout).value = assigned) (earlier later : List ServerHook)
    (timeout : Nat) :
    (runAll (earlier ++ hook :: later) timeout).value = (runAll later assigned).value := by
  rw [runAll_append_cons, Recorded.value_bind, Recorded.value_bind, h]

theorem ServerHook.value_runAll_raise (earlier later : List ServerHook) (timeout : Nat) :
    (runAll (earlier ++ .raise :: later) timeout).value =
      (runAll later raisedKeepAlive).value := value_runAll_assign (fun _ => rfl) earlier later timeout

namespace Registry

/-- Registries that differ at most in what they log, and in how many handlers they have. -/
structure LooksLike (registry other : Registry) : Prop where
  getBuild : ∀ files version,
    (registry.getBuild files version).SameTrace (other.getBuild files version)
  serverCreated : ∀ timeout,
    (registry.serverCreated timeout).value = (other.serverCreated timeout).value
  run : ∀ name context sink,
    (registry.run name context).on sink = (other.run name context).on sink
  descriptions : registry.descriptions = other.descriptions

section Reinstall

variable (base : Registry) (config : Configuration) (between after : List Registration)

/-- What an installation in a history adds to the overrides, the hooks and the definitions. -/
theorem value_registerAll_install :
    (base.registerAll (between ++ .install config :: after)).value =
      { base with
        overrides := base.overrides ++ (between.filterMap Registration.override? ++
          .native config.nativeCompiler :: after.filterMap Registration.override?)
        serverHooks := base.serverHooks ++ (between.filterMap Registration.hook? ++
          .raise :: after.filterMap Registration.hook?)
        tasks := Table.insertAll (after.filterMap Registration.definition?)
          (Table.insert accountsName accountsTask
            (Table.insertAll (between.filterMap Registration.definition?) base.tasks)) } := by
  rw [value_registerAll]
  simp only [List.filterMap_append, Table.insertAll_append]
  rfl

/-- Between two installations, whatever else is registered, the earlier one need not take place. -/
theorem registerAll_install_install :
    (base.registerAll (.install config :: (between ++ .install config :: after))).value.LooksLike
      (base.registerAll (between ++ .install config :: after)).value := by
  have htwice : (base.registerAll (.install config :: (between ++ .install config :: after))).value =
      ((base.install config).value.registerAll (between ++ .install config :: after)).value := rfl
  rw [htwice, value_registerAll_install, value_registerAll_install, value_install,
    Table.insert_insertAll_insert]
  refine ⟨fun files version => ?_, fun timeout => ?_, fun name context sink => rfl, rfl⟩
  · rw [getBuild_eq_nested, getBuild_eq_nested, List.append_assoc]
    refine (Recorded.SameTrace.refl _).bind fun _ => ?_
    exact nested_native_native config.nativeCompiler _ _ _ version _
  · simp only [serverCreated, Recorded.value_bind, ← List.append_assoc]
    rw [ServerHook.value_runAll_raise, ServerHook.value_runAll_raise]

end Reinstall

end Registry

end ContractPipeline.Extension
