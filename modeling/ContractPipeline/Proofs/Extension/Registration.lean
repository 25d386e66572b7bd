import ContractPipeline.Extension.Registry
import ContractPipeline.Proofs.Table

/-! Histories of registrations, and the registry that each of them leads to: overrides and hooks as
they were added, and under each name the task that was defined last. -/
namespace ContractPipeline.Extension

inductive Registration
  | override (handler : Override)
  | onServerCreated (hook : ServerHook)
  | define (name : String) (task : Task)
  | install (config : Configuration)

namespace Registration

def override? : Registration → Option Override
  | .override handler => some handler
  | .install config => some (.native config.nativeCompiler)
  | .onServerCreated _ | .define .. => none

def hook? : Registration → Option ServerHook
  | .onServerCreated hook => some hook
  | .install _ => some .raise
  | .override _ | .define .. => none

def definition? : Registration → Option (String × Task)
  | .define name task => some (name, task)
  | .install _ => some (Registry.accountsName, Registry.accountsTask)
  | .override _ | .onServerCreated _ => none

end Registration

def lastDefinition? (history : List Registration) (name : String) : Option Task :=
  (history.filterMap Registration.definition?).reverse.lookup name

def NeverDefined (history : List Registration) (name : String) : Prop :=
  ∀ registration ∈ history, ∀ task, registration.definition? ≠ some (name, task)

theorem lastDefinition?_eq_none_iff (history : List Registration) (name : String) :
    lastDefinition? history name = none ↔ NeverDefined history name := by
  simp only [lastDefinition?, List.lookup_eq_none_iff, List.mem_reverse, List.mem_filterMap,
    NeverDefined, bne_iff_ne, ne_eq, Prod.forall, forall_exists_index, and_imp]
  constructor
  · intro h registration hr task hd
    exact h name task registration hr hd rfl
  · rintro h other task registration hr hd rfl
    exact h registration hr task hd

namespace Registry

def register (registry : Registry) : Registration → Recorded Registry
  | .override handler => pure (registry.override handler)
  | .onServerCreated hook => pure (registry.onServerCreated hook)
  | .define name task => registry.define name task
  | .install config => registry.install config

def registerAll (registry : Registry) (history : List Registration) : Recorded Registry :=
  history.foldlM register registry

theorem value_define (registry : Registry) (name : String) (task : Task) :
    (registry.define name task).value =
      { registry with tasks := Table.insert name task registry.tasks } := by
  unfold define
  split <;> rfl

theorem value_install (registry : Registry) (config : Configuration) :
    (registry.install config).value =
      { registry with
        overrides := registry.overrides ++ [.native config.nativeCompiler]
        serverHooks := registry.serverHooks ++ [.raise]
        tasks := Table.insert accountsName accountsTask registry.tasks } := by
  rw [install, Recorded.value_bind, value_define]
  rfl

theorem value_register (registry : Registry) (registration : Registration) :
    (registry.register registration).value =
      { registry with
        overrides := registry.overrides ++ registration.override?.toList
        serverHooks := registry.serverHooks ++ registration.hook?.toList
        tasks := Table.insertAll registration.definition?.toList registry.tasks } := by
  have ho := (List.append_nil registry.overrides).symm
  have hs := (List.append_nil registry.serverHooks).symm
  cases registration with
  | override handler => exact congrArg (Registry.mk _ _ · _) hs
  | onServerCreated hook => exact congrArg (Registry.mk _ · _ _) ho
  | define name task =>
    rw [register, value_define]
    exact congrArg₂ (Registry.mk _ · · _) ho hs
  | install config => exact value_install registry config

theorem value_registerAll (registry : Registry) (history : List Registration) :
    (registry.registerAll history).value =
      { registry with
        overrides := registry.overrides ++ history.filterMap Registration.override?
        serverHooks := registry.serverHooks ++ history.filterMap Registration.hook?
        tasks := Table.insertAll (history.filterMap Registration.definition?) registry.tasks } := by
  induction history generalizing registry with
  | nil =>
    have ho := (List.append_nil registry.overrides).symm
    have hs := (List.append_nil registry.serverHooks).symm
    exact congrArg₂ (Registry.mk _ · · _) ho hs
  | cons registration history ih =>
    have hs : (registry.registerAll (registration :: history)).value =
        ((registry.register registration).value.registerAll history).value := rfl
    have hf {β : Type} (f : Registration → Option β) :
        (registration :: history).filterMap f = (f registration).toList ++ history.filterMap f := by
      simp only [List.filterMap_eq_flatMap_toList, List.flatMap_cons]
    rw [hs, ih, value_register]
    simp only [hf, List.append_assoc, Table.insertAll_append]

/-- What is found under a name is its last definition. -/
theorem task?_registerAll_empty (cache : Compiler.Cache) (history : List Registration)
    (name : String) :
    ((empty cache).registerAll history).value.task? name = lastDefinition? history name := by
  rw [task?, value_registerAll]
  exact (Table.lookup_insertAll _ [] name).trans (Option.or_none)

theorem inOrder_tasks_registerAll_empty (cache : Compiler.Cache) (history : List Registration) :
    Table.InOrder ((empty cache).registerAll history).value.tasks := by
  rw [value_registerAll]
  exact Table.inOrder_insertAll _ List.Pairwise.nil

end Registry

end ContractPipeline.Extension
