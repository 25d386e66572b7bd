import ContractPipeline.Proofs.Extension.Registration
import ContractPipeline.Proofs.Text.ByteOrder

/-! What a registry shows of the history that led to it. Within a kind of registration the order
counts, across the kinds it does not, and of the definitions of a name only the last one is left. -/
namespace ContractPipeline.Extension

open Compiler (Cache)
open Storage (FileTree Sink)

/-- The same overrides and the same hooks in the same order, and the same last definition of each
name. -/
structure AgreeByKind (history history' : List Registration) : Prop where
  overrides : history.filterMap Registration.override? = history'.filterMap Registration.override?
  hooks : history.filterMap Registration.hook? = history'.filterMap Registration.hook?
  tasks : ∀ name, lastDefinition? history name = lastDefinition? history' name

namespace Registry

/-- Registries that no caller can tell apart. -/
structure BehavesLike (registry other : Registry) : Prop where
  getBuild : ∀ files version, registry.getBuild files version = other.getBuild files version
  serverCreated : ∀ timeout, registry.serverCreated timeout = other.serverCreated timeout
  run : ∀ name context sink,
    (registry.run name context).on sink = (other.run name context).on sink
  descriptions : registry.descriptions = other.descriptions
  handlerCount : ∀ point, registry.handlerCount point = other.handlerCount point

/-- What a registry shows of a history. The error of an unknown task tells the names that were never
defined from all others, except that a handler may itself end in that error. -/
structure Shows (registry : Registry) (history : List Registration) : Prop where
  names : registry.descriptions.Pairwise fun a b => Bytes.ofString a.1 < Bytes.ofString b.1
  described : ∀ name description, (name, description) ∈ registry.descriptions ↔
    ∃ task, lastDefinition? history name = some task ∧ task.description = description
  known : ∀ name task, lastDefinition? history name = some task →
    ∀ context, registry.run name context = task.handler context
  unknown : ∀ name, NeverDefined history name → ∀ context sink,
    (registry.run name context).on sink = pure (.error (.unknownTask name), sink)
  unknown_iff : ∀ name context sink,
    (∀ task, lastDefinition? history name = some task →
      ((task.handler context).on sink).value ≠ (.error (.unknownTask name), sink)) →
    (((registry.run name context).on sink).value = (.error (.unknownTask name), sink) ↔
      NeverDefined history name)
  overrides : registry.handlerCount .getBuild = (history.filterMap Registration.override?).length
  hooks : registry.handlerCount .serverCreated = (history.filterMap Registration.hook?).length

theorem run_of_task?_eq_none {registry : Registry} {name : String}
    (h : registry.task? name = none) (context : TaskContext) (sink : Sink) :
    (registry.run name context).on sink = pure (.error (.unknownTask name), sink) := by
  rw [run, h]
  rfl

theorem run_of_task?_eq_some {registry : Registry} {name : String} {task : Task}
    (h : registry.task? name = some task) (context : TaskContext) :
    registry.run name context = task.handler context := by
  rw [run, h]

variable (cache : Cache) {history history' : List Registration}

/-- Histories that agree by kind lead to one registry. -/
theorem value_registerAll_congr (h : AgreeByKind history history') :
    ((empty cache).registerAll history).value = ((empty cache).registerAll history').value := by
  have ht : Table.insertAll (history.filterMap Registration.definition?) [] =
      Table.insertAll (history'.filterMap Registration.definition?) [] := by
    have ho (entries : List (String × Task)) : Table.InOrder (Table.insertAll entries []) :=
      Table.inOrder_insertAll entries List.Pairwise.nil
    refine (ho _).ext (ho _) fun name => ?_
    rw [Table.lookup_insertAll, Table.lookup_insertAll]
    exact congrArg (Option.or · _) (h.tasks name)
  rw [value_registerAll, value_registerAll, h.overrides, h.hooks]
  exact congrArg (Registry.mk _ _ _) ht

theorem BehavesLike.refl (registry : Registry) : registry.BehavesLike registry where
  getBuild _ _ := rfl
  serverCreated _ := rfl
  run _ _ _ := rfl
  descriptions := rfl
  handlerCount _ := rfl

theorem names_inOrder {registry : Registry} (h : Table.InOrder registry.tasks) :
    registry.descriptions.Pairwise fun a b => Bytes.ofString a.1 < Bytes.ofString b.1 := by
  rw [descriptions, List.pairwise_map]
  refine List.Pairwise.imp ?_ h
  intro a b hab
  exact Bytes.ofString_lt_ofString_iff.mpr hab

theorem mem_descriptions_iff {registry : Registry} (h : Table.InOrder registry.tasks)
    (name description : String) : (name, description) ∈ registry.descriptions ↔
      ∃ task, registry.task? name = some task ∧ task.description = description := by
  simp only [descriptions, List.mem_map, Prod.exists, Prod.mk.injEq]
  constructor
  · rintro ⟨key, task, hm, rfl, rfl⟩
    exact ⟨task, h.lookup_eq_some_iff.mpr hm, rfl⟩
  · rintro ⟨task, ht, rfl⟩
    exact ⟨name, task, h.lookup_eq_some_iff.mp ht, rfl, rfl⟩

theorem shows_registerAll (history : List Registration) :
    ((empty cache).registerAll history).value.Shows history := by
  have ho := inOrder_tasks_registerAll_empty cache history
  have hv := value_registerAll (empty cache) history
  have ht := task?_registerAll_empty cache history
  -- From here on a registry is known by these three facts.
  generalize ((empty cache).registerAll history).value = registry at ho hv ht
  have hunknown : ∀ name, NeverDefined history name → ∀ context sink,
      (registry.run name context).on sink = pure (.error (.unknownTask name), sink) := by
    intro name hn
    exact run_of_task?_eq_none ((ht name).trans ((lastDefinition?_eq_none_iff history name).mpr hn))
  constructor
  case names => exact names_inOrder ho
  case described =>
    intro name description
    rw [mem_descriptions_iff ho, ht]
  case known =>
    intro name task hl
    exact run_of_task?_eq_some ((ht name).trans hl)
  case unknown => exact hunknown
  case unknown_iff =>
    intro name context sink hself
    refine ⟨fun hr => ?_, fun hn => by rw [hunknown name hn context sink]; rfl⟩
    rw [← lastDefinition?_eq_none_iff]
    cases hl : lastDefinition? history name with
    | none => rfl
    | some task =>
      rw [run_of_task?_eq_some ((ht name).trans hl)] at hr
      exact absurd hr (hself task hl)
  case overrides => rw [hv]; rfl
  case hooks => rw [hv]; rfl

/-- A registry shows its whole history, and histories that agree by kind lead to registries that
behave alike, however the kinds are interleaved. -/
theorem registerAll_empty_by_kind (cache : Cache) (history : List Registration) :
    ((empty cache).registerAll history).value.Shows history ∧
    ∀ history', AgreeByKind history history' →
      ((empty cache).registerAll history).value.BehavesLike
        ((empty cache).registerAll history').value := by
  refine ⟨shows_registerAll cache history, fun history' h => ?_⟩
  rw [value_registerAll_congr cache h]
  exact .refl _

theorem registerAll_empty_by_kind_interleaved :
    let greeting : Task := ⟨"Greets", .print "hello"⟩
    let history : List Registration :=
      [.define "hello" ⟨"Waits", .print "wait"⟩, .override (.fixed "/opt/solc"),
        .onServerCreated (.add 5), .override (.again 2), .define "hello" greeting]
    let history' : List Registration :=
      [.onServerCreated (.add 5), .override (.fixed "/opt/solc"), .define "hello" greeting,
        .override (.again 2)]
    let registry := ((empty ⟨"cache"⟩).registerAll history).value
    AgreeByKind history history' ∧
      registry.BehavesLike ((empty ⟨"cache"⟩).registerAll history').value ∧
      (∀ context, registry.run "hello" context = greeting.handler context) ∧
      ∀ context sink,
        (registry.run "deploy" context).on sink = pure (.error (.unknownTask "deploy"), sink) := by
  intro greeting history history' registry
  have ha : AgreeByKind history history' := by
    refine ⟨rfl, rfl, fun name => ?_⟩
    change List.lookup name [("hello", greeting), ("hello", _)] =
      List.lookup name [("hello", greeting)]
    rw [List.lookup_cons, List.lookup_cons, List.lookup_cons]
    cases name == "hello" <;> rfl
  have hr := registerAll_empty_by_kind ⟨"cache"⟩ history
  refine ⟨ha, hr.2 history' ha, hr.1.known "hello" greeting rfl, hr.1.unknown "deploy" ?_⟩
  exact (lastDefinition?_eq_none_iff history "deploy").mp rfl

end Registry

end ContractPipeline.Extension
