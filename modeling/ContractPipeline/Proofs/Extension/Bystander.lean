import Mathlib.Data.List.Basic
import ContractPipeline.Proofs.Compiler.Selection
import ContractPipeline.Proofs.Extension.Steps

/-! Overrides that leave a request to what lies below them. Wherever such an override stands in a
chain, the request ends as it does without it, and all other overrides take the same steps. -/
namespace ContractPipeline

open Extension (Step)

/-- Consults exactly once, whatever comes of it, and answers with what came. Events may be recorded
before and after. -/
structure Plan.Relays {β : Type} (plan : Plan β β) : Prop where
  once : ∀ outcome, plan.consultations outcome = 1
  unchanged : ∀ lower, (plan.run lower).value = lower.value

namespace Extension

/-- A step as it is numbered where a level is left out, unless it is a step on this level. -/
def Step.without? (level : Nat) (step : Step) : Option Step :=
  if step.level < level then some step
  else if step.level = level then none
  else some ⟨step.level - 1, step.act⟩

theorem Step.without?_self (level : Nat) (act : Act) : without? level ⟨level, act⟩ = none := by
  simp [without?]

theorem Step.without?_above {left level : Nat} (h : left ≤ level) (act : Act) :
    without? left ⟨level + 1, act⟩ = some ⟨level, act⟩ := by
  have hlt : ¬level + 1 < left := by omega
  have hne : level + 1 ≠ left := by omega
  simp only [without?, hlt, hne, if_false, Nat.add_sub_cancel]

end Extension

namespace Plan

variable {α β : Type} {level : Nat} {outcome : β} {below : List Step}

/-- A plan above a level takes the same steps where this level is left out. -/
theorem without_steps {left : Nat} (h : left ≤ level) (plan : Plan β α) :
    (plan.steps (level + 1) outcome below).filterMap (Step.without? left) =
      plan.steps level outcome (below.filterMap (Step.without? left)) := by
  have hs := Step.without?_above h
  induction plan with
  | answer value => rfl
  | record event rest ih =>
    rw [steps, steps, List.filterMap_cons_some (hs _), ih]
  | consult rest ih =>
    rw [steps, steps, List.filterMap_cons_some (hs _), List.filterMap_append, ih outcome]

/-- Where the level of a plan is left out, the steps below it are left, once for each consultation. -/
theorem without_own_steps (plan : Plan β α) :
    (plan.steps level outcome below).filterMap (Step.without? level) =
      (List.replicate (plan.consultations outcome)
        (below.filterMap (Step.without? level))).flatten := by
  have hs := Step.without?_self level
  induction plan with
  | answer value => rfl
  | record event rest ih =>
    rw [steps, List.filterMap_cons_none (hs _), ih]
    rfl
  | consult rest ih =>
    rw [steps, List.filterMap_cons_none (hs _), List.filterMap_append, ih outcome, consultations,
      List.replicate_succ, List.flatten_cons]

end Plan

namespace Extension

open Compiler (NativeCompiler Outcome)
open Storage (FileTree)

namespace Layer

variable {layer other : Layer}

/-- A chain that differs from another one by a level more, which the run does not depend on, and
besides the steps on this level takes the same steps. -/
structure Adds (left : Nat) (layer other : Layer) : Prop where
  left_le : left ≤ layer.level
  level : layer.level = other.level + 1
  value : layer.run.value = other.run.value
  steps : layer.steps.filterMap (Step.without? left) = other.steps

theorem adds_push (h : ∀ step ∈ layer.steps, step.level ≤ layer.level)
    {plan : Plan Outcome Outcome} (hp : plan.Relays) :
    Adds (layer.level + 1) (layer.push plan) layer where
  left_le := Nat.le_refl _
  level := rfl
  value := hp.unchanged layer.run
  steps := by
    have hb : layer.steps.filterMap (Step.without? (layer.level + 1)) = layer.steps := by
      have hs : ∀ step ∈ layer.steps, Step.without? (layer.level + 1) step = some step :=
        fun step hm => if_pos (Nat.lt_succ_of_le (h step hm))
      rw [List.filterMap_congr hs, List.filterMap_some]
    rw [push, List.filterMap_cons_none (Step.without?_self _ .begin), Plan.without_own_steps,
      hp.once, hb]
    exact List.append_nil _

/-- What is pushed on both chains cannot tell them apart. -/
theorem Adds.push {left : Nat} (h : Adds left layer other) (plan : Plan Outcome Outcome) :
    Adds left (layer.push plan) (other.push plan) where
  left_le := Nat.le_succ_of_le h.left_le
  level := congrArg Nat.succ h.level
  value := Plan.value_run_congr h.value plan
  steps := by
    have hl : left ≤ other.level + 1 := h.level ▸ h.left_le
    rw [Layer.push, Layer.push, h.level, List.filterMap_cons_some (Step.without?_above hl .begin),
      Plan.without_steps hl, h.steps, h.value]

theorem Adds.pushAll {left : Nat} (h : Adds left layer other)
    (plans : List (Plan Outcome Outcome)) :
    Adds left (layer.pushAll plans) (other.pushAll plans) := by
  induction plans generalizing layer other with
  | nil => exact h
  | cons plan above ih => exact ih (h.push plan)

end Layer

namespace Override

/-- An override that prefers a native compiler relays all requests for other versions. -/
theorem relays_native {compiler : NativeCompiler} {version : String}
    (h : compiler.serves version = false) : (Override.native compiler version).Relays where
  once outcome := by
    have hs : ¬compiler.serves version = true := ne_true_of_eq_false h
    rw [Override.native, NativeCompiler.resolve, if_neg hs]
    rfl
  unchanged lower := by
    rw [run_native_of_not_serves compiler version lower h]
    rfl

/-- An override that is limited to one version relays all requests for other versions. -/
theorem relays_only (label : String) (handler : Override) {exempt version : String}
    (h : version ≠ exempt) :
    (Override.noting label (.only (some exempt) handler) version).Relays := by
  have ho : Override.only (some exempt) handler version = Plan.next := if_neg (Ne.symm h)
  rw [noting, ho]
  exact ⟨fun _ => rfl, fun _ => rfl⟩

end Override

namespace Registry

/-- An override that relays the requests for all versions but one, wherever it stands in a chain,
changes nothing for any other version: the outcome is the same, and so are the steps of all other
overrides and of the cache, in their order. Overrides that prefer a native compiler of one version,
and overrides that are limited to one version, relay all other requests. -/
theorem getBuild_insert (registry : Registry) (files : FileTree) (exempt version : String)
    (hv : version ≠ exempt) :
    (∀ below handler above, registry.overrides = below ++ above →
      (∀ other ≠ exempt, (handler other).Relays) →
      let extended := { registry with overrides := below ++ handler :: above }
      (extended.getBuild files version).value = (registry.getBuild files version).value ∧
      (extended.steps files version).filterMap (Step.without? (below.length + 1)) =
        registry.steps files version) ∧
    (∀ other : Registry, (other.getBuild files version).events =
      running version :: (other.steps files version).filterMap Step.event?) ∧
    (∀ path, ∀ other ≠ exempt, (Override.native ⟨some exempt, path⟩ other).Relays) ∧
    ∀ label handler, ∀ other ≠ exempt,
      (Override.noting label (.only (some exempt) handler) other).Relays := by
  refine ⟨?_, ?_, ?_, ?_⟩
  · intro below handler above ho hh extended
    have hl := Layer.level_bottom_pushAll (registry.cache.lookup files version) below version
    have hle := Layer.level_le_pushAll (Layer.level_le_bottom (registry.cache.lookup files version))
      (plans below version)
    have ha := (Layer.adds_push hle (hh version hv)).pushAll (plans above version)
    rw [hl] at ha
    rw [value_getBuild, value_getBuild, steps, steps, registry.layer_of_append files version below
      above ho, extended.layer_of_append files version below (handler :: above) rfl, plans_cons,
      Layer.pushAll_cons]
    exact ⟨ha.value, ha.steps⟩
  · exact fun other => other.events_getBuild files version
  · intro path other hn
    exact Override.relays_native (beq_false_of_ne fun h => hn (Option.some.inj h).symm)
  · exact fun label handler other hn => Override.relays_only label handler hn

theorem getBuild_insert_native :
    let chain : Registry := ⟨⟨"cache"⟩, [.noting "a" (.again 2), .noting "b" (.again 3)], [], []⟩
    let extended : Registry := ⟨⟨"cache"⟩, [.noting "a" (.again 2), .native ⟨some "0.8.0", none⟩,
      .noting "b" (.again 3)], [], []⟩
    "0.8.1" ≠ "0.8.0" ∧
    (extended.getBuild .empty "0.8.1").value = (chain.getBuild .empty "0.8.1").value ∧
    (extended.steps .empty "0.8.1").filterMap (Step.without? 2) = chain.steps .empty "0.8.1" := by
  intro chain extended
  have hv : "0.8.1" ≠ "0.8.0" := by decide
  obtain ⟨hi, -, hn, -⟩ := getBuild_insert chain .empty "0.8.0" "0.8.1" hv
  exact ⟨hv, hi [.noting "a" (.again 2)] _ [.noting "b" (.again 3)] rfl (hn none)⟩

end Registry

end Extension
end ContractPipeline
