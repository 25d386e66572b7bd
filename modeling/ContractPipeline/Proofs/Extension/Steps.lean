import ContractPipeline.Proofs.Extension.Chain

/-! The steps of a request for a build: on which level of the chain an override begins, consults what
lies below it, or records an event, in the order in which it happens. Without the beginnings and the
consultations they are the events of the run. -/
namespace ContractPipeline

namespace Extension

inductive Act
  | begin
  | consult
  | record (event : Event)
  deriving DecidableEq

/-- Something that is done on a level of a chain. The cache is on level zero, and above it each
override is on a level of its own, in the order of registration. -/
structure Step where
  level : Nat
  act : Act
  deriving DecidableEq

def Step.event? (step : Step) : Option Event :=
  match step.act with
  | .record event => some event
  | .begin | .consult => none

end Extension

open Extension (Step)

namespace Plan

variable {α β : Type} {level : Nat} {outcome : β} {below : List Step}

/-- The steps of a plan on a level, where each consultation yields the same value and takes the same
steps below. -/
def steps (level : Nat) (outcome : β) (below : List Step) : Plan β α → List Step
  | .answer _ => []
  | .record event rest => ⟨level, .record event⟩ :: rest.steps level outcome below
  | .consult rest => ⟨level, .consult⟩ :: (below ++ (rest outcome).steps level outcome below)

/-- What a plan ends in depends on nothing below it but the value. -/
theorem value_run_congr {lower lower' : Recorded β} (h : lower.value = lower'.value)
    (plan : Plan β α) : (plan.run lower).value = (plan.run lower').value := by
  induction plan with
  | answer value => rfl
  | record event rest ih => exact ih
  | consult rest ih =>
    change ((rest lower.value).run lower).value = ((rest lower'.value).run lower').value
    rw [h]
    exact ih lower'.value

theorem events_steps {lower : Recorded β} (h : below.filterMap Step.event? = lower.events)
    (plan : Plan β α) :
    (plan.steps level lower.value below).filterMap Step.event? = (plan.run lower).events := by
  induction plan with
  | answer value => rfl
  | record event rest ih => exact congrArg (event :: ·) ih
  | consult rest ih =>
    change (below ++ (rest lower.value).steps level lower.value below).filterMap Step.event? =
      lower.events ++ ((rest lower.value).run lower).events
    rw [List.filterMap_append, h, ih]

/-- Of the steps of a plan its own are taken once, and those below it once for each consultation. -/
theorem countP_steps (p : Step → Bool) (plan : Plan β α) :
    (plan.steps level outcome below).countP p = (plan.steps level outcome []).countP p +
      plan.consultations outcome * below.countP p := by
  induction plan with
  | answer value => simp [steps, consultations]
  | record event rest ih =>
    simp only [steps, consultations, List.countP_cons, ih]
    omega
  | consult rest ih =>
    simp only [steps, consultations, List.countP_cons, List.countP_append, List.countP_nil, ih,
      Nat.add_mul, Nat.one_mul]
    omega

theorem mem_steps {step : Step} {plan : Plan β α} (h : step ∈ plan.steps level outcome below) :
    step = ⟨level, .consult⟩ ∨ (∃ event, step = ⟨level, .record event⟩) ∨ step ∈ below := by
  induction plan with
  | answer value => exact absurd h List.not_mem_nil
  | record event rest ih =>
    rcases List.mem_cons.mp h with rfl | h
    · exact .inr (.inl ⟨event, rfl⟩)
    · exact ih h
  | consult rest ih =>
    rcases List.mem_cons.mp h with rfl | h
    · exact .inl rfl
    · rcases List.mem_append.mp h with h | h
      · exact .inr (.inr h)
      · exact ih outcome h

theorem count_consult_steps (plan : Plan β α) :
    (plan.steps level outcome []).count ⟨level, .consult⟩ = plan.consultations outcome := by
  induction plan with
  | answer value => rfl
  | record event rest ih =>
    simp only [steps, consultations, List.count_cons, ih]
    simp
  | consult rest ih =>
    simp only [steps, consultations, List.nil_append, List.count_cons_self, ih]

end Plan

namespace Extension

open Compiler (Outcome)
open Storage (FileTree)

/-- A chain from the cache up to a level: its run, and the steps of the run. -/
structure Layer where
  level : Nat
  run : Recorded Outcome
  steps : List Step

namespace Layer

variable {layer : Layer}

def bottom (cache : Recorded Outcome) : Layer where
  level := 0
  run := cache
  steps := ⟨0, .begin⟩ :: cache.events.map fun event => ⟨0, .record event⟩

def push (layer : Layer) (plan : Plan Outcome Outcome) : Layer where
  level := layer.level + 1
  run := plan.run layer.run
  steps := ⟨layer.level + 1, .begin⟩ ::
    plan.steps (layer.level + 1) layer.run.value layer.steps

def pushAll (layer : Layer) (plans : List (Plan Outcome Outcome)) : Layer :=
  plans.foldl push layer

@[simp] theorem pushAll_nil (layer : Layer) : layer.pushAll [] = layer := rfl

@[simp] theorem pushAll_cons (layer : Layer) (plan : Plan Outcome Outcome)
    (above : List (Plan Outcome Outcome)) :
    layer.pushAll (plan :: above) = (layer.push plan).pushAll above := rfl

theorem pushAll_append (layer : Layer) (plans above : List (Plan Outcome Outcome)) :
    layer.pushAll (plans ++ above) = (layer.pushAll plans).pushAll above := List.foldl_append

theorem level_pushAll (layer : Layer) (plans : List (Plan Outcome Outcome)) :
    (layer.pushAll plans).level = layer.level + plans.length := by
  induction plans generalizing layer with
  | nil => rfl
  | cons plan above ih =>
    rw [pushAll_cons, ih, List.length_cons]
    exact Nat.add_right_comm layer.level 1 above.length

theorem level_bottom_pushAll (cache : Recorded Outcome) (overrides : List Override)
    (version : String) :
    ((bottom cache).pushAll (plans overrides version)).level = overrides.length := by
  rw [level_pushAll, plans, List.length_map]
  exact Nat.zero_add _

theorem run_pushAll (layer : Layer) (plans : List (Plan Outcome Outcome)) :
    (layer.pushAll plans).run = nested plans layer.run := by
  induction plans generalizing layer with
  | nil => rfl
  | cons plan above ih => exact ih (layer.push plan)

theorem events_bottom (cache : Recorded Outcome) :
    (bottom cache).steps.filterMap Step.event? = cache.events := by
  have h : (Step.event? ∘ fun event => ⟨0, .record event⟩) = some := rfl
  change (cache.events.map fun event => ⟨0, .record event⟩).filterMap Step.event? = cache.events
  rw [List.filterMap_map, h, List.filterMap_some]

theorem events_pushAll (h : layer.steps.filterMap Step.event? = layer.run.events)
    (plans : List (Plan Outcome Outcome)) :
    (layer.pushAll plans).steps.filterMap Step.event? = (layer.pushAll plans).run.events := by
  induction plans generalizing layer with
  | nil => exact h
  | cons plan above ih => exact ih (Plan.events_steps h plan)

/-- No step of a chain lies above it. -/
theorem level_le_pushAll (h : ∀ step ∈ layer.steps, step.level ≤ layer.level)
    (plans : List (Plan Outcome Outcome)) :
    ∀ step ∈ (layer.pushAll plans).steps, step.level ≤ (layer.pushAll plans).level := by
  induction plans generalizing layer with
  | nil => exact h
  | cons plan above ih =>
    refine ih fun step hs => ?_
    rcases List.mem_cons.mp hs with rfl | hs
    · exact Nat.le_refl _
    · rcases Plan.mem_steps hs with rfl | ⟨event, rfl⟩ | hs
      · exact Nat.le_refl _
      · exact Nat.le_refl _
      · exact Nat.le_succ_of_le (h step hs)

theorem level_le_bottom (cache : Recorded Outcome) :
    ∀ step ∈ (bottom cache).steps, step.level ≤ (bottom cache).level := by
  intro step hs
  rcases List.mem_cons.mp hs with rfl | hs
  · exact Nat.le_refl 0
  · obtain ⟨event, -, rfl⟩ := List.mem_map.mp hs
    exact Nat.le_refl 0

end Layer

namespace Registry

variable (registry : Registry) (files : FileTree) (version : String)

def layer : Layer :=
  (Layer.bottom (registry.cache.lookup files version)).pushAll (plans registry.overrides version)

/-- The steps of a request, after its first record. -/
def steps : List Step :=
  (registry.layer files version).steps

theorem level_layer : (registry.layer files version).level = registry.overrides.length :=
  Layer.level_bottom_pushAll _ registry.overrides version

/-- The chain of a registry, cut in two. -/
theorem layer_of_append (below above : List Override) (h : registry.overrides = below ++ above) :
    registry.layer files version =
      ((Layer.bottom (registry.cache.lookup files version)).pushAll
        (plans below version)).pushAll (plans above version) := by
  rw [layer, h, plans_append, Layer.pushAll_append]

def running : Event :=
  .log ⟨.debug, "Running compile:solidity:get-solc-build for solc " ++ version⟩

theorem value_getBuild :
    (registry.getBuild files version).value = (registry.layer files version).run.value := by
  rw [getBuild_eq_nested, layer, Layer.run_pushAll]
  rfl

/-- What a request records are the events of its steps. -/
theorem events_getBuild :
    (registry.getBuild files version).events =
      running version :: (registry.steps files version).filterMap Step.event? := by
  rw [getBuild_eq_nested, steps, layer, Layer.events_pushAll (Layer.events_bottom _),
    Layer.run_pushAll]
  rfl

end Registry
end Extension
end ContractPipeline
