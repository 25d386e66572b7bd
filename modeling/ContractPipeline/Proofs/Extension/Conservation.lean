import Mathlib.Algebra.Ring.Nat
import Mathlib.Data.List.Induction
import ContractPipeline.Proofs.Compiler.Selection
import ContractPipeline.Proofs.Extension.Steps

/-! Calls are conserved along the chain of overrides: the uppermost override runs once, and all else
below it, down to the cache, runs as often as the override right above it consults. The warnings of a
request are counted with the runs of the native compilers that do not serve its version. -/
namespace ContractPipeline

open Extension (Step)

section Warnings

def Event.isWarning : Event → Bool
  | .log record => record.level = .warn
  | .note _ => false

theorem Recorded.length_warnings {α : Type} (x : Recorded α) :
    x.warnings.length = x.events.countP Event.isWarning := by
  have h : (fun event : Event => (event.record?.map fun record => decide (record.level = .warn)).getD
      false) = Event.isWarning := by
    funext event
    cases event <;> rfl
  rw [warnings, records, ← List.countP_eq_length_filter, List.countP_filterMap, h]

def Plan.NeverWarns {α β : Type} : Plan β α → Prop
  | .answer _ => True
  | .record event rest => event.isWarning = false ∧ rest.NeverWarns
  | .consult rest => ∀ outcome, (rest outcome).NeverWarns

end Warnings

def Extension.Step.records (kind : Event → Bool) (step : Step) : Bool :=
  (step.event?.map kind).getD false

theorem Extension.Step.countP_events (kind : Event → Bool) (steps : List Step) :
    (steps.filterMap Step.event?).countP kind = steps.countP (Step.records kind) :=
  List.countP_filterMap

namespace Plan

variable {α β : Type} {level : Nat} {outcome : β} {below : List Step}

theorem count_steps (step : Step) (plan : Plan β α) :
    (plan.steps level outcome below).count step = (plan.steps level outcome []).count step +
      plan.consultations outcome * below.count step := countP_steps (· == step) plan

/-- A plan does not begin by itself, and takes no step on another level. -/
theorem count_steps_eq_zero {step : Step} (h : step.act = .begin ∨ step.level ≠ level)
    (plan : Plan β α) : (plan.steps level outcome []).count step = 0 := by
  apply List.count_eq_zero.mpr
  intro hs
  rcases mem_steps hs with rfl | ⟨event, rfl⟩ | hs
  · simp at h
  · simp at h
  · exact absurd hs List.not_mem_nil

theorem countP_warning_steps {plan : Plan β α} (h : plan.NeverWarns) :
    (plan.steps level outcome []).countP (Step.records Event.isWarning) = 0 := by
  induction plan with
  | answer value => rfl
  | record event rest ih =>
    have he : Step.records Event.isWarning ⟨level, .record event⟩ = false := h.1
    rw [steps, List.countP_cons_of_neg (by simp [he]), ih h.2]
  | consult rest ih =>
    rw [steps, List.nil_append, List.countP_cons_of_neg (by simp [Step.records, Step.event?])]
    exact ih outcome (h outcome)

end Plan

namespace Extension

open Compiler (NativeCompiler Outcome)
open Storage (FileTree)

namespace Layer

variable {layer : Layer}

theorem count_eq_zero {step : Step} (hl : ∀ step ∈ layer.steps, step.level ≤ layer.level)
    (h : layer.level < step.level) : layer.steps.count step = 0 :=
  List.count_eq_zero.mpr fun hs => Nat.not_lt.mpr (hl step hs) h

theorem countP_push (p : Step → Bool) (plan : Plan Outcome Outcome) :
    (layer.push plan).steps.countP p = [⟨layer.level + 1, .begin⟩].countP p +
      (plan.steps (layer.level + 1) layer.run.value []).countP p +
        plan.consultations layer.run.value * layer.steps.countP p := by
  rw [push, ← List.singleton_append, List.countP_append, Plan.countP_steps, Nat.add_assoc]

/-- One plan more repeats all that lies below it. -/
theorem count_push {step : Step} (h : step.level ≤ layer.level) (plan : Plan Outcome Outcome) :
    (layer.push plan).steps.count step =
      plan.consultations layer.run.value * layer.steps.count step := by
  have hb : (⟨layer.level + 1, .begin⟩ : Step) ≠ step := by
    rintro rfl
    exact Nat.not_succ_le_self _ h
  rw [push, List.count_cons_of_ne hb, Plan.count_steps,
    Plan.count_steps_eq_zero (.inr (Nat.ne_of_lt (Nat.lt_succ_of_le h))), Nat.zero_add]

theorem count_push_begin (hl : ∀ step ∈ layer.steps, step.level ≤ layer.level)
    (plan : Plan Outcome Outcome) :
    (layer.push plan).steps.count ⟨layer.level + 1, .begin⟩ = 1 := by
  rw [push, List.count_cons_self, Plan.count_steps, Plan.count_steps_eq_zero (.inl rfl),
    count_eq_zero hl (Nat.lt_succ_self _)]
  rfl

theorem count_push_consult (hl : ∀ step ∈ layer.steps, step.level ≤ layer.level)
    (plan : Plan Outcome Outcome) :
    (layer.push plan).steps.count ⟨layer.level + 1, .consult⟩ =
      plan.consultations layer.run.value := by
  rw [push, List.count_cons_of_ne (by simp), Plan.count_steps, Plan.count_consult_steps,
    count_eq_zero hl (Nat.lt_succ_self _)]
  rfl

/-- Plans on top repeat all that lies below them, and all of it equally often. -/
theorem exists_count_pushAll (plans : List (Plan Outcome Outcome)) :
    ∃ times, ∀ step : Step, step.level ≤ layer.level →
      (layer.pushAll plans).steps.count step = times * layer.steps.count step := by
  induction plans generalizing layer with
  | nil => exact ⟨1, fun step _ => (Nat.one_mul _).symm⟩
  | cons plan above ih =>
    obtain ⟨times, ht⟩ := @ih (layer.push plan)
    refine ⟨times * plan.consultations layer.run.value, fun step hs => ?_⟩
    rw [pushAll_cons, ht step (Nat.le_succ_of_le hs), count_push hs, Nat.mul_assoc]

/-- The top of a chain begins once, and each level below it as often as the next one consults. -/
structure Conserved (layer : Layer) : Prop where
  level_le : ∀ step ∈ layer.steps, step.level ≤ layer.level
  top : layer.steps.count ⟨layer.level, .begin⟩ = 1
  between : ∀ level < layer.level,
    layer.steps.count ⟨level, .begin⟩ = layer.steps.count ⟨level + 1, .consult⟩

theorem conserved_bottom (cache : Recorded Outcome) : (bottom cache).Conserved where
  level_le := level_le_bottom cache
  top := by
    have h : (⟨0, .begin⟩ : Step) ∉ cache.events.map fun event => ⟨0, .record event⟩ := by
      simp
    rw [bottom, List.count_cons_self, List.count_eq_zero.mpr h]
  between level h := absurd h (Nat.not_lt_zero level)

/-- One plan more is begun once, and consults once for each run of what was on top before. -/
theorem Conserved.push (h : layer.Conserved) (plan : Plan Outcome Outcome) :
    (layer.push plan).Conserved where
  level_le := level_le_pushAll h.level_le [plan]
  top := count_push_begin h.level_le plan
  between level hl := by
    rcases Nat.lt_succ_iff_lt_or_eq.mp hl with hl | rfl
    · have hs : (⟨level + 1, .consult⟩ : Step).level ≤ layer.level := hl
      rw [count_push (Nat.le_of_lt hl), count_push hs, h.between level hl]
    · rw [count_push (Nat.le_refl _), count_push_consult h.level_le, h.top, Nat.mul_one]

theorem Conserved.pushAll (h : layer.Conserved) (plans : List (Plan Outcome Outcome)) :
    (layer.pushAll plans).Conserved := by
  induction plans generalizing layer with
  | nil => exact h
  | cons plan above ih => exact ih (h.push plan)

/-- Two chains that differ in how often they take some steps, namely as often as the second takes a
certain one. -/
structure Exceeds (p : Step → Bool) (step : Step) (layer other : Layer) : Prop where
  level : layer.level = other.level
  value : layer.run.value = other.run.value
  level_le : step.level ≤ other.level
  countP : layer.steps.countP p = other.steps.countP p + other.steps.count step

theorem Exceeds.pushAll {p : Step → Bool} {step : Step} {other : Layer}
    (h : Exceeds p step layer other) (plans : List (Plan Outcome Outcome)) :
    Exceeds p step (layer.pushAll plans) (other.pushAll plans) := by
  induction plans generalizing layer other with
  | nil => exact h
  | cons plan above ih =>
    refine ih ⟨congrArg Nat.succ h.level, ?_, Nat.le_succ_of_le h.level_le, ?_⟩
    · exact Plan.value_run_congr h.value plan
    · rw [countP_push, countP_push, count_push h.level_le, h.level, h.value, h.countP, Nat.mul_add]
      omega

/-- An override that notes a label notes it each time it begins. -/
theorem exceeds_push_noting (hl : ∀ step ∈ layer.steps, step.level ≤ layer.level)
    (handler : Override) (label version : String) :
    Exceeds (Step.records (· == .note (label ++ " " ++ version))) ⟨layer.level + 1, .begin⟩
      (layer.push (Override.noting label handler version)) (layer.push (handler version)) where
  level := rfl
  value := rfl
  level_le := Nat.le_refl _
  countP := by
    have hs : (layer.push (Override.noting label handler version)).steps =
        ⟨layer.level + 1, .begin⟩ ::
          ⟨layer.level + 1, .record (.note (label ++ " " ++ version))⟩ ::
            (handler version).steps (layer.level + 1) layer.run.value layer.steps := rfl
    have hr : Step.records (· == .note (label ++ " " ++ version))
        ⟨layer.level + 1, .record (.note (label ++ " " ++ version))⟩ = true := by
      simp [Step.records, Step.event?]
    rw [count_push_begin hl, hs, push, List.countP_cons, List.countP_cons_of_pos hr,
      List.countP_cons]
    omega

/-- A cache that notes an event notes it each time it is consulted. -/
theorem exceeds_bottom_noting (cache : Recorded Outcome) (event : Event) :
    Exceeds (Step.records (· == event)) ⟨0, .begin⟩
      (bottom (do Recorded.emit event; cache)) (bottom cache) where
  level := rfl
  value := rfl
  level_le := Nat.le_refl 0
  countP := by
    have hs : (bottom (do Recorded.emit event; cache)).steps =
        ⟨0, .begin⟩ :: ⟨0, .record event⟩ ::
          cache.events.map fun event => ⟨0, .record event⟩ := rfl
    have hr : Step.records (· == event) ⟨0, .record event⟩ = true := beq_self_eq_true event
    have hb : (bottom cache).steps.count ⟨0, .begin⟩ = 1 := (conserved_bottom cache).top
    rw [hb, hs, bottom, List.countP_cons, List.countP_cons_of_pos hr,
      List.countP_cons]
    omega

/-- How often an event is recorded can be counted in the steps of the chain. -/
theorem count_events_nested (cache : Recorded Outcome) (plans : List (Plan Outcome Outcome))
    (event : Event) : (nested plans cache).events.count event =
      ((bottom cache).pushAll plans).steps.countP (Step.records (· == event)) := by
  rw [← Step.countP_events, events_pushAll (events_bottom cache), run_pushAll]
  rfl

end Layer

theorem Layer.pushAll_plans_append (layer : Layer) (overrides : List Override) (last : Override)
    (version : String) : layer.pushAll (plans (overrides ++ [last]) version) =
      (layer.pushAll (plans overrides version)).push (last version) := by
  rw [plans_append, pushAll_append]
  rfl

section Repeats

theorem Override.consultations_repeated {times : Nat} (h : 0 < times) (outcome : Outcome) :
    (repeated times).consultations outcome = times := by
  fun_induction repeated times with
  | case1 => exact absurd h (Nat.lt_irrefl 0)
  | case2 => rfl
  | case3 times ih => exact congrArg Nat.succ (ih (Nat.succ_pos times))

def Override.handOn (repeats : String × Nat) : Override :=
  .noting repeats.1 (.again repeats.2)

theorem Layer.count_begin_handOn (cache : Recorded Outcome) (version : String)
    {repeats : List (String × Nat)} (h : ∀ r ∈ repeats, 0 < r.2) {level : Nat}
    (hl : level ≤ repeats.length) :
    ((bottom cache).pushAll (plans (repeats.map Override.handOn) version)).steps.count
      ⟨level, .begin⟩ = ((repeats.drop level).map Prod.snd).prod := by
  -- On the chain from its upper end: the uppermost override repeats all that lies below it.
  induction repeats using List.reverseRecOn with
  | nil =>
    rw [Nat.le_zero.mp hl]
    exact (conserved_bottom cache).top
  | append_singleton repeats last ih =>
    have hb := level_bottom_pushAll cache (repeats.map Override.handOn) version
    rw [List.length_map] at hb
    have hc := conserved_bottom cache |>.pushAll (plans (repeats.map Override.handOn) version)
    rw [List.map_append, List.map_singleton, pushAll_plans_append]
    rw [List.length_append, List.length_singleton] at hl
    rcases Nat.lt_or_eq_of_le hl with hl | rfl
    · have hl := Nat.le_of_lt_succ hl
      have ht : (Override.handOn last version).consultations
          ((bottom cache).pushAll (plans (repeats.map Override.handOn) version)).run.value =
            last.2 := Override.consultations_repeated (h last (by simp)) _
      rw [count_push (hb.symm ▸ hl), ht, ih (fun r hr => h r (by simp [hr])) hl,
        List.drop_append_of_le_length hl, List.map_append, List.prod_append, Nat.mul_comm]
      simp
    · have ht := (hc.push (Override.handOn last version)).top
      rw [push, hb] at ht
      simpa [push, hb] using ht

end Repeats

section Links

inductive Link
  | native (compiler : NativeCompiler)
  | custom (override : Override)

def Link.override : Link → Override
  | native compiler => .native compiler
  | custom override => override

/-- Whether an override prefers a native compiler whose version is not the one asked for. -/
def Link.misses (version : String) : Link → Bool
  | native compiler => compiler.expectedVersion != some version
  | custom _ => false

/-- Whether a step begins the run of an override that prefers a native compiler of another version
than the one asked for. -/
def Step.beginsMiss (links : List Link) (version : String) : Step → Bool
  | ⟨level + 1, .begin⟩ => links[level]?.any (Link.misses version)
  | _ => false

theorem Link.countP_warning_steps (link : Link) (version : String)
    (h : ∀ override, link = .custom override → (override version).NeverWarns) (level : Nat)
    (outcome : Outcome) :
    ((link.override version).steps level outcome []).countP (Step.records Event.isWarning) =
      if link.misses version then 1 else 0 := by
  cases link with
  | custom override => exact Plan.countP_warning_steps (h override rfl)
  | native compiler =>
    cases hs : compiler.serves version with
    | true =>
      have hm : misses version (.native compiler) = false := congrArg not hs
      rw [hm, override, Override.native, NativeCompiler.resolve, if_pos hs]
      rfl
    | false =>
      have hm : misses version (.native compiler) = true := congrArg not hs
      have hs : ¬compiler.serves version = true := ne_true_of_eq_false hs
      rw [hm, override, Override.native, NativeCompiler.resolve, if_neg hs]
      rfl

theorem Step.countP_beginsMiss_steps (links : List Link) (version : String)
    (plan : Plan Outcome Outcome) (level : Nat) (outcome : Outcome) :
    (plan.steps level outcome []).countP (beginsMiss links version) = 0 := by
  apply List.countP_eq_zero.mpr
  intro step hs
  rcases Plan.mem_steps hs with rfl | ⟨event, rfl⟩ | hs
  · cases level <;> simp [beginsMiss]
  · cases level <;> simp [beginsMiss]
  · exact absurd hs List.not_mem_nil

/-- A step on a level of a chain is not affected by what is above the chain. -/
theorem Step.beginsMiss_append {links above : List Link} {step : Step}
    (h : step.level ≤ links.length) (version : String) :
    beginsMiss (links ++ above) version step = beginsMiss links version step := by
  obtain ⟨level, act⟩ := step
  cases level with
  | zero => rfl
  | succ level =>
    cases act with
    | begin => exact congrArg (Option.any _) (List.getElem?_append_left h)
    | consult => rfl
    | record event => rfl

/-- One override more adds its own warnings and its own runs, and repeats those below it. -/
theorem Layer.countP_warning_push {layer : Layer} {links : List Link} {version : String}
    (hl : layer.level = links.length) (hle : ∀ step ∈ layer.steps, step.level ≤ layer.level)
    (hw : layer.steps.countP (Step.records Event.isWarning) =
      layer.steps.countP (Step.beginsMiss links version)) (last : Link)
    (h : ∀ override, last = .custom override → (override version).NeverWarns) :
    (layer.push (last.override version)).steps.countP (Step.records Event.isWarning) =
      (layer.push (last.override version)).steps.countP
        (Step.beginsMiss (links ++ [last]) version) := by
  have hb : layer.steps.countP (Step.beginsMiss (links ++ [last]) version) =
      layer.steps.countP (Step.beginsMiss links version) := by
    refine List.countP_congr fun step hs => ?_
    rw [Step.beginsMiss_append (hl ▸ hle step hs)]
  have hs : Step.beginsMiss (links ++ [last]) version ⟨layer.level + 1, .begin⟩ =
      last.misses version := by
    rw [Step.beginsMiss, hl]
    simp
  rw [countP_push, countP_push, last.countP_warning_steps version h, hb,
    Step.countP_beginsMiss_steps, hw]
  simp [hs, Step.records, Step.event?, List.countP_cons]

theorem Layer.countP_warning_bottom {cache : Recorded Outcome} (hc : cache.warnings = [])
    (version : String) : (bottom cache).steps.countP (Step.records Event.isWarning) =
      (bottom cache).steps.countP (Step.beginsMiss [] version) := by
  have hw : (bottom cache).steps.countP (Step.records Event.isWarning) = 0 := by
    rw [← Step.countP_events, events_bottom, ← cache.length_warnings, hc]
    rfl
  have hm : (bottom cache).steps.countP (Step.beginsMiss [] version) = 0 := by
    refine List.countP_eq_zero.mpr fun step _ => ?_
    unfold Step.beginsMiss
    split <;> simp
  exact hw.trans hm.symm

theorem Layer.countP_warning {cache : Recorded Outcome} (hc : cache.warnings = [])
    (version : String) {links : List Link}
    (h : ∀ override, .custom override ∈ links → (override version).NeverWarns) :
    let top := (bottom cache).pushAll (plans (links.map Link.override) version)
    top.steps.countP (Step.records Event.isWarning) =
      top.steps.countP (Step.beginsMiss links version) := by
  induction links using List.reverseRecOn with
  | nil => exact countP_warning_bottom hc version
  | append_singleton links last ih =>
    have hl := level_bottom_pushAll cache (links.map Link.override) version
    have hle := level_le_pushAll (level_le_bottom cache) (plans (links.map Link.override) version)
    rw [List.length_map] at hl
    rw [List.map_append, List.map_singleton, pushAll_plans_append]
    refine countP_warning_push hl hle (ih fun override ho => h override ?_) last
      fun override ho => h override ?_
    · exact List.mem_append_left [last] ho
    · exact ho ▸ List.mem_append_right links List.mem_cons_self

end Links

namespace Registry

/-- How often each level of the chain takes part in a request. -/
structure Conserves (registry : Registry) (files : FileTree) (version : String) : Prop where
  /-- The steps are those of the request: they record what it records. -/
  recorded : (registry.getBuild files version).events =
    running version :: (registry.steps files version).filterMap Step.event?
  /-- An override that is made to note a label notes it once for each of its beginnings. -/
  noted : ∀ below handler above label, registry.overrides = below ++ handler :: above →
    let observed :=
      { registry with overrides := below ++ Override.noting label handler :: above }
    let note := Event.note (label ++ " " ++ version)
    (observed.getBuild files version).events.count note =
      (registry.getBuild files version).events.count note +
        (registry.steps files version).count ⟨below.length + 1, .begin⟩
  /-- A cache that is made to note a label notes it each time it is consulted, whatever it answers. -/
  notedBelow : ∀ label,
    let observed : Recorded Outcome := do
      Recorded.emit (.note label)
      registry.cache.lookup files version
    (runBelow registry.overrides observed version registry.overrides.length
        (Nat.le_refl _)).events.count (.note label) =
      (registry.getBuild files version).events.count (.note label) +
        (registry.steps files version).count ⟨0, .begin⟩
  /-- Each time it runs, an override consults as often as it does for what lies below it. -/
  consulted : ∀ below handler above, registry.overrides = below ++ handler :: above →
    let lower := nested (plans below version) (registry.cache.lookup files version)
    (registry.steps files version).count ⟨below.length + 1, .consult⟩ =
      (registry.steps files version).count ⟨below.length + 1, .begin⟩ *
        (handler version).consultations lower.value
  /-- The uppermost override runs once, and where there is none, the cache is consulted once. -/
  top : (registry.steps files version).count ⟨registry.overrides.length, .begin⟩ = 1
  /-- Any other override, and the cache, runs as often as the one right above it consults. -/
  between : ∀ level < registry.overrides.length,
    (registry.steps files version).count ⟨level, .begin⟩ =
      (registry.steps files version).count ⟨level + 1, .consult⟩

variable (registry : Registry) (files : FileTree) (version : String)

theorem conserved_layer : (registry.layer files version).Conserved :=
  (Layer.conserved_bottom _).pushAll _

theorem count_consult_steps {below above : List Override} {handler : Override}
    (h : registry.overrides = below ++ handler :: above) :
    (registry.steps files version).count ⟨below.length + 1, .consult⟩ =
      (registry.steps files version).count ⟨below.length + 1, .begin⟩ *
        (handler version).consultations
          (nested (plans below version) (registry.cache.lookup files version)).value := by
  have hl := Layer.level_bottom_pushAll (registry.cache.lookup files version) below version
  have hle := Layer.level_le_pushAll (Layer.level_le_bottom (registry.cache.lookup files version))
    (plans below version)
  have hr := Layer.run_pushAll (Layer.bottom (registry.cache.lookup files version))
    (plans below version)
  rw [steps, registry.layer_of_append files version below (handler :: above) h, plans_cons,
    Layer.pushAll_cons]
  generalize (Layer.bottom _).pushAll (plans below version) = layer at *
  obtain ⟨times, ht⟩ := (layer.push (handler version)).exists_count_pushAll (plans above version)
  have hb := layer.count_push_begin hle (handler version)
  have hc := layer.count_push_consult hle (handler version)
  rw [← hl, ht _ (Nat.le_refl _), ht _ (Nat.le_refl _), hb, hc, hr]
  simp [Layer.bottom]

theorem count_note_getBuild (label : String) {below above : List Override} {handler : Override}
    (h : registry.overrides = below ++ handler :: above) :
    ({ registry with overrides := below ++ Override.noting label handler :: above }.getBuild files
        version).events.count (Event.note (label ++ " " ++ version)) =
      (registry.getBuild files version).events.count (Event.note (label ++ " " ++ version)) +
        (registry.steps files version).count ⟨below.length + 1, .begin⟩ := by
  have hl := Layer.level_bottom_pushAll (registry.cache.lookup files version) below version
  have hle := Layer.level_le_pushAll (Layer.level_le_bottom (registry.cache.lookup files version))
    (plans below version)
  generalize hnote : Event.note (label ++ " " ++ version) = note
  have hn : (running version == note) = false := by
    rw [← hnote]
    rfl
  have hcount : ∀ other : Registry, (other.getBuild files version).events.count note =
      (other.steps files version).countP (Step.records (· == note)) := by
    intro other
    rw [events_getBuild, List.count_cons, hn, List.count_eq_countP, Step.countP_events]
    rfl
  have he := Layer.exceeds_push_noting hle handler label version
  rw [hnote, hl] at he
  rw [hcount, hcount, steps, steps, registry.layer_of_append files version below _ h,
    layer_of_append _ files version below (Override.noting label handler :: above) rfl, plans_cons,
    plans_cons, Layer.pushAll_cons, Layer.pushAll_cons]
  exact (he.pushAll (plans above version)).countP

theorem count_note_runBelow (label : String) :
    (runBelow registry.overrides
      (do Recorded.emit (.note label); registry.cache.lookup files version) version
      registry.overrides.length (Nat.le_refl _)).events.count (.note label) =
    (registry.getBuild files version).events.count (.note label) +
      (registry.steps files version).count ⟨0, .begin⟩ := by
  have hn : (running version == Event.note label) = false := rfl
  have he := Layer.exceeds_bottom_noting (registry.cache.lookup files version) (.note label)
  rw [runBelow_eq_nested, List.take_length, Layer.count_events_nested, events_getBuild,
    List.count_cons, hn, List.count_eq_countP, Step.countP_events]
  exact (he.pushAll (plans registry.overrides version)).countP

/-- Whatever the overrides of a registry do, calls are conserved: the uppermost override runs once,
and each other one as often as the one above it consults, down to the cache. Where each override hands
the request on a number of times, these numbers multiply from the upper end. Where all warnings are
those of native compilers, there is one for each run of a native compiler that does not serve the
version. -/
theorem getBuild_conserves (registry : Registry) (files : FileTree) (version : String) :
    registry.Conserves files version ∧
    (∀ repeats : List (String × Nat), registry.overrides = repeats.map Override.handOn →
      (∀ r ∈ repeats, 0 < r.2) → ∀ level ≤ repeats.length,
        (registry.steps files version).count ⟨level, .begin⟩ =
          ((repeats.drop level).map Prod.snd).prod) ∧
    ∀ links : List Link, registry.overrides = links.map Link.override →
      (∀ override, .custom override ∈ links → (override version).NeverWarns) →
      (registry.getBuild files version).warnings.length =
        (registry.steps files version).countP (Step.beginsMiss links version) := by
  have hc := registry.conserved_layer files version
  refine ⟨?_, fun repeats ho hr level hl => ?_, fun links ho hw => ?_⟩
  · constructor
    case recorded => exact registry.events_getBuild files version
    case noted => exact fun _ _ _ label h => registry.count_note_getBuild files version label h
    case notedBelow => exact registry.count_note_runBelow files version
    case consulted => exact fun _ _ _ h => registry.count_consult_steps files version h
    case top => exact registry.level_layer files version ▸ hc.top
    case between => exact registry.level_layer files version ▸ hc.between
  · rw [steps, layer, ho]
    exact Layer.count_begin_handOn _ version hr hl
  · have hn : (running version).isWarning = false := rfl
    have hs := Layer.countP_warning (registry.cache.warnings_lookup files version) version hw
    rw [Recorded.length_warnings, events_getBuild, List.countP_cons_of_neg (by simp [hn]),
      Step.countP_events, steps, layer, ho]
    exact hs

theorem getBuild_conserves_mixed :
    let chain : Registry := ⟨⟨"cache"⟩, [.handOn ("a", 2), .handOn ("b", 3)], [], []⟩
    let mixed : Registry := ⟨⟨"cache"⟩, [.native ⟨some "0.8.0", none⟩, .handOn ("b", 3)], [], []⟩
    (chain.steps .empty "0.8.1").count ⟨0, .begin⟩ = 6 ∧
    (chain.steps .empty "0.8.1").count ⟨1, .begin⟩ = 3 ∧
    (mixed.getBuild .empty "0.8.1").warnings.length = 3 := by
  intro chain mixed
  have hr : ∀ r ∈ [("a", 2), ("b", 3)], 0 < r.2 := by decide
  have hc := (getBuild_conserves chain .empty "0.8.1").2.1 [("a", 2), ("b", 3)] rfl hr
  have hm := (getBuild_conserves mixed .empty "0.8.1").2.2
    [.native ⟨some "0.8.0", none⟩, .custom (.handOn ("b", 3))] rfl
  refine ⟨hc 0 (by decide), hc 1 (by decide), ?_⟩
  rw [hm]
  · decide +kernel
  · intro override ho
    simp only [List.mem_cons, reduceCtorEq, Link.custom.injEq, List.not_mem_nil, or_false,
      false_or] at ho
    rw [ho]
    exact ⟨rfl, fun _ _ _ => trivial⟩

end Registry

end Extension
end ContractPipeline
