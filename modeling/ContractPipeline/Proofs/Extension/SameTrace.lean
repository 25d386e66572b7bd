import ContractPipeline.Proofs.Compiler.Selection

/-! Runs that end alike and note the same labels, whatever they log. Handlers cannot read the log,
so that a difference in what is logged below them stays one. -/
namespace ContractPipeline

/-- The same value and the same labels in the same order. -/
structure Recorded.SameTrace {α : Type} (x y : Recorded α) : Prop where
  value : x.value = y.value
  labels : x.labels = y.labels

namespace Recorded

variable {α β : Type} {x y : Recorded α}

theorem labels_bind (x : Recorded α) (f : α → Recorded β) :
    (x >>= f).labels = x.labels ++ (f x.value).labels := List.filterMap_append

theorem SameTrace.refl (x : Recorded α) : SameTrace x x := ⟨rfl, rfl⟩

theorem SameTrace.bind {f g : α → Recorded β} (h : SameTrace x y)
    (hf : ∀ a, SameTrace (f a) (g a)) : SameTrace (x >>= f) (y >>= g) := by
  have hv := hf y.value
  constructor
  · rw [value_bind, value_bind, h.value, hv.value]
  · rw [labels_bind, labels_bind, h.labels, h.value, hv.labels]

/-- A record of the log leaves no trace. -/
theorem sameTrace_log (record : LogRecord) (x : Recorded α) :
    SameTrace (emit (.log record) >>= fun _ => x) x := ⟨rfl, rfl⟩

end Recorded

/-- A plan hands the difference between two runs below it on, and adds none. -/
theorem Plan.run_sameTrace {α β : Type} {lower lower' : Recorded β}
    (h : lower.SameTrace lower') (plan : Plan β α) :
    (plan.run lower).SameTrace (plan.run lower') := by
  induction plan with
  | answer value => exact .refl _
  | record event rest ih => exact (Recorded.SameTrace.refl (.emit event)).bind fun _ => ih
  | consult rest ih => exact h.bind ih

namespace Extension

open Compiler (NativeCompiler Outcome)

theorem nested_sameTrace {base base' : Recorded Outcome} (h : base.SameTrace base')
    (above : List (Plan Outcome Outcome)) :
    (nested above base).SameTrace (nested above base') := by
  induction above generalizing base base' with
  | nil => exact h
  | cons plan above ih => exact ih (plan.run_sameTrace h)

/-- Under a version that the native compiler does not serve, an override that prefers it leaves no
trace. -/
theorem Override.run_native_sameTrace {native : NativeCompiler} {version : String}
    (h : native.serves version = false) (lower : Recorded Outcome) :
    ((Override.native native version).run lower).SameTrace lower := by
  rw [Override.run_native_of_not_serves native version lower h]
  exact Recorded.sameTrace_log _ lower

end Extension

end ContractPipeline
