import ContractPipeline.Journal

/-! Plans: what a handler does that may record events, and may consult the handlers below it any
number of times. -/
namespace ContractPipeline

/-- A way to a value of type `α`; each consultation yields a value of type `β`. -/
inductive Plan (β α : Type)
  | answer (value : α)
  | record (event : Event) (rest : Plan β α)
  | consult (rest : β → Plan β α)

namespace Plan

variable {α γ β : Type}

def andThen : Plan β α → (α → Plan β γ) → Plan β γ
  | .answer value, f => f value
  | .record event rest, f => .record event (rest.andThen f)
  | .consult rest, f => .consult fun outcome => (rest outcome).andThen f

instance : Monad (Plan β) where
  pure := .answer
  bind := andThen

def emit (event : Event) : Plan β Unit :=
  .record event (.answer ())

def next : Plan β β :=
  .consult .answer

/-- Carries a plan out; each consultation is one more run of what lies below. -/
def run (lower : Recorded β) : Plan β α → Recorded α
  | .answer value => pure value
  | .record event rest => do
    Recorded.emit event
    rest.run lower
  | .consult rest => do
    let outcome ← lower
    (rest outcome).run lower

@[simp] theorem run_pure (lower : Recorded β) (a : α) :
    (pure a : Plan β α).run lower = pure a := rfl

@[simp] theorem run_emit (lower : Recorded β) (event : Event) :
    (emit event : Plan β Unit).run lower = Recorded.emit event := rfl

@[simp] theorem run_next (lower : Recorded β) : (next : Plan β β).run lower = lower := by
  change (lower >>= fun outcome => pure outcome) = lower
  exact bind_pure lower

/-- Running a plan and then another is running both in order. -/
theorem run_bind (lower : Recorded β) (plan : Plan β α) (f : α → Plan β γ) :
    (plan >>= f).run lower = plan.run lower >>= fun a => (f a).run lower := by
  induction plan with
  | answer value => exact (pure_bind value fun a => (f a).run lower).symm
  | record event rest ih =>
    change (Recorded.emit event >>= fun _ => (rest >>= f).run lower) = _
    rw [ih]
    exact (bind_assoc (Recorded.emit event) (fun _ => rest.run lower) _).symm
  | consult rest ih =>
    change (lower >>= fun outcome => (rest outcome >>= f).run lower) = _
    simp only [ih]
    exact (bind_assoc lower (fun outcome => (rest outcome).run lower) _).symm

end Plan

end ContractPipeline
