import ContractPipeline.Extension.Registry

/-! The overrides of a registry as one composition, whose innermost part is the cache: carrying out
the chain by depth is the same as nesting the handlers, for handlers that consult what lies below
them as often as they like. -/
namespace ContractPipeline

namespace Plan

variable {α β : Type}

/-- How often a plan consults, where each consultation yields the same value. -/
def consultations (outcome : β) : Plan β α → Nat
  | .answer _ => 0
  | .record _ rest => rest.consultations outcome
  | .consult rest => (rest outcome).consultations outcome + 1

/-- A plan that does not consult cannot tell what lies below. -/
theorem run_eq_of_consultations_eq_zero (lower lower' : Recorded β) (plan : Plan β α)
    (h : plan.consultations lower.value = 0) : plan.run lower' = plan.run lower := by
  induction plan with
  | answer value => rfl
  | record event rest ih =>
    have hr : rest.run lower' = rest.run lower := ih h
    simp only [run, hr]
  | consult rest ih => exact absurd h (Nat.succ_ne_zero _)

end Plan

namespace Extension

open Compiler (Outcome)
open Storage (FileTree)

/-- Plans nested into each other: each consults the one before it, and the first what is given. -/
def nested (plans : List (Plan Outcome Outcome)) (base : Recorded Outcome) : Recorded Outcome :=
  plans.foldl (fun lower plan => plan.run lower) base

@[simp] theorem nested_nil (base : Recorded Outcome) : nested [] base = base := rfl

theorem nested_append (plans above : List (Plan Outcome Outcome)) (base : Recorded Outcome) :
    nested (plans ++ above) base = nested above (nested plans base) := List.foldl_append

@[simp] theorem nested_cons (plan : Plan Outcome Outcome) (above : List (Plan Outcome Outcome))
    (base : Recorded Outcome) : nested (plan :: above) base = nested above (plan.run base) := rfl

def plans (overrides : List Override) (version : String) : List (Plan Outcome Outcome) :=
  overrides.map fun override => override version

theorem plans_append (below above : List Override) (version : String) :
    plans (below ++ above) version = plans below version ++ plans above version :=
  List.map_append

theorem plans_cons (override : Override) (above : List Override) (version : String) :
    plans (override :: above) version = override version :: plans above version := rfl

/-- The chain as far as a depth, with each override looked up by its index. There is nothing where an
index is out of range. -/
def runIndexed? (overrides : List Override) (cache : Recorded Outcome) (version : String) :
    Nat → Option (Recorded Outcome)
  | 0 => some cache
  | depth + 1 => do
    let override ← overrides[depth]?
    let lower ← runIndexed? overrides cache version depth
    return (override version).run lower

theorem runBelow_eq_nested (overrides : List Override) (cache : Recorded Outcome) (version : String)
    (depth : Nat) (h : depth ≤ overrides.length) :
    runBelow overrides cache version depth h = nested (plans (overrides.take depth) version) cache := by
  induction depth with
  | zero => rfl
  | succ depth ih =>
    have ht : overrides.take (depth + 1) = overrides.take depth ++ [overrides[depth]] :=
      List.take_succ_eq_append_getElem h
    rw [runBelow, ih (by omega), ht]
    simp only [plans, List.map_append, nested_append, List.map_cons, List.map_nil, nested_cons, nested_nil]

theorem runIndexed?_eq_some (overrides : List Override) (cache : Recorded Outcome)
    (version : String) (depth : Nat) (h : depth ≤ overrides.length) :
    runIndexed? overrides cache version depth = some (runBelow overrides cache version depth h) := by
  induction depth with
  | zero => rfl
  | succ depth ih =>
    have hg : overrides[depth]? = some overrides[depth] := List.getElem?_eq_getElem h
    simp only [runIndexed?, hg, ih (by omega), runBelow]
    rfl

namespace Registry

theorem getBuild_eq_nested (registry : Registry) (files : FileTree) (version : String) :
    registry.getBuild files version =
      (do Recorded.log .debug ("Running compile:solidity:get-solc-build for solc " ++ version)
          nested (plans registry.overrides version) (registry.cache.lookup files version)) := by
  rw [getBuild, runBelow_eq_nested, List.take_length]
  rfl

theorem overrides_foldl_override (registry : Registry) (added : List Override) :
    (added.foldl override registry).overrides = registry.overrides ++ added := by
  induction added generalizing registry with
  | nil => simp
  | cons handler added ih => simp [ih, override]

theorem cache_foldl_override (registry : Registry) (added : List Override) :
    (added.foldl override registry).cache = registry.cache := by
  induction added generalizing registry with
  | nil => rfl
  | cons handler added ih => simp [ih, override]

/-- Two chains that agree from an override upwards end in the same way on a request that this
override answers alone, whatever lies below it in each of them. -/
theorem getBuild_eq_of_answers_alone {registry other : Registry} {files files' : FileTree}
    {version : String} {below below' above : List Override} {handler : Override}
    (h : registry.overrides = below ++ handler :: above)
    (h' : other.overrides = below' ++ handler :: above)
    (hz : (handler version).consultations
      (nested (plans below version) (registry.cache.lookup files version)).value = 0) :
    other.getBuild files' version = registry.getBuild files version := by
  have hr := (handler version).run_eq_of_consultations_eq_zero _
    (nested (plans below' version) (other.cache.lookup files' version)) hz
  rw [getBuild_eq_nested, getBuild_eq_nested, h, h']
  simp only [plans, List.map_append, List.map_cons, nested_append, nested_cons]
  exact congrArg _ (funext fun _ => congrArg _ hr)

/-- With the overrides of a registry in the order of their registration, a request ends as the
handlers nested into each other over the cache do, with the same events in the same order, after one
record. Each handler sees the version that was asked for, and each index lies in range. Once a
handler answers alone, nothing below it can be told from the outcome or the events. -/
theorem getBuild_eq_composition (base : Registry) (added : List Override) (files : FileTree)
    (version : String) :
    let registry := added.foldl override base
    let lowest := base.cache.lookup files version
    registry.overrides = base.overrides ++ added ∧
    registry.getBuild files version =
      (do Recorded.log .debug ("Running compile:solidity:get-solc-build for solc " ++ version)
          nested (plans (base.overrides ++ added) version) lowest) ∧
    runIndexed? registry.overrides lowest version registry.overrides.length =
      some (nested (plans (base.overrides ++ added) version) lowest) ∧
    ∀ below handler above, base.overrides ++ added = below ++ handler :: above →
      (handler version).consultations (nested (plans below version) lowest).value = 0 →
      ∀ (other : Registry) (below' : List Override) (files' : FileTree),
        other.overrides = below' ++ handler :: above →
        other.getBuild files' version = registry.getBuild files version := by
  intro registry lowest
  have ho : registry.overrides = base.overrides ++ added := overrides_foldl_override base added
  have hc : registry.cache = base.cache := cache_foldl_override base added
  have hi := runIndexed?_eq_some registry.overrides lowest version _ (Nat.le_refl _)
  rw [runBelow_eq_nested, List.take_length] at hi
  refine ⟨ho, ?_, ho ▸ hi, ?_⟩
  · rw [getBuild_eq_nested, ho, hc]
  · intro below handler above h hz other below' files' h'
    exact getBuild_eq_of_answers_alone (ho.trans h) h' (by rw [hc]; exact hz)

theorem getBuild_above_fixed :
    let chain : Registry :=
      [.again 3, .fixed "/opt/solc", .again 2].foldl override (empty ⟨"cache"⟩)
    let other : Registry :=
      ⟨⟨"elsewhere"⟩, [.fixed "/opt/solc", .again 2], [], []⟩
    other.getBuild ⟨.folder [], []⟩ "0.8.0" = chain.getBuild .empty "0.8.0" := by
  have h := getBuild_eq_composition (empty ⟨"cache"⟩)
    [.again 3, .fixed "/opt/solc", .again 2] .empty "0.8.0"
  exact h.2.2.2 [.again 3] (.fixed "/opt/solc") [.again 2] rfl rfl _ [] _ rfl

example : (nested (plans [.noting "a" (.again 2), .noting "b" (.again 2)] "0.8.0")
    (Recorded.emit (.note "cache") >>= fun _ => pure (.error (.invalidVersion "")))).labels =
    ["b 0.8.0", "a 0.8.0", "cache", "cache", "a 0.8.0", "cache", "cache"] := by rfl

end Registry
end Extension
end ContractPipeline
