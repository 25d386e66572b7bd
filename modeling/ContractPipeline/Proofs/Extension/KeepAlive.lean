import Mathlib.Algebra.Ring.Nat
import Mathlib.Data.List.Induction
import ContractPipeline.Proofs.Extension.Reinstall

/-! The timeout that the hooks of a registry leave to a new server: what was assigned last, and all
that was added since. -/
namespace ContractPipeline.Extension

inductive TimeoutRule
  | raise
  | assign (timeout : Nat)
  | add (amount : Nat)

namespace TimeoutRule

def hook : TimeoutRule → ServerHook
  | raise => .raise
  | assign timeout => .assign timeout
  | add amount => .add amount

def assigned? : TimeoutRule → Option Nat
  | raise => some 300000
  | assign timeout => some timeout
  | add _ => none

def added : TimeoutRule → Nat
  | raise | assign _ => 0
  | add amount => amount

theorem added_of_assigned? {rule : TimeoutRule} {assigned : Nat}
    (h : rule.assigned? = some assigned) : rule.added = 0 := by
  cases rule with
  | raise => rfl
  | assign timeout => rfl
  | add amount => cases h

end TimeoutRule

def lastAssigned? (rules : List TimeoutRule) : Option Nat :=
  (rules.filterMap TimeoutRule.assigned?).getLast?

/-- The sum of what is added after the last assignment. -/
def addedSince (rules : List TimeoutRule) : Nat :=
  ((rules.reverse.takeWhile fun rule => rule.assigned?.isNone).map TimeoutRule.added).sum

theorem lastAssigned?_append (rules : List TimeoutRule) (last : TimeoutRule) :
    lastAssigned? (rules ++ [last]) = last.assigned?.or (lastAssigned? rules) := by
  rw [lastAssigned?, List.filterMap_append, List.getLast?_append]
  cases last <;> rfl

theorem addedSince_append (rules : List TimeoutRule) (last : TimeoutRule) :
    addedSince (rules ++ [last]) =
      if last.assigned?.isNone then addedSince rules + last.added else 0 := by
  rw [addedSince, List.reverse_append, List.reverse_singleton, List.singleton_append,
    List.takeWhile_cons]
  split
  case isTrue h => rw [List.map_cons, List.sum_cons, Nat.add_comm, addedSince]
  case isFalse h => rfl

/-- A hook that does something to the timeout, and notes a label if it has one. -/
structure Subscription where
  label? : Option String
  rule : TimeoutRule

namespace Subscription

def hook (subscription : Subscription) : ServerHook :=
  match subscription.label? with
  | some label => .noting label subscription.rule.hook
  | none => subscription.rule.hook

def note? (subscription : Subscription) : Option Event :=
  subscription.label?.map .note

theorem hook_eq (subscription : Subscription) (timeout : Nat) : subscription.hook timeout =
    ⟨subscription.rule.assigned?.getD timeout + subscription.rule.added,
      subscription.note?.toList⟩ := by
  obtain ⟨label?, rule⟩ := subscription
  cases label? <;> cases rule <;> rfl

end Subscription

namespace ServerHook

/-- Hooks run once each and in order, and leave what was assigned last with all that was added
since. -/
theorem runAll_subscriptions (subscriptions : List Subscription) (timeout : Nat) :
    runAll (subscriptions.map Subscription.hook) timeout =
      ⟨(lastAssigned? (subscriptions.map Subscription.rule)).getD timeout +
          addedSince (subscriptions.map Subscription.rule),
        subscriptions.filterMap Subscription.note?⟩ := by
  induction subscriptions using List.reverseRecOn with
  | nil => rfl
  | append_singleton subscriptions last ih =>
    have hr (timeout : Nat) : runAll [] timeout = pure timeout := rfl
    have hn : (subscriptions ++ [last]).filterMap Subscription.note? =
        subscriptions.filterMap Subscription.note? ++ last.note?.toList := by
      cases h : last.note? <;> simp [List.filterMap_append, h]
    simp only [List.map_append, List.map_singleton, runAll_append_cons, ih, last.hook_eq, hr,
      bind_pure, lastAssigned?_append, addedSince_append, hn]
    cases h : last.rule.assigned? with
    | none => simp [bind, Nat.add_assoc]
    | some assigned => simp [bind, TimeoutRule.added_of_assigned? h]

/-- Whether a hook assigns a timeout, whatever it was before. -/
def Assigns (hook : ServerHook) : Prop :=
  ∃ assigned, ∀ timeout, (hook timeout).value = assigned

end ServerHook

namespace Registry

def created (registry : Registry) : Event :=
  .log ⟨.debug, "Running node:server-created (" ++ toString registry.serverHooks.length ++
    " handlers)"⟩

theorem serverCreated_eq (registry : Registry) (timeout : Nat) :
    registry.serverCreated timeout =
      (do Recorded.emit registry.created
          ServerHook.runAll registry.serverHooks timeout) := rfl

/-- Whatever is registered before an installation, and whatever the timeout was, only the hooks that
are registered after it count. -/
theorem value_serverCreated_install (registry : Registry) (config : Configuration)
    (after : List Registration) (timeout : Nat) :
    ((registry.registerAll (.install config :: after)).value.serverCreated timeout).value =
      (ServerHook.runAll (after.filterMap Registration.hook?) 300000).value := by
  have h := registry.value_registerAll_install config [] after
  rw [List.nil_append] at h
  rw [h, serverCreated_eq, Recorded.value_bind]
  exact ServerHook.value_runAll_raise registry.serverHooks _ timeout

/-- Where a hook assigns the timeout, it does not count what the timeout was. -/
theorem value_serverCreated_congr {registry : Registry} {hook : ServerHook}
    (h : hook ∈ registry.serverHooks) (ha : hook.Assigns) (timeout timeout' : Nat) :
    (registry.serverCreated timeout).value = (registry.serverCreated timeout').value := by
  obtain ⟨earlier, later, he⟩ := List.append_of_mem h
  obtain ⟨assigned, ha⟩ := ha
  rw [serverCreated_eq, serverCreated_eq, Recorded.value_bind, Recorded.value_bind, he,
    ServerHook.value_runAll_assign ha, ServerHook.value_runAll_assign ha]

/-- On the creation of a server each hook runs once, in the order of registration. Hooks that assign
the timeout or add to it leave the last assignment, or what was there where nothing assigns, with the
sum of all later additions. After an installation, neither the timeout before nor the earlier hooks
count, and where some hook assigns, a second run changes nothing. -/
theorem serverCreated_leaves (registry : Registry) :
    (∀ earlier hook later, registry.serverHooks = earlier ++ hook :: later → ∀ timeout,
      registry.serverCreated timeout =
        (do Recorded.emit registry.created
            let before ← ServerHook.runAll earlier timeout
            let after ← hook before
            ServerHook.runAll later after)) ∧
    (∀ subscriptions : List Subscription,
      registry.serverHooks = subscriptions.map Subscription.hook → ∀ timeout,
        registry.serverCreated timeout =
          ⟨(lastAssigned? (subscriptions.map Subscription.rule)).getD timeout +
              addedSince (subscriptions.map Subscription.rule),
            registry.created :: subscriptions.filterMap Subscription.note?⟩) ∧
    (∀ config after timeout,
      ((registry.registerAll (.install config :: after)).value.serverCreated timeout).value =
        (ServerHook.runAll (after.filterMap Registration.hook?) 300000).value) ∧
    ∀ hook ∈ registry.serverHooks, hook.Assigns → ∀ timeout,
      let once := (registry.serverCreated timeout).value
      (registry.serverCreated once).value = once := by
  refine ⟨fun earlier hook later h timeout => ?_, fun subscriptions h timeout => ?_,
    fun config after timeout => ?_, fun hook h ha timeout => ?_⟩
  · rw [serverCreated_eq, h, ServerHook.runAll_append_cons]
  · rw [serverCreated_eq, h, ServerHook.runAll_subscriptions]
    rfl
  · exact registry.value_serverCreated_install config after timeout
  · exact value_serverCreated_congr h ha _ _

theorem serverCreated_leaves_raised :
    let subscriptions : List Subscription :=
      [⟨some "a", .assign 1000⟩, ⟨none, .raise⟩, ⟨some "b", .add 5⟩, ⟨some "c", .add 7⟩]
    let registry : Registry := ⟨⟨"cache"⟩, [], subscriptions.map Subscription.hook, []⟩
    (registry.serverCreated 5000).value = 300012 ∧
    (registry.serverCreated 5000).labels = ["a", "b", "c"] ∧
    (registry.serverCreated (registry.serverCreated 5000).value).value =
      (registry.serverCreated 5000).value := by
  intro subscriptions registry
  obtain ⟨-, hs, -, ht⟩ := serverCreated_leaves registry
  have he := hs subscriptions rfl 5000
  have ha : ServerHook.Assigns .raise := ⟨300000, fun _ => rfl⟩
  have hm : ServerHook.raise ∈ registry.serverHooks := List.mem_cons_of_mem _ List.mem_cons_self
  exact ⟨by rw [he]; rfl, by rw [he]; rfl, ht .raise hm ha 5000⟩

end Registry

end ContractPipeline.Extension
