import PhenixConductor.Component.Manifest
import PhenixConductor.Collections.Entries

/-! # Event subscriptions and their dependencies

A set of subscriptions is valid when no id is used twice, every dependency is a
subscription to the same event type and version, and the subscriptions of each
event can be put in levels, each of which depends on earlier levels only.
-/
namespace PhenixConductor.Events
open Collections Contract Component

structure SubscriptionSpec where
  id : SubscriptionId
  owner : PluginId
  eventType : EventTypeId
  eventVersion : ℕ
  dependencies : List SubscriptionId
  failurePolicy : EventFailurePolicy
  requiredAuthority : Authority
  maximumAuthority : Authority
  kernelPolicyRevision : ℕ

/-- `H` is the type of handlers. -/
structure EventSubscription (H : Type) where
  spec : SubscriptionSpec
  handler : H

inductive EventDeliveryCancellation where
  | subscriptionSetChanged

inductive EventError where
  | duplicateSubscription (id : SubscriptionId)
  | crossEventDependency (subscription dependency : SubscriptionId)
  | unknownDependency (subscription dependency : SubscriptionId)
  | dependencyCycle (id : SubscriptionId)
  | causalReentry (id : SubscriptionId)
  | authorityDenied (id : SubscriptionId)
  | handlerFailed (subscription : SubscriptionId) (message : String)
  | queueSaturated (capacity : ℕ)
  | queueUnavailable (message : String)
  | deliveryCancelled (reason : EventDeliveryCancellation)

abbrev Subscriptions (H : Type) := BTreeMap SubscriptionId (EventSubscription H)

variable {H : Type}

def indexSubscriptions (subscriptions : List (EventSubscription H)) :
    Except EventError (Subscriptions H) :=
  register (·.spec.id) (fun _ => .ok ()) (fun s => .duplicateSubscription s.spec.id) subscriptions

/-- The remaining subscriptions none of whose dependencies remains. Every member of
`remaining` is a key of `subscriptions`. -/
def readySubscriptions (subscriptions : Subscriptions H) (remaining : BTreeSet SubscriptionId) :
    List SubscriptionId :=
  remaining.keys.filter fun id => (subscriptions.get? id).all fun subscription =>
    subscription.spec.dependencies.all (· ∉ remaining.keys)

def removeReady (subscriptions : Subscriptions H) (remaining : BTreeSet SubscriptionId) :
    BTreeSet SubscriptionId :=
  remaining.filter (· ∉ readySubscriptions subscriptions remaining)

variable {remaining : BTreeSet SubscriptionId}

theorem length_removeReady_lt (subscriptions : Subscriptions H)
    (h : readySubscriptions subscriptions remaining ≠ []) :
    (removeReady subscriptions remaining).keys.length < remaining.keys.length := by
  obtain ⟨id,hid⟩ := List.exists_mem_of_ne_nil _ h
  apply List.length_filter_lt_length_iff_exists.mpr
  exact ⟨id,List.mem_of_mem_filter hid,by simpa using hid⟩

/-- The `while` loop of `dependency_levels`. -/
def levelsFrom (subscriptions : Subscriptions H) (remaining : BTreeSet SubscriptionId) :
    Except EventError (List (List SubscriptionId)) :=
  match remaining.keys with
  | [] => .ok []
  | next :: _ =>
    if hready : readySubscriptions subscriptions remaining = [] then
      .error (.dependencyCycle next)
    else do
      have := length_removeReady_lt subscriptions hready
      let levels ← levelsFrom subscriptions (removeReady subscriptions remaining)
      .ok (readySubscriptions subscriptions remaining :: levels)
termination_by remaining.keys.length

variable {subscriptions : Subscriptions H}

theorem levelsFrom_of_nil (h : remaining.keys = []) :
    levelsFrom subscriptions remaining = .ok [] := by
  rw [levelsFrom]
  split
  · rfl
  · next hcons => simp [h] at hcons

theorem levelsFrom_of_stuck {next : SubscriptionId} {rest : List SubscriptionId}
    (h : remaining.keys = next :: rest) (hstuck : readySubscriptions subscriptions remaining = []) :
    levelsFrom subscriptions remaining = .error (.dependencyCycle next) := by
  rw [levelsFrom]
  split
  · next hnil => simp [h] at hnil
  · next hcons =>
    rw [h] at hcons
    cases hcons
    exact dif_pos hstuck

theorem levelsFrom_of_ready (hready : readySubscriptions subscriptions remaining ≠ []) :
    levelsFrom subscriptions remaining = (do
      let levels ← levelsFrom subscriptions (removeReady subscriptions remaining)
      .ok (readySubscriptions subscriptions remaining :: levels)) := by
  rw [levelsFrom]
  split
  · next hnil => simp [readySubscriptions, hnil] at hready
  · exact dif_neg hready

def dependencyLevels (subscriptions : Subscriptions H) (eventType : EventTypeId)
    (eventVersion : ℕ) : Except EventError (List (List SubscriptionId)) :=
  levelsFrom subscriptions (BTreeSet.collect
    ((subscriptions.values.filter fun subscription =>
      subscription.spec.eventType = eventType && subscription.spec.eventVersion = eventVersion).map
        (·.spec.id)))

def dependencyOrder (subscriptions : Subscriptions H) (eventType : EventTypeId)
    (eventVersion : ℕ) : Except EventError (List SubscriptionId) := do
  let levels ← dependencyLevels subscriptions eventType eventVersion
  .ok levels.flatten

def validateDependency (subscriptions : Subscriptions H) (subscription : EventSubscription H)
    (dependency : SubscriptionId) : Except EventError Unit :=
  match subscriptions.get? dependency with
  | none => .error (.unknownDependency subscription.spec.id dependency)
  | some target =>
    if target.spec.eventType ≠ subscription.spec.eventType ||
        target.spec.eventVersion ≠ subscription.spec.eventVersion then
      .error (.crossEventDependency subscription.spec.id dependency)
    else .ok ()

def validateDependencies (subscriptions : Subscriptions H) : Except EventError Unit := do
  subscriptions.values.forM fun subscription =>
    subscription.spec.dependencies.forM (validateDependency subscriptions subscription)
  (BTreeSet.collect (subscriptions.values.map fun subscription =>
    toLex (subscription.spec.eventType,subscription.spec.eventVersion))).keys.forM fun event => do
      let _ ← dependencyOrder subscriptions (ofLex event).1 (ofLex event).2

def validateSubscriptions (subscriptions : List (EventSubscription H)) :
    Except EventError Unit := do
  let indexed ← indexSubscriptions subscriptions
  validateDependencies indexed

end PhenixConductor.Events
