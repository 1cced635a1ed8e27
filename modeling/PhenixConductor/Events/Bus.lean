import PhenixConductor.Collections.Totals
import PhenixConductor.Events.Dependencies
import Mathlib.Data.PNat.Defs

/-! # The event bus

The subscriptions change only through three calls, each of which checks a candidate and then
stores it under a new revision.
-/
namespace PhenixConductor.Events
open Collections Contract Component

/-- The counters of the bus wrap around. -/
abbrev U64 := Fin (2 ^ 64)

theorem U64.succ_ne (n : U64) : n + 1 ≠ n := by grind

structure EventEnvelope where
  eventType : EventTypeId
  version : ℕ
  emitter : PluginId
  causalityId : U64
  kernelPolicyRevision : ℕ
  payload : List UInt8

structure EventDispatchReport where
  delivered : List SubscriptionId
  failures : List (SubscriptionId × String)
  warnings : List (SubscriptionId × String)
  graphGeneration : Option GraphGenerationId

inductive EventDeliveryStatus where
  | accepted
  | succeeded (report : EventDispatchReport)
  | failed (error : EventError)
  | cancelled (reason : EventDeliveryCancellation)

structure EventBus (H : Type) where
  subscriptions : Subscriptions H
  activeCausality : BTreeMap U64 (BTreeSet SubscriptionId)
  nextRootCausality : U64
  nextDelivery : U64
  subscriptionRevision : U64
  inFlight : ℕ
  deliveryCapacity : ℕ+

variable {H : Type}

def EventBus.withCapacity (deliveryCapacity : ℕ+) : EventBus H where
  subscriptions := .empty
  activeCausality := .empty
  nextRootCausality := 0
  nextDelivery := 0
  subscriptionRevision := 0
  inFlight := 0
  deliveryCapacity := deliveryCapacity

/-- A call on the bus. What it wrote before an error stays written. -/
abbrev BusM (H α : Type) := ExceptT EventError (StateM (EventBus H)) α

/-- The result of a call and the bus it leaves. -/
def BusM.call {α : Type} (x : BusM H α) (bus : EventBus H) : Except EventError α × EventBus H :=
  StateT.run (ExceptT.run x) bus

def replaceSubscriptions (subscriptions : List (EventSubscription H)) : BusM H Unit := do
  let indexed ← indexSubscriptions subscriptions
  validateDependencies indexed
  modify fun bus => { bus with
    subscriptions := indexed
    subscriptionRevision := bus.subscriptionRevision + 1 }

def installSubscriptions (subscriptions : List (EventSubscription H)) :
    BusM H (List SubscriptionId) := do
  let current := (← get).subscriptions
  let candidate ← registerInto (·.spec.id) (fun _ => .ok ())
    (fun s => EventError.duplicateSubscription s.spec.id) current subscriptions
  validateDependencies candidate
  modify fun bus => { bus with
    subscriptions := candidate
    subscriptionRevision := bus.subscriptionRevision + 1 }
  return subscriptions.map (·.spec.id)

def removeSubscriptions (subscriptions : List SubscriptionId) : BusM H Unit := do
  let current := (← get).subscriptions
  let candidate := subscriptions.foldl (fun candidate id => candidate.erase id) current
  validateDependencies candidate
  modify fun bus => { bus with
    subscriptions := candidate
    subscriptionRevision := bus.subscriptionRevision + 1 }

/-- The next id of a counter that skips zero, which is also the new counter. -/
def nextNonzeroId (counter : U64) : U64 := if counter + 1 = 0 then 1 else counter + 1

/-- What an admission reads before it reserves a place in the queue. -/
structure AdmissionSnapshot (H : Type) where
  event : EventEnvelope
  emitterAuthority : Authority
  graphGeneration : Option GraphGenerationId
  subscriptions : Subscriptions H
  levels : List (List SubscriptionId)
  revision : U64

/-- A root event gets a fresh causality id. -/
def rootCausality (event : EventEnvelope) : BusM H EventEnvelope := do
  if event.causalityId = 0 then
    let causalityId := nextNonzeroId (← get).nextRootCausality
    modify fun bus => { bus with nextRootCausality := causalityId }
    return { event with causalityId := causalityId }
  else
    return event

def checkEmitterAuthority (subscriptions : Subscriptions H) (emitterAuthority : Authority)
    (levels : List (List SubscriptionId)) : Except EventError Unit :=
  levels.flatten.forM fun id =>
    if (subscriptions.get? id).all fun subscription =>
        emitterAuthority.permitsAll subscription.spec.requiredAuthority then
      .ok ()
    else .error (.authorityDenied id)

/-- `admit_in_generation` up to the reservation. -/
def snapshotAdmission (event : EventEnvelope) (emitterAuthority : Authority)
    (graphGeneration : Option GraphGenerationId) : BusM H (AdmissionSnapshot H) := do
  let event ← rootCausality event
  let subscriptions := (← get).subscriptions
  let revision := (← get).subscriptionRevision
  let levels ← dependencyLevels subscriptions event.eventType event.version
  checkEmitterAuthority subscriptions emitterAuthority levels
  return {
    event := event
    emitterAuthority := emitterAuthority
    graphGeneration := graphGeneration
    subscriptions := subscriptions
    levels := levels
    revision := revision }

def reserveDelivery : BusM H Unit := do
  let bus ← get
  if bus.deliveryCapacity ≤ bus.inFlight then
    throw (.queueSaturated bus.deliveryCapacity)
  set { bus with inFlight := bus.inFlight + 1 }

/-- The subscriptions that are active for a causality id. -/
def EventBus.activeFor (bus : EventBus H) (causalityId : U64) : BTreeSet SubscriptionId :=
  (bus.activeCausality.get? causalityId).getD .empty

/-- The loop of `enter_causality`: an id that is already active undoes the insertions. -/
def enterAll (activeForCause : BTreeSet SubscriptionId) (inserted : List SubscriptionId) :
    List SubscriptionId → Except EventError Unit × BTreeSet SubscriptionId
  | [] => (.ok (),activeForCause)
  | id :: rest =>
    if id ∈ activeForCause.keys then
      (.error (.causalReentry id),inserted.foldl (fun active id => active.erase id) activeForCause)
    else enterAll (activeForCause.insert id ()) (inserted ++ [id]) rest

/-- An entry without members is removed from the map. -/
def storeActive (active : BTreeMap U64 (BTreeSet SubscriptionId)) (causalityId : U64)
    (activeForCause : BTreeSet SubscriptionId) : BTreeMap U64 (BTreeSet SubscriptionId) :=
  if activeForCause.keys.isEmpty then active.erase causalityId
  else active.insert causalityId activeForCause

def enterCausality (causalityId : U64) (level : List SubscriptionId) : BusM H Unit := do
  let bus ← get
  match enterAll (bus.activeFor causalityId) [] level with
  | (.ok _,activeForCause) =>
    set { bus with activeCausality := bus.activeCausality.insert causalityId activeForCause }
  | (.error error,activeForCause) =>
    set { bus with activeCausality := storeActive bus.activeCausality causalityId activeForCause }
    throw error

def leaveCausality (causalityId : U64) (level : List SubscriptionId) (bus : EventBus H) :
    EventBus H :=
  match bus.activeCausality.get? causalityId with
  | none => bus
  | some activeForCause => { bus with
      activeCausality := storeActive bus.activeCausality causalityId
        (level.foldl (fun active id => active.erase id) activeForCause) }

end PhenixConductor.Events
