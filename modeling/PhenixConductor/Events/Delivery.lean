import PhenixConductor.Events.Bus
import PhenixConductor.Collections.Runs

/-! # Deliveries

Admissions, deliveries and handlers run in threads of their own and meet at the locks and
counters of the bus; one action is what one of them does between two such meetings.
-/
namespace PhenixConductor.Events
open Collections Contract Component
variable {H : Type}

/-- How a handler thread ends. -/
inductive HandlerOutcome where
  | returned (result : Except String Unit)
  | panicked

def HandlerOutcome.join : HandlerOutcome → Except String Unit
  | .returned result => result
  | .panicked => .error "event listener panicked during delivery"

/-- Where `execute_delivery` stands. -/
inductive DeliveryPhase where
  | atLevel
  | entering (level : List SubscriptionId)
  | handling (level : List SubscriptionId)
      (finished : BTreeMap SubscriptionId (Except String Unit))
  | settling (results : List (SubscriptionId × Except String Unit))
  | ended (status : EventDeliveryStatus)
  | released (status : EventDeliveryStatus)

/-- What a handler is called with, besides the event. -/
structure Invocation where
  subscription : SubscriptionId
  authority : Authority

/-- A `PendingDelivery` and how far it got. `levels` are those not taken up yet. -/
structure Delivery (H : Type) extends AdmissionSnapshot H where
  id : U64
  ancestry : BTreeSet SubscriptionId
  report : EventDispatchReport
  phase : DeliveryPhase
  lineage : List SubscriptionId
  invoked : List Invocation

namespace Delivery

/-- The status that the receipt shows. -/
def status (d : Delivery H) : EventDeliveryStatus :=
  match d.phase with
  | .ended status | .released status => status
  | _ => .accepted

def finish (d : Delivery H) (status : EventDeliveryStatus) : Delivery H :=
  { d with phase := .ended status }

/-- The head of the loop over the levels. -/
def checkLevel (bus : EventBus H) (d : Delivery H) : Delivery H :=
  match d.levels with
  | [] => d.finish (.succeeded d.report)
  | level :: rest =>
    if bus.subscriptionRevision ≠ d.revision then
      d.finish (.cancelled .subscriptionSetChanged)
    else match level.find? (· ∈ d.ancestry.keys) with
      | some id => d.finish (.failed (.causalReentry id))
      | none => { d with levels := rest, phase := .entering level }

def invocation (d : Delivery H) (id : SubscriptionId) : Option Invocation :=
  (d.subscriptions.get? id).map fun subscription =>
    { subscription := id
      authority := d.emitterAuthority.attenuate subscription.spec.maximumAuthority }

def enterLevel (bus : EventBus H) (d : Delivery H) (level : List SubscriptionId) :
    Delivery H × EventBus H :=
  match (enterCausality d.event.causalityId level).call bus with
  | (.error error,bus) => (d.finish (.failed error),bus)
  | (.ok _,bus) => ({ d with
      phase := .handling level .empty
      invoked := d.invoked ++ level.filterMap d.invocation },bus)

/-- The results of a level, in the order of its subscriptions, once all have ended. -/
def joinLevel (level : List SubscriptionId)
    (finished : BTreeMap SubscriptionId (Except String Unit)) :
    Option (List (SubscriptionId × Except String Unit)) :=
  level.mapM fun id => (finished.get? id).map fun result => (id,result)

def failurePolicy (subscriptions : Subscriptions H) (id : SubscriptionId) :
    Option EventFailurePolicy :=
  (subscriptions.get? id).map fun subscription => subscription.spec.failurePolicy

def settleResult (subscriptions : Subscriptions H) (report : EventDispatchReport)
    (result : SubscriptionId × Except String Unit) : Except EventError EventDispatchReport :=
  match result with
  | (id,.ok _) => .ok { report with delivered := report.delivered ++ [id] }
  | (id,.error message) =>
    let failed := { report with failures := report.failures ++ [(id,message)] }
    match failurePolicy subscriptions id with
    | some .failDelivery => .error (.handlerFailed id message)
    | some .warn => .ok { failed with warnings := report.warnings ++ [(id,message)] }
    | some .ignore | none => .ok failed

def settleLevel (bus : EventBus H) (d : Delivery H)
    (results : List (SubscriptionId × Except String Unit)) : Delivery H :=
  if bus.subscriptionRevision ≠ d.revision then d.finish (.cancelled .subscriptionSetChanged)
  else match results.foldlM (settleResult d.subscriptions) d.report with
    | .error error => d.finish (.failed error)
    | .ok report => { d with report := report, phase := .atLevel }

end Delivery

/-- The handler that makes an admission, and the lineage of the event it handles. -/
structure Caller where
  delivery : ℕ
  subscription : SubscriptionId
  lineage : List SubscriptionId

/-- A call of `admit_in_generation` between its snapshot and its end. -/
structure Admission (H : Type) extends AdmissionSnapshot H where
  reserved : Bool
  caller : Option Caller

/-- The subscriptions from whose handlers the event was admitted, through any chain. -/
def Admission.lineage (a : Admission H) : List SubscriptionId :=
  match a.caller with
  | none => []
  | some caller => caller.subscription :: caller.lineage

/-- The bus, the admissions underway and all deliveries accepted so far. -/
structure System (H : Type) where
  bus : EventBus H
  admissions : List (Admission H)
  deliveries : List (Delivery H)

inductive SubscriptionChange (H : Type) where
  | replace (subscriptions : List (EventSubscription H))
  | install (subscriptions : List (EventSubscription H))
  | remove (subscriptions : List SubscriptionId)

def SubscriptionChange.perform : SubscriptionChange H → BusM H Unit
  | .replace subscriptions => replaceSubscriptions subscriptions
  | .install subscriptions => do
    let _ ← installSubscriptions subscriptions
  | .remove subscriptions => removeSubscriptions subscriptions

/-- `admitOutside` comes from outside of the handlers, `admitFrom` from a running handler,
which passes on the causality id of its event. -/
inductive Action (H : Type) where
  | change (change : SubscriptionChange H)
  | admitOutside (event : EventEnvelope) (authority : Authority) (generation : Option GraphGenerationId)
  | admitFrom (delivery : ℕ) (subscription : SubscriptionId) (event : EventEnvelope)
      (authority : Authority) (generation : Option GraphGenerationId)
  | reserve (admission : ℕ)
  | accept (admission : ℕ) (spawned : Bool)
  | check (delivery : ℕ)
  | enter (delivery : ℕ)
  | handled (delivery : ℕ) (subscription : SubscriptionId) (outcome : HandlerOutcome)
  | leave (delivery : ℕ)
  | settle (delivery : ℕ)
  | release (delivery : ℕ)

namespace System

def start (deliveryCapacity : ℕ+) : System H := ⟨.withCapacity deliveryCapacity,[],[]⟩

/-- The handler of a subscription is running in a delivery. -/
def Handling (d : Delivery H) (subscription : SubscriptionId) : Prop :=
  match d.phase with
  | .handling level finished => subscription ∈ level ∧ subscription ∉ finished.keys
  | _ => False

instance (d : Delivery H) (subscription : SubscriptionId) :
    Decidable (Handling d subscription) := by
  unfold Handling
  split <;> infer_instance

def startAdmission (s : System H) (caller : Option Caller) (event : EventEnvelope)
    (authority : Authority) (generation : Option GraphGenerationId) : System H :=
  match (snapshotAdmission event authority generation).call s.bus with
  | (.error _,bus) => { s with bus := bus }
  | (.ok snapshot,bus) => { s with
      bus := bus
      admissions := s.admissions ++ [{ snapshot with reserved := false, caller := caller }] }

def admitFrom (s : System H) (i : ℕ) (subscription : SubscriptionId) (event : EventEnvelope)
    (authority : Authority) (generation : Option GraphGenerationId) : System H :=
  match s.deliveries[i]? with
  | none => s
  | some d =>
    if Handling d subscription then
      s.startAdmission (some ⟨i,subscription,d.lineage⟩)
        { event with causalityId := d.event.causalityId } authority generation
    else s

/-- A saturated queue ends the call with an error. -/
def reserve (s : System H) (i : ℕ) : System H :=
  match s.admissions[i]? with
  | none => s
  | some a =>
    if a.reserved then s
    else match reserveDelivery.call s.bus with
      | (.error _,bus) => { s with bus := bus, admissions := s.admissions.eraseIdx i }
      | (.ok _,bus) => { s with
          bus := bus
          admissions := s.admissions.set i { a with reserved := true } }

/-- The delivery that an admission creates on the bus. -/
def delivery (bus : EventBus H) (a : Admission H) : Delivery H :=
  { a.toAdmissionSnapshot with
    id := nextNonzeroId bus.nextDelivery
    ancestry := bus.activeFor a.event.causalityId
    report := ⟨[],[],[],a.graphGeneration⟩
    phase := .atLevel
    lineage := a.lineage
    invoked := [] }

/-- The read of the ancestry and what follows it. A thread that cannot be spawned
gives its place in the queue back. -/
def accept (s : System H) (i : ℕ) (spawned : Bool) : System H :=
  match s.admissions[i]? with
  | none => s
  | some a =>
    if !a.reserved then s
    else
      let bus := { s.bus with nextDelivery := nextNonzeroId s.bus.nextDelivery }
      let admissions := s.admissions.eraseIdx i
      if spawned then ⟨bus,admissions,s.deliveries ++ [delivery s.bus a]⟩
      else ⟨{ bus with inFlight := bus.inFlight - 1 },admissions,s.deliveries⟩

/-- An action of the thread of one delivery. -/
def advance (s : System H) (i : ℕ) (f : EventBus H → Delivery H → Delivery H × EventBus H) :
    System H :=
  match s.deliveries[i]? with
  | none => s
  | some d => { s with bus := (f s.bus d).2, deliveries := s.deliveries.set i (f s.bus d).1 }

def check (bus : EventBus H) (d : Delivery H) : Delivery H × EventBus H :=
  match d.phase with
  | .atLevel => (d.checkLevel bus,bus)
  | _ => (d,bus)

def enter (bus : EventBus H) (d : Delivery H) : Delivery H × EventBus H :=
  match d.phase with
  | .entering level => d.enterLevel bus level
  | _ => (d,bus)

/-- A handler ends after the admissions that it makes. -/
def handled (admissions : List (Admission H)) (i : ℕ) (subscription : SubscriptionId)
    (outcome : HandlerOutcome) (bus : EventBus H) (d : Delivery H) : Delivery H × EventBus H :=
  match d.phase with
  | .handling level finished =>
    if subscription ∈ level ∧ subscription ∉ finished.keys ∧ ∀ a ∈ admissions,
        ∀ caller ∈ a.caller, ¬(caller.delivery = i ∧ caller.subscription = subscription) then
      ({ d with phase := .handling level (finished.insert subscription outcome.join) },bus)
    else (d,bus)
  | _ => (d,bus)

def leave (bus : EventBus H) (d : Delivery H) : Delivery H × EventBus H :=
  match d.phase with
  | .handling level finished =>
    match Delivery.joinLevel level finished with
    | none => (d,bus)
    | some results => ({ d with phase := .settling results },
        leaveCausality d.event.causalityId level bus)
  | _ => (d,bus)

def settle (bus : EventBus H) (d : Delivery H) : Delivery H × EventBus H :=
  match d.phase with
  | .settling results => (d.settleLevel bus results,bus)
  | _ => (d,bus)

/-- The status is in the receipt, and the place in the queue is given back. -/
def release (bus : EventBus H) (d : Delivery H) : Delivery H × EventBus H :=
  match d.phase with
  | .ended status => ({ d with phase := .released status },
      { bus with inFlight := bus.inFlight - 1 })
  | _ => (d,bus)

def step (s : System H) : Action H → System H
  | .change change => { s with bus := (change.perform.call s.bus).2 }
  | .admitOutside event authority generation => s.startAdmission none event authority generation
  | .admitFrom i subscription event authority generation =>
    s.admitFrom i subscription event authority generation
  | .reserve i => s.reserve i
  | .accept i spawned => s.accept i spawned
  | .check i => s.advance i check
  | .enter i => s.advance i enter
  | .handled i subscription outcome =>
    s.advance i (handled s.admissions i subscription outcome)
  | .leave i => s.advance i leave
  | .settle i => s.advance i settle
  | .release i => s.advance i release

end System
end PhenixConductor.Events
