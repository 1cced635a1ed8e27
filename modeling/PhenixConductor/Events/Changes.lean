import PhenixConductor.Events.Levels
import PhenixConductor.Events.Delivery

/-! # Changes of the subscription set

Whatever the bus does, its subscriptions stay a valid set.
-/
namespace PhenixConductor.Events
open Collections Contract Component BTreeMap BusM
variable {H α β : Type}

namespace BusM

@[simp] theorem call_pure (a : α) (bus : EventBus H) :
    (pure a : BusM H α).call bus = (.ok a,bus) := rfl

@[simp] theorem call_throw (e : EventError) (bus : EventBus H) :
    (throw e : BusM H α).call bus = (.error e,bus) := rfl

@[simp] theorem call_get (bus : EventBus H) : (get : BusM H _).call bus = (.ok bus,bus) := rfl

@[simp] theorem call_set (bus bus' : EventBus H) :
    (set bus' : BusM H _).call bus = (.ok (),bus') := rfl

@[simp] theorem call_modify (f : EventBus H → EventBus H) (bus : EventBus H) :
    (modify f : BusM H _).call bus = (.ok (),f bus) := rfl

@[simp] theorem call_liftM (x : Except EventError α) (bus : EventBus H) :
    (liftM x : BusM H α).call bus = (x,bus) := rfl

theorem call_bind (x : BusM H α) (f : α → BusM H β) (bus : EventBus H) :
    (x >>= f).call bus = match x.call bus with
      | (.ok a,bus') => (f a).call bus'
      | (.error e,bus') => (.error e,bus') := by
  change StateT.run (ExceptT.run x >>= ExceptT.bindCont f) bus = _
  rw [StateT.run_bind, call]
  rcases StateT.run (ExceptT.run x) bus with ⟨result,bus'⟩
  cases result <;> rfl

end BusM

/-- The bus with a new set of subscriptions. -/
def EventBus.commit (bus : EventBus H) (candidate : Subscriptions H) : EventBus H :=
  { bus with
    subscriptions := candidate
    subscriptionRevision := bus.subscriptionRevision + 1 }

/-- The candidate of a change. -/
def SubscriptionChange.candidate (current : Subscriptions H) :
    SubscriptionChange H → Except EventError (Subscriptions H)
  | .replace subscriptions => indexSubscriptions subscriptions
  | .install subscriptions => registerInto (·.spec.id) (fun _ => .ok ())
      (fun s => EventError.duplicateSubscription s.spec.id) current subscriptions
  | .remove subscriptions => .ok (subscriptions.foldl (fun candidate id => candidate.erase id) current)

/-- The candidate of a change that the check accepts. -/
def SubscriptionChange.accepted (current : Subscriptions H) (change : SubscriptionChange H) :
    Except EventError (Subscriptions H) := do
  let candidate ← change.candidate current
  validateDependencies candidate
  .ok candidate

theorem SubscriptionChange.perform_call (change : SubscriptionChange H) (bus : EventBus H) :
    change.perform.call bus = match change.accepted bus.subscriptions with
      | .ok candidate => (.ok (),bus.commit candidate)
      | .error e => (.error e,bus) := by
  cases change with
  | replace subscriptions =>
    simp only [perform, replaceSubscriptions, accepted, candidate, call_bind, call_liftM]
    cases indexSubscriptions subscriptions with
    | error e => rfl
    | ok candidate =>
      simp only [ok_bind]
      cases validateDependencies candidate <;> rfl
  | install subscriptions =>
    simp only [perform, installSubscriptions, accepted, candidate, call_bind, call_get,
      call_liftM]
    generalize registerInto _ _ _ bus.subscriptions subscriptions = registered
    cases registered with
    | error e => rfl
    | ok candidate =>
      simp only [ok_bind]
      cases validateDependencies candidate <;> rfl
  | remove subscriptions =>
    simp only [perform, removeSubscriptions, accepted, candidate, call_bind, call_get,
      call_liftM, ok_bind]
    cases validateDependencies (subscriptions.foldl _ bus.subscriptions) <;> rfl

variable {change : SubscriptionChange H} {candidate : Subscriptions H}

theorem SubscriptionChange.candidate_keyed {current : Subscriptions H} (hkeyed : Keyed current)
    (h : change.candidate current = .ok candidate) : Keyed candidate := by
  cases change with
  | replace subscriptions =>
    have hget := (register_eq_ok.mp h).2.2
    intro id subscription hid
    exact ((hget id subscription).mp hid).2
  | install subscriptions =>
    have hget := (registerInto_eq_ok.mp h).2.2.2
    intro id subscription hid
    rcases (hget id subscription).mp hid with ⟨-,hnew⟩ | hold
    · exact hnew
    · exact hkeyed id subscription hold
  | remove subscriptions =>
    cases h
    intro id subscription hid
    rw [get?_foldl_erase] at hid
    split_ifs at hid
    exact hkeyed id subscription hid

theorem SubscriptionChange.accepted_valid {current : Subscriptions H} (hkeyed : Keyed current)
    (h : change.accepted current = .ok candidate) : Valid candidate := by
  obtain ⟨found,hfound,hrest⟩ := bind_eq_ok.mp h
  obtain ⟨hcheck,hsame⟩ := seq_eq_ok.mp hrest
  cases hsame
  exact (validateDependencies_eq_ok (candidate_keyed hkeyed hfound)).mp hcheck

theorem valid_empty : Valid (empty : Subscriptions H) where
  keyed id subscription h := by simp at h
  closed id subscription h := by simp at h
  acyclic := by
    apply acyclic_of_grounded
    intro id
    apply Acc.intro
    rintro b ⟨subscription,h,-⟩
    simp at h

/-! ### The other calls -/

theorem nextNonzeroId_ne_zero (counter : U64) : nextNonzeroId counter ≠ 0 := by
  unfold nextNonzeroId
  split_ifs with h
  · decide
  · exact h

/-- The event that an admission is about, and the bus that has given it its cause. -/
theorem rootCausality_call (event : EventEnvelope) (bus : EventBus H) :
    ∃ rooted counter, (rootCausality event).call bus =
        (.ok rooted,{ bus with nextRootCausality := counter }) ∧
      rooted.eventType = event.eventType ∧ rooted.version = event.version ∧
      rooted.causalityId ≠ 0 ∧
      (event.causalityId ≠ 0 → rooted.causalityId = event.causalityId) := by
  by_cases h : event.causalityId = 0
  · refine ⟨{ event with causalityId := nextNonzeroId bus.nextRootCausality },
      nextNonzeroId bus.nextRootCausality,?_,rfl,rfl,nextNonzeroId_ne_zero _,absurd h⟩
    rw [rootCausality, if_pos h]
    rfl
  · refine ⟨event,bus.nextRootCausality,?_,rfl,rfl,h,fun _ => rfl⟩
    simp [rootCausality, h]

/-- A snapshot copies the subscriptions and computes the levels of the event in them. -/
theorem snapshotAdmission_call (event : EventEnvelope) (authority : Authority)
    (generation : Option GraphGenerationId) (bus : EventBus H) :
    ∃ rooted counter result, (snapshotAdmission event authority generation).call bus =
        (result,{ bus with nextRootCausality := counter }) ∧
      result = (do
        let levels ← dependencyLevels bus.subscriptions event.eventType event.version
        checkEmitterAuthority bus.subscriptions authority levels
        .ok ⟨rooted,authority,generation,bus.subscriptions,levels,bus.subscriptionRevision⟩) ∧
      (rooted.eventType = event.eventType ∧ rooted.version = event.version) ∧
      rooted.causalityId ≠ 0 ∧
      (event.causalityId ≠ 0 → rooted.causalityId = event.causalityId) := by
  obtain ⟨rooted,counter,hcall,htype,hversion,hnonzero,hsame⟩ := rootCausality_call event bus
  refine ⟨rooted,counter,_,?_,rfl,⟨htype,hversion⟩,hnonzero,hsame⟩
  simp only [snapshotAdmission, call_bind, hcall, call_get, call_liftM, htype, hversion]
  cases dependencyLevels bus.subscriptions event.eventType event.version with
  | error e => rfl
  | ok levels =>
    simp only [ok_bind]
    cases checkEmitterAuthority bus.subscriptions authority levels <;> rfl

theorem reserveDelivery_call (bus : EventBus H) : reserveDelivery.call bus =
    if (bus.deliveryCapacity : ℕ) ≤ bus.inFlight then
      (.error (.queueSaturated bus.deliveryCapacity),bus)
    else (.ok (),{ bus with inFlight := bus.inFlight + 1 }) := by
  rw [reserveDelivery, call_bind, call_get]
  split_ifs with h <;> simp [h]

theorem enterCausality_call (causalityId : U64) (level : List SubscriptionId) (bus : EventBus H) :
    (enterCausality causalityId level).call bus =
      match enterAll (bus.activeFor causalityId) [] level with
      | (.ok _,active) => (.ok (),{ bus with
          activeCausality := bus.activeCausality.insert causalityId active })
      | (.error e,active) => (.error e,{ bus with
          activeCausality := storeActive bus.activeCausality causalityId active }) := by
  rw [enterCausality, call_bind, call_get]
  dsimp only
  rcases enterAll (bus.activeFor causalityId) [] level with ⟨result,active⟩
  cases result <;> rfl

namespace System

theorem advance_subscriptions {s : System H} {i : ℕ}
    {f : EventBus H → Delivery H → Delivery H × EventBus H}
    (hf : ∀ bus d, (f bus d).2.subscriptions = bus.subscriptions) :
    (s.advance i f).bus.subscriptions = s.bus.subscriptions := by
  unfold advance
  split
  · rfl
  · exact hf _ _

theorem enter_subscriptions (bus : EventBus H) (d : Delivery H) :
    (enter bus d).2.subscriptions = bus.subscriptions := by
  unfold enter
  split
  · rw [Delivery.enterLevel, enterCausality_call]
    rcases enterAll _ [] _ with ⟨result,active⟩
    cases result <;> rfl
  · rfl

theorem leave_subscriptions (bus : EventBus H) (d : Delivery H) :
    (leave bus d).2.subscriptions = bus.subscriptions := by
  unfold leave leaveCausality
  split
  · split
    · rfl
    · split <;> rfl
  · rfl

theorem startAdmission_subscriptions (s : System H) (caller : Option Caller)
    (event : EventEnvelope) (authority : Authority) (generation : Option GraphGenerationId) :
    (s.startAdmission caller event authority generation).bus.subscriptions =
      s.bus.subscriptions := by
  obtain ⟨rooted,counter,result,hcall,-⟩ := snapshotAdmission_call event authority generation s.bus
  rw [startAdmission, hcall]
  cases result <;> rfl

/-- Only a change touches the subscriptions. -/
theorem step_subscriptions (s : System H) {action : Action H}
    (h : ∀ change, action ≠ .change change) :
    (s.step action).bus.subscriptions = s.bus.subscriptions := by
  cases action with
  | change change => exact absurd rfl (h change)
  | admitOutside event authority generation => exact startAdmission_subscriptions s _ _ _ _
  | admitFrom i subscription event authority generation =>
    rw [step, admitFrom]
    split
    · rfl
    · split
      · exact startAdmission_subscriptions s _ _ _ _
      · rfl
  | reserve i =>
    rw [step, reserve, reserveDelivery_call]
    split
    · rfl
    · split_ifs <;> rfl
  | accept i spawned =>
    rw [step, accept]
    split
    · rfl
    · split_ifs <;> rfl
  | check i =>
    refine advance_subscriptions fun bus d => ?_
    unfold check
    split <;> rfl
  | enter i => exact advance_subscriptions enter_subscriptions
  | handled i subscription outcome =>
    refine advance_subscriptions fun bus d => ?_
    unfold handled
    split
    · split_ifs <;> rfl
    · rfl
  | leave i => exact advance_subscriptions leave_subscriptions
  | settle i =>
    refine advance_subscriptions fun bus d => ?_
    unfold settle
    split <;> rfl
  | release i =>
    refine advance_subscriptions fun bus d => ?_
    unfold release
    split <;> rfl

theorem step_valid (s : System H) (action : Action H) (h : Valid s.bus.subscriptions) :
    Valid (s.step action).bus.subscriptions := by
  by_cases hchange : ∃ change, action = .change change
  · rcases hchange with ⟨change,rfl⟩
    rw [step, change.perform_call]
    cases haccepted : change.accepted s.bus.subscriptions with
    | error e => exact h
    | ok candidate => exact SubscriptionChange.accepted_valid h.keyed haccepted
  · rw [step_subscriptions s fun change hchange' => hchange ⟨change,hchange'⟩]
    exact h

theorem run_valid (deliveryCapacity : ℕ+) (actions : List (Action H)) :
    Valid (runAll step (start deliveryCapacity) actions).bus.subscriptions :=
  runAll_invariant step_valid actions valid_empty

end System

/-- A valid set gives no admission a cycle to report. -/
theorem Valid.snapshotAdmission_ne_cycle {bus : EventBus H} (h : Valid bus.subscriptions)
    (event : EventEnvelope) (authority : Authority) (generation : Option GraphGenerationId)
    (id : SubscriptionId) :
    ((snapshotAdmission event authority generation).call bus).1 ≠ .error (.dependencyCycle id) := by
  obtain ⟨rooted,counter,result,hcall,hresult,-⟩ :=
    snapshotAdmission_call event authority generation bus
  obtain ⟨levels,hlevels⟩ := dependencyLevels_of_acyclic h.acyclic event.eventType event.version
  rw [hcall, hresult, hlevels, ok_bind]
  intro herror
  rcases bind_eq_error.mp herror with hcheck | ⟨_,-,hok⟩
  · obtain ⟨id',-,hid⟩ := forM_eq_error hcheck
    split_ifs at hid
    cases hid
  · cases hok

/-- In every run of changes, admissions and deliveries the subscriptions stay closed
under dependencies, within one event and acyclic; no admission finds a cycle; a change
that fails leaves the set and the revision, and one that succeeds moves the revision. -/
theorem subscriptions_stay_valid (deliveryCapacity : ℕ+) (actions : List (Action H)) :
    let bus := (runAll System.step (System.start deliveryCapacity) actions).bus
    Closed bus.subscriptions ∧ Acyclic (DependsOn bus.subscriptions) ∧
      (∀ event authority generation id,
        ((snapshotAdmission event authority generation).call bus).1 ≠
          .error (.dependencyCycle id) ∧
        (reserveDelivery.call bus).1 ≠ .error (.dependencyCycle id)) ∧
      ∀ change : SubscriptionChange H, match change.perform.call bus with
        | (.error _,bus') => bus'.subscriptions = bus.subscriptions ∧
            bus'.subscriptionRevision = bus.subscriptionRevision
        | (.ok _,bus') => bus'.subscriptionRevision ≠ bus.subscriptionRevision := by
  intro bus
  have hvalid : Valid bus.subscriptions := System.run_valid deliveryCapacity actions
  refine ⟨hvalid.closed,hvalid.acyclic,fun event authority generation id => ?_,fun change => ?_⟩
  · refine ⟨hvalid.snapshotAdmission_ne_cycle event authority generation id,?_⟩
    rw [reserveDelivery_call]
    split_ifs <;> simp
  · rw [change.perform_call]
    cases change.accepted bus.subscriptions with
    | error e => exact ⟨rfl,rfl⟩
    | ok candidate =>
      exact U64.succ_ne bus.subscriptionRevision

end PhenixConductor.Events

/-! ## Entering and leaving a level

A level enters the active causality as a whole or not at all: it is refused when
one of its subscriptions is active for the same cause. Leaving takes back what
entering added.
-/
namespace PhenixConductor.Events
open Collections Contract BTreeMap
variable {H : Type}

variable {active active' : BTreeSet SubscriptionId} {inserted level : List SubscriptionId}

theorem enterAll_of_ok (h : enterAll active inserted level = (.ok (),active')) :
    (∀ id ∈ level, id ∉ active.keys) ∧
      ∀ id, id ∈ active'.keys ↔ id ∈ active.keys ∨ id ∈ level := by
  induction level generalizing active inserted with
  | nil =>
    obtain ⟨-,rfl⟩ := Prod.mk.inj h
    simp
  | cons first rest ih =>
    rw [enterAll] at h
    split_ifs at h with hmem
    · cases (Prod.mk.inj h).1
    · obtain ⟨hfresh,hactive⟩ := ih h
      simp only [mem_keys_insert, not_or] at hfresh hactive
      constructor
      · intro id hid
        rcases List.mem_cons.mp hid with rfl | hid
        · exact hmem
        · exact (hfresh id hid).2
      · intro id
        rw [hactive, List.mem_cons]
        tauto

theorem enterAll_of_error {e : EventError} (h : enterAll active inserted level = (.error e,active')) :
    (∃ id ∈ level, e = .causalReentry id) ∧
      ∀ id, id ∈ active'.keys ↔ id ∈ active.keys ∧ id ∉ inserted := by
  induction level generalizing active inserted with
  | nil => cases (Prod.mk.inj h).1
  | cons first rest ih =>
    rw [enterAll] at h
    split_ifs at h with hmem
    · obtain ⟨he,rfl⟩ := Prod.mk.inj h
      cases he
      exact ⟨⟨first,by simp,rfl⟩,fun id => mem_keys_foldl_erase active⟩
    · obtain ⟨⟨id,hid,he⟩,hactive⟩ := ih h
      refine ⟨⟨id,by simp [hid],he⟩,fun id => ?_⟩
      -- the insertion of `first` is undone with the others
      rw [hactive]
      by_cases hfirst : id = first
      · simp [hfirst, hmem]
      · simp [hfirst]

theorem get?_storeActive (active : BTreeMap U64 (BTreeSet SubscriptionId)) (causalityId c : U64)
    (activeForCause : BTreeSet SubscriptionId) (id : SubscriptionId) :
    id ∈ (((storeActive active causalityId activeForCause).get? c).getD .empty).keys ↔
      if c = causalityId then id ∈ activeForCause.keys
      else id ∈ ((active.get? c).getD .empty).keys := by
  unfold storeActive
  by_cases hc : c = causalityId
  · subst hc
    rw [if_pos rfl]
    split_ifs with hempty
    · rw [List.isEmpty_iff.mp hempty]
      simp [empty]
    · rw [get?_insert_self, Option.getD_some]
  · split_ifs with hempty
    · rw [get?_erase_of_ne _ hc]
    · rw [get?_insert_of_ne _ _ hc]

open EventBus (activeFor)
/-- Entering a level adds its subscriptions to one cause, none of which was there. -/
theorem enterCausality_ok {causalityId : U64} {bus bus' : EventBus H}
    (h : (enterCausality causalityId level).call bus = (.ok (),bus')) :
    (∀ id ∈ level, id ∉ (bus.activeFor causalityId).keys) ∧
      ∀ c id, id ∈ (bus'.activeFor c).keys ↔
        id ∈ (bus.activeFor c).keys ∨ c = causalityId ∧ id ∈ level := by
  rw [enterCausality_call] at h
  cases hall : enterAll (bus.activeFor causalityId) [] level with
  | mk result active =>
    rw [hall] at h
    cases result with
    | error e => cases (Prod.mk.inj h).1
    | ok _ =>
      obtain ⟨-,rfl⟩ := Prod.mk.inj h
      obtain ⟨hfresh,hactive⟩ := enterAll_of_ok hall
      refine ⟨hfresh,fun c id => ?_⟩
      by_cases hc : c = causalityId
      · subst hc
        simp only [activeFor, get?_insert_self, Option.getD_some, true_and]
        exact hactive id
      · simp only [activeFor, get?_insert_of_ne _ _ hc, hc, false_and, or_false]

/-- A refused level leaves every cause as it was. -/
theorem enterCausality_error {causalityId : U64} {bus bus' : EventBus H} {e : EventError}
    (h : (enterCausality causalityId level).call bus = (.error e,bus')) :
    (∃ id ∈ level, e = .causalReentry id) ∧
      ∀ c id, id ∈ (bus'.activeFor c).keys ↔ id ∈ (bus.activeFor c).keys := by
  rw [enterCausality_call] at h
  cases hall : enterAll (bus.activeFor causalityId) [] level with
  | mk result active =>
    rw [hall] at h
    cases result with
    | ok _ => cases (Prod.mk.inj h).1
    | error e' =>
      obtain ⟨he,rfl⟩ := Prod.mk.inj h
      cases he
      obtain ⟨hid,hactive⟩ := enterAll_of_error hall
      refine ⟨hid,fun c id => ?_⟩
      rw [activeFor, get?_storeActive]
      split_ifs with hc
      · rw [hactive, hc]
        simp
      · rfl

theorem leaveCausality_activeFor (causalityId : U64) (level : List SubscriptionId)
    (bus : EventBus H) (c : U64) (id : SubscriptionId) :
    id ∈ ((leaveCausality causalityId level bus).activeFor c).keys ↔
      id ∈ (bus.activeFor c).keys ∧ ¬(c = causalityId ∧ id ∈ level) := by
  unfold leaveCausality
  split
  · next hnone =>
    by_cases hc : c = causalityId
    · subst hc
      simp [activeFor, hnone, empty]
    · simp [hc]
  · next active hsome =>
    rw [activeFor, get?_storeActive]
    split_ifs with hc
    · subst hc
      rw [mem_keys_foldl_erase]
      simp [activeFor, hsome]
    · simp [activeFor, hc]

end PhenixConductor.Events
