import PhenixConductor.Events.Tracking

/-! # Causal re-entry

The ancestry of a delivery is what is active for its cause when it is accepted.
-/
namespace PhenixConductor.Events
open Collections Contract Component
variable {H : Type}
namespace System

/-- No handler that the event descends from has been or will be invoked for it. -/
structure Barred (d : Delivery H) : Prop where
  ahead : ∀ id ∈ d.lineage, id ∈ d.levels.flatten → id ∈ d.ancestry.keys
  entering : ∀ level, d.phase = .entering level → ∀ id ∈ level, id ∉ d.lineage
  invoked : ∀ invocation ∈ d.invoked, invocation.subscription ∉ d.lineage

variable {d : Delivery H}

theorem Barred.of_phase (h : Barred d) {phase : DeliveryPhase}
    (hphase : ∀ level, phase ≠ .entering level) : Barred { d with phase := phase } :=
  ⟨h.ahead,fun level hlevel => absurd hlevel (hphase level),h.invoked⟩

theorem Barred.check (h : Barred d) (bus : EventBus H) : Barred (check bus d).1 := by
  unfold System.check
  split
  · unfold Delivery.checkLevel
    split
    · exact h.of_phase (by simp)
    · next level rest hlevels =>
      split_ifs
      · exact h.of_phase (by simp)
      · split
        · exact h.of_phase (by simp)
        · next hnone =>
          refine ⟨fun id hid hrest => ?_,fun level' hlevel' id hid hlineage => ?_,h.invoked⟩
          · exact h.ahead id hid (by simp only [hlevels, List.flatten_cons, List.mem_append]; tauto)
          · cases hlevel'
            have hancestor := h.ahead id hlineage (by simp [hlevels, hid])
            have hnot := List.find?_eq_none.mp hnone id hid
            simp [hancestor] at hnot
  · exact h

theorem mem_invocations {level : List SubscriptionId} {invocation : Invocation}
    (h : invocation ∈ level.filterMap d.invocation) : invocation.subscription ∈ level := by
  obtain ⟨id,hid,hsome⟩ := List.mem_filterMap.mp h
  obtain ⟨subscription,-,rfl⟩ := Option.map_eq_some_iff.mp hsome
  exact hid

theorem Barred.enter (h : Barred d) (bus : EventBus H) : Barred (enter bus d).1 := by
  unfold System.enter
  split
  · next level hphase =>
    unfold Delivery.enterLevel
    split
    · exact h.of_phase (by simp)
    · refine ⟨h.ahead,fun _ hlevel => (by cases hlevel),fun invocation hinvocation => ?_⟩
      rcases List.mem_append.mp hinvocation with hold | hnew
      · exact h.invoked invocation hold
      · exact h.entering level hphase _ (mem_invocations hnew)
  · exact h

theorem Barred.handled (h : Barred d) (admissions : List (Admission H)) (i : ℕ)
    (subscription : SubscriptionId) (outcome : HandlerOutcome) (bus : EventBus H) :
    Barred (handled admissions i subscription outcome bus d).1 := by
  unfold System.handled
  split
  · split_ifs
    · exact h.of_phase (by simp)
    · exact h
  · exact h

theorem Barred.leave (h : Barred d) (bus : EventBus H) : Barred (leave bus d).1 := by
  unfold System.leave
  split
  · split
    · exact h
    · exact h.of_phase (by simp)
  · exact h

theorem Barred.settle (h : Barred d) (bus : EventBus H) : Barred (settle bus d).1 := by
  unfold System.settle
  split
  · unfold Delivery.settleLevel
    split_ifs
    · exact h.of_phase (by simp)
    · split
      · exact h.of_phase (by simp)
      · exact ⟨h.ahead,fun _ hlevel => (by cases hlevel),h.invoked⟩
  · exact h

theorem Barred.release (h : Barred d) (bus : EventBus H) : Barred (release bus d).1 := by
  unfold System.release
  split
  · exact h.of_phase (by simp)
  · exact h

theorem barred_advance {s : System H} (h : ∀ d ∈ s.deliveries, Barred d) (i : ℕ)
    {f : EventBus H → Delivery H → Delivery H × EventBus H}
    (hf : ∀ bus d, Barred d → Barred (f bus d).1) : ∀ d ∈ (s.advance i f).deliveries, Barred d := by
  unfold advance
  split
  · exact h
  · next d hd =>
    intro e he
    rcases List.mem_or_eq_of_mem_set he with he | rfl
    · exact h e he
    · exact hf s.bus d (h d (List.mem_of_getElem? hd))

/-- When an admission made by a handler is accepted, every subscription that the
handled event descends from and that the new event would reach is active for their
cause. -/
def AncestorsActive (s : System H) : Action H → Prop
  | .accept i _ => ∀ a ∈ s.admissions[i]?, ∀ caller ∈ a.caller, ∀ id ∈ caller.lineage,
      id ∈ a.levels.flatten → id ∈ (s.bus.activeFor a.event.causalityId).keys
  | _ => True

instance (s : System H) : (action : Action H) → Decidable (AncestorsActive s action)
  | .accept i _ => inferInstanceAs (Decidable (∀ a ∈ s.admissions[i]?, ∀ caller ∈ a.caller,
      ∀ id ∈ caller.lineage, id ∈ a.levels.flatten →
        id ∈ (s.bus.activeFor a.event.causalityId).keys))
  | .change _ | .admitOutside .. | .admitFrom .. | .reserve _ | .check _ | .enter _ | .handled ..
  | .leave _ | .settle _ | .release _ => .isTrue trivial

/-- The handler that admits the event is active, whatever became of the others. -/
theorem Tracked.barred_delivery {s : System H} (h : Tracked s) {i : ℕ} {a : Admission H}
    (ha : s.admissions[i]? = some a) {spawned : Bool}
    (hactive : AncestorsActive s (.accept i spawned)) : Barred (delivery s.bus a) := by
  refine ⟨fun id hid hlevels => ?_,fun _ hlevel => (by cases hlevel),fun _ hnone => (by cases hnone)⟩
  change id ∈ a.lineage at hid
  change id ∈ (s.bus.activeFor a.event.causalityId).keys
  unfold Admission.lineage at hid
  split at hid
  · cases hid
  · next caller hcaller =>
    rcases List.mem_cons.mp hid with rfl | hid
    · obtain ⟨d,hd,hhandling,hcause,-⟩ :=
        (h.callers a (List.mem_of_getElem? ha)).2 caller hcaller
      rw [← hcause]
      exact h.active _ d hd _ hhandling.mem_entered
    · exact hactive a ha caller hcaller id hid hlevels

theorem startAdmission_deliveries (s : System H) (caller : Option Caller) (event : EventEnvelope)
    (authority : Authority) (generation : Option GraphGenerationId) :
    (s.startAdmission caller event authority generation).deliveries = s.deliveries := by
  unfold startAdmission
  split <;> rfl

theorem admitFrom_deliveries (s : System H) (i : ℕ) (subscription : SubscriptionId)
    (event : EventEnvelope) (authority : Authority) (generation : Option GraphGenerationId) :
    (s.admitFrom i subscription event authority generation).deliveries = s.deliveries := by
  unfold admitFrom
  split
  · rfl
  · split_ifs
    · exact startAdmission_deliveries s _ _ _ _
    · rfl

theorem reserve_deliveries (s : System H) (i : ℕ) : (s.reserve i).deliveries = s.deliveries := by
  unfold reserve
  split
  · rfl
  · split_ifs
    · rfl
    · split <;> rfl

theorem step_barred {s : System H} (htracked : Tracked s) (h : ∀ d ∈ s.deliveries, Barred d)
    {action : Action H} (hactive : AncestorsActive s action) :
    ∀ d ∈ (s.step action).deliveries, Barred d := by
  cases action with
  | change change => exact h
  | admitOutside event authority generation =>
    rwa [step, startAdmission_deliveries]
  | admitFrom i subscription event authority generation =>
    rwa [step, admitFrom_deliveries]
  | reserve i =>
    rwa [step, reserve_deliveries]
  | accept i spawned =>
    rw [step, accept]
    split
    · exact h
    · next a ha =>
      split_ifs
      · exact h
      · intro d hd
        rcases List.mem_append.mp hd with hd | hd
        · exact h d hd
        · rw [List.mem_singleton.mp hd]
          exact htracked.barred_delivery ha hactive
      · exact h
  | check i => exact barred_advance h i fun bus d hd => hd.check bus
  | enter i => exact barred_advance h i fun bus d hd => hd.enter bus
  | handled i subscription outcome =>
    exact barred_advance h i fun bus d hd => hd.handled s.admissions i subscription outcome bus
  | leave i => exact barred_advance h i fun bus d hd => hd.leave bus
  | settle i => exact barred_advance h i fun bus d hd => hd.settle bus
  | release i => exact barred_advance h i fun bus d hd => hd.release bus

theorem run_barred {deliveryCapacity : ℕ+} {actions : List (Action H)}
    (h : Along step AncestorsActive (start deliveryCapacity) actions) :
    ∀ d ∈ (runAll step (start deliveryCapacity) actions).deliveries, Barred d := by
  have hstart : Tracked (start deliveryCapacity : System H) :=
    ⟨fun _ _ hd => by simp [start] at hd,fun _ _ _ _ hd => by simp [start] at hd,
      fun _ _ hd => by simp [start] at hd,fun _ ha => by simp [start] at ha⟩
  have hrun := h.invariant (I := fun s => Tracked s ∧ ∀ d ∈ s.deliveries, Barred d)
    (fun s action hs hactive => ⟨step_tracked s action hs.1,step_barred hs.1 hs.2 hactive⟩)
    ⟨hstart,by simp [start]⟩
  exact hrun.2

/-- A level that holds an ancestor is refused. -/
theorem Barred.check_refuses (h : Barred d) {bus : EventBus H} {level : List SubscriptionId}
    {rest : List (List SubscriptionId)} (hphase : d.phase = .atLevel)
    (hlevels : d.levels = level :: rest) (hrevision : bus.subscriptionRevision = d.revision)
    (hancestor : ∃ id ∈ level, id ∈ d.lineage) :
    ∃ id ∈ level, (System.check bus d).1.status = .failed (.causalReentry id) := by
  obtain ⟨id,hid,hlineage⟩ := hancestor
  have hmem := h.ahead id hlineage (by simp [hlevels, hid])
  rw [System.check, hphase]
  rw [Delivery.checkLevel, hlevels]
  simp only [hrevision, ne_eq, not_true_eq_false, if_false]
  split
  · next found hfound => exact ⟨found,List.mem_of_find?_eq_some hfound,rfl⟩
  · next hnone =>
    have hnot := List.find?_eq_none.mp hnone id hid
    simp [hmem] at hnot

/-- In a run that accepts admissions only while the ancestors they would reach are
active, no handler is invoked for an event that descends from an invocation of its own
subscription, and a delivery that comes to such a level fails with the re-entry. -/
theorem no_causal_reentry (deliveryCapacity : ℕ+) (actions : List (Action H))
    (h : Along step AncestorsActive (start deliveryCapacity) actions) :
    let s := runAll step (start deliveryCapacity) actions
    ∀ d ∈ s.deliveries,
      (∀ invocation ∈ d.invoked, invocation.subscription ∉ d.lineage) ∧
      ∀ level rest, d.phase = .atLevel → d.levels = level :: rest →
        s.bus.subscriptionRevision = d.revision → (∃ id ∈ level, id ∈ d.lineage) →
          ∃ id ∈ level, (check s.bus d).1.status = .failed (.causalReentry id) := by
  intro s d hd
  have hbarred := run_barred h d hd
  exact ⟨hbarred.invoked,fun level rest hphase hlevels hrevision hancestor =>
    hbarred.check_refuses hphase hlevels hrevision hancestor⟩

/-! ### A handler that has returned

The listener of the first event admits the second and returns. The listener of the
second admits the first again: its ancestry holds the second listener only.
-/

def noAuthority : Authority := Authority.new []
def firstType : EventTypeId := ⟨"demo.first",by decide⟩
def secondType : EventTypeId := ⟨"demo.second",by decide⟩
def firstListener : SubscriptionId := ⟨"demo.first.listener",by decide⟩
def secondListener : SubscriptionId := ⟨"demo.second.listener",by decide⟩
def demoOwner : PluginId := ⟨"demo",by decide⟩

def listener (id : SubscriptionId) (eventType : EventTypeId) : EventSubscription Unit :=
  ⟨⟨id,demoOwner,eventType,1,[],.ignore,noAuthority,noAuthority,0⟩,()⟩

def demoEvent (eventType : EventTypeId) : EventEnvelope := ⟨eventType,1,demoOwner,0,0,[]⟩

/-- The steps of the first delivery up to its invocations. -/
def enterLevelOf (delivery : ℕ) : List (Action Unit) := [.check delivery,.enter delivery]

def admitFromListener (delivery : ℕ) (id : SubscriptionId) (eventType : EventTypeId) :
    List (Action Unit) :=
  [.admitFrom delivery id (demoEvent eventType) noAuthority none,.reserve 0,.accept 0 true]

def firstInvocation : List (Action Unit) :=
  [.change (.replace [listener firstListener firstType,listener secondListener secondType]),
    .admitOutside (demoEvent firstType) noAuthority none,.reserve 0,.accept 0 true] ++ enterLevelOf 0

def returnedAncestor : List (Action Unit) :=
  firstInvocation ++ admitFromListener 0 firstListener secondType ++
  [.handled 0 firstListener (.returned (.ok ())),.leave 0] ++ enterLevelOf 1 ++
  admitFromListener 1 secondListener firstType ++ enterLevelOf 2

/-- The first listener is invoked for an event that descends from its own invocation. -/
theorem reentry_after_return : ¬∀ actions : List (Action Unit),
    ∀ d ∈ (runAll step (start 64) actions).deliveries,
      ∀ invocation ∈ d.invoked, invocation.subscription ∉ d.lineage := by
  intro h
  have hfound : ∃ d ∈ (runAll step (start 64) returnedAncestor).deliveries,
      ∃ id ∈ d.invoked.map Invocation.subscription, id ∈ d.lineage := by decide +kernel
  obtain ⟨d,hd,id,hid,hlineage⟩ := hfound
  obtain ⟨invocation,hinvocation,rfl⟩ := List.mem_map.mp hid
  exact h returnedAncestor d hd invocation hinvocation hlineage

/-- The listener of the first event admits that event again before it returns. -/
def runningAncestor : List (Action Unit) :=
  firstInvocation ++ admitFromListener 0 firstListener firstType

theorem no_causal_reentry_running :
    Along step AncestorsActive (start 64) runningAncestor ∧
      ∀ d ∈ (runAll step (start 64) runningAncestor).deliveries,
        ∀ invocation ∈ d.invoked, invocation.subscription ∉ d.lineage := by
  have hactive : Along step AncestorsActive (start 64) runningAncestor := by decide +kernel
  exact ⟨hactive,fun d hd => (no_causal_reentry 64 runningAncestor hactive d hd).1⟩

end System
end PhenixConductor.Events
