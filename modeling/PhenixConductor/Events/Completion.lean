import PhenixConductor.Events.Changes

/-! # What a successful delivery has done

The levels of an event hold each of its subscriptions once, as early as its dependencies allow.
-/
namespace PhenixConductor.Events
open Collections Contract Component EventDispatchReport
open List (append_assoc append_nil mem_append mem_flatten mem_of_getElem? mem_singleton)
variable {H : Type}

/-- Subscriptions in levels, each in the first level behind those of its dependencies. -/
structure Levelled (subscriptions : Subscriptions H) (levels : List (List SubscriptionId)) :
    Prop where
  nodup : levels.flatten.Nodup
  nonempty : ∀ level ∈ levels, level ≠ []
  after : ∀ (i : ℕ) level, levels[i]? = some level → ∀ id ∈ level, ∀ b,
    DependsOn subscriptions id b → b ∈ levels.flatten →
      ∃ j < i, ∃ earlier, levels[j]? = some earlier ∧ b ∈ earlier
  earliest : ∀ (i : ℕ) level, levels[i + 1]? = some level → ∀ id ∈ level,
    ∃ b earlier, DependsOn subscriptions id b ∧ levels[i]? = some earlier ∧ b ∈ earlier

section Levels
variable {subscriptions : Subscriptions H} {remaining : BTreeSet SubscriptionId}
  {levels : List (List SubscriptionId)}

theorem mem_levelsFrom (h : levelsFrom subscriptions remaining = .ok levels) (id : SubscriptionId) :
    id ∈ levels.flatten ↔ id ∈ remaining.keys := by
  induction remaining using levelsFrom.induct subscriptions generalizing levels with
  | case1 remaining hnil =>
    rw [levelsFrom_of_nil hnil] at h
    cases h
    simp [hnil]
  | case2 remaining next rest hcons hstuck =>
    rw [levelsFrom_of_stuck hcons hstuck] at h
    cases h
  | case3 remaining next rest hcons hready _ ih =>
    rw [levelsFrom_of_ready hready] at h
    obtain ⟨levels,hlevels,h⟩ := bind_eq_ok.mp h
    cases h
    rw [List.flatten_cons, mem_append, ih hlevels, mem_removeReady]
    have hmem : id ∈ readySubscriptions subscriptions remaining → id ∈ remaining.keys :=
      fun hid => (mem_readySubscriptions.mp hid).1
    tauto

theorem levelsFrom_levelled (h : levelsFrom subscriptions remaining = .ok levels) :
    Levelled subscriptions levels := by
  induction remaining using levelsFrom.induct subscriptions generalizing levels with
  | case1 remaining hnil =>
    rw [levelsFrom_of_nil hnil] at h
    cases h
    constructor <;> simp
  | case2 remaining next rest hcons hstuck =>
    rw [levelsFrom_of_stuck hcons hstuck] at h
    cases h
  | case3 remaining next rest hcons hready _ ih =>
    rw [levelsFrom_of_ready hready] at h
    obtain ⟨levels,hlevels,h⟩ := bind_eq_ok.mp h
    cases h
    have hrest := ih hlevels
    have hmem := mem_levelsFrom hlevels
    constructor
    · rw [List.flatten_cons, List.nodup_append']
      refine ⟨(BTreeMap.nodup_keys remaining).filter _,hrest.nodup,fun id hid hid' => ?_⟩
      exact (mem_removeReady.mp ((hmem id).mp hid')).2 hid
    · rw [List.forall_mem_cons]
      exact ⟨hready,hrest.nonempty⟩
    · intro i level hi id hid b hb hlisted
      cases i with
      | zero =>
        cases hi
        obtain ⟨-,hdeps⟩ := mem_readySubscriptions.mp hid
        have hb' : b ∈ remaining.keys := by
          rcases mem_append.mp hlisted with hlisted | hlisted
          · exact (mem_readySubscriptions.mp hlisted).1
          · exact (mem_removeReady.mp ((hmem b).mp hlisted)).1
        exact absurd hb' (hdeps b hb)
      | succ i =>
        rcases mem_append.mp hlisted with hfirst | hlater
        · exact ⟨0,i.succ_pos,_,rfl,hfirst⟩
        · obtain ⟨j,hj,earlier,hearlier,hmember⟩ := hrest.after i level hi id hid b hb hlater
          exact ⟨j + 1,Nat.succ_lt_succ hj,earlier,hearlier,hmember⟩
    · intro i level hi id hid
      cases i with
      | succ i => exact hrest.earliest i level hi id hid
      | zero =>
        -- what is left after the first level waited for a member of it
        obtain ⟨hid',hwaits⟩ := mem_removeReady.mp
          ((hmem id).mp (mem_flatten.mpr ⟨level,mem_of_getElem? hi,hid⟩))
        rw [mem_readySubscriptions] at hwaits
        simp only [hid', true_and, not_forall, not_not] at hwaits
        obtain ⟨b,hb,hremaining⟩ := hwaits
        have hgone : b ∉ (removeReady subscriptions remaining).keys := by
          intro hkept
          obtain ⟨j,hj,-⟩ := hrest.after 0 level hi id hid b hb ((hmem b).mpr hkept)
          exact Nat.not_lt_zero j hj
        rw [mem_removeReady, not_and, not_not] at hgone
        exact ⟨b,_,hb,rfl,hgone hremaining⟩

/-- No way to rank the subscriptions above their dependencies puts one lower. -/
theorem Levelled.le_rank (h : Levelled subscriptions levels) {rank : SubscriptionId → ℕ}
    (hrank : ∀ a b, DependsOn subscriptions a b → rank b < rank a) {i : ℕ}
    {level : List SubscriptionId} (hi : levels[i]? = some level) {id : SubscriptionId}
    (hid : id ∈ level) : i ≤ rank id := by
  induction i generalizing level id with
  | zero => exact Nat.zero_le _
  | succ i ih =>
    obtain ⟨b,earlier,hb,hearlier,hmem⟩ := h.earliest i level hi id hid
    have hbefore := ih hearlier hmem
    have hbelow := hrank id b hb
    omega

end Levels

/-- The levels of an event hold its subscriptions and no other. -/
theorem mem_dependencyLevels {subscriptions : Subscriptions H} (hkeyed : Keyed subscriptions)
    {eventType : EventTypeId} {eventVersion : ℕ} {levels : List (List SubscriptionId)}
    (h : dependencyLevels subscriptions eventType eventVersion = .ok levels) (id : SubscriptionId) :
    id ∈ levels.flatten ↔ ∃ subscription, subscriptions.get? id = some subscription ∧
      subscription.spec.eventType = eventType ∧ subscription.spec.eventVersion = eventVersion := by
  rw [mem_levelsFrom h, mem_eventIds hkeyed]

/-- The subscriptions whose results are in a report. -/
def EventDispatchReport.settled (report : EventDispatchReport) : List SubscriptionId :=
  report.delivered ++ report.failures.map (·.1)

namespace Delivery

/-- The levels of a delivery are those that are done, those taken up and those to come; the
report has the results of the first, and the handlers of some of the second are invoked. -/
structure OnTrack (d : Delivery H) (done started taken : List (List SubscriptionId)) : Prop where
  planned : dependencyLevels d.subscriptions d.event.eventType d.event.version =
    .ok (done ++ taken ++ d.levels)
  invoked : d.invoked = (done ++ started).flatten.filterMap d.invocation
  reported : d.report.settled.Perm done.flatten
  tolerated : ∀ failure ∈ d.report.failures,
    failurePolicy d.subscriptions failure.1 ≠ some .failDelivery

/-- What holds of a delivery that has not failed. -/
def Progress (d : Delivery H) : Prop :=
  Valid d.subscriptions ∧ match d.phase with
  | .atLevel => ∃ done, d.OnTrack done [] []
  | .entering level => ∃ done, d.OnTrack done [] [level]
  | .handling level _ => ∃ done, d.OnTrack done [level] [level]
  | .settling results =>
    ∃ done, d.OnTrack done [results.map (·.1)] [results.map (·.1)]
  | .ended (.succeeded report) | .released (.succeeded report) =>
    d.levels = [] ∧ report = d.report ∧ ∃ done, d.OnTrack done [] []
  | .ended _ | .released _ => True

theorem Progress.of_ended {d : Delivery H} {status : EventDeliveryStatus} (h : Valid d.subscriptions)
    (hphase : d.phase = .ended status) (hstatus : ∀ report, status ≠ .succeeded report) :
    d.Progress := by
  refine ⟨h,?_⟩
  rw [hphase]
  cases status with
  | succeeded report => exact absurd rfl (hstatus report)
  | _ => trivial

variable {results : List (SubscriptionId × Except String Unit)}

theorem joinLevel_subscriptions {level : List SubscriptionId}
    {finished : BTreeMap SubscriptionId (Except String Unit)}
    (h : joinLevel level finished = some results) : results.map (·.1) = level := by
  induction level generalizing results with
  | nil =>
    cases h
    rfl
  | cons id level ih =>
    rw [joinLevel, List.mapM_cons] at h
    obtain ⟨first,hfirst,hrest⟩ := Option.bind_eq_some_iff.mp h
    obtain ⟨rest,hlevel,hsome⟩ := Option.bind_eq_some_iff.mp hrest
    obtain ⟨result,-,rfl⟩ := Option.map_eq_some_iff.mp hfirst
    cases hsome
    rw [List.map_cons, ih hlevel]

variable {subscriptions : Subscriptions H}

/-- Settling a result puts its subscription in the report, once. -/
theorem settleResult_eq_ok {report next : EventDispatchReport}
    {result : SubscriptionId × Except String Unit}
    (h : settleResult subscriptions report result = .ok next) :
    next.settled.Perm (result.1 :: report.settled) ∧ ∀ failure ∈ next.failures,
      failure ∈ report.failures ∨ failurePolicy subscriptions failure.1 ≠ some .failDelivery := by
  rcases result with ⟨id,message | _⟩
  · have hlist : ∀ next : EventDispatchReport, next.delivered = report.delivered →
        next.failures = report.failures ++ [(id,message)] →
          failurePolicy subscriptions id ≠ some .failDelivery →
            next.settled.Perm (id :: report.settled) ∧ ∀ failure ∈ next.failures,
              failure ∈ report.failures ∨
                failurePolicy subscriptions failure.1 ≠ some .failDelivery := by
      intro next hdelivered hfailures hpolicy
      rw [settled, settled, hdelivered, hfailures,
        List.map_append, ← append_assoc]
      refine ⟨List.perm_append_singleton _ _,fun failure hfailure => ?_⟩
      rcases mem_append.mp hfailure with hbefore | hnew
      · exact .inl hbefore
      · rw [mem_singleton.mp hnew]
        exact .inr hpolicy
    unfold settleResult at h
    dsimp only at h
    split at h
    · cases h
    · next hpolicy =>
      cases h
      exact hlist _ rfl rfl (by simp [hpolicy])
    · next hpolicy =>
      cases h
      exact hlist _ rfl rfl (by simp [hpolicy])
    · next hpolicy =>
      cases h
      exact hlist _ rfl rfl (by simp [hpolicy])
  · cases h
    refine ⟨?_,fun failure hfailure => .inl hfailure⟩
    rw [settled, append_assoc]
    exact List.perm_middle

theorem settleResults_eq_ok {report next : EventDispatchReport}
    (h : results.foldlM (settleResult subscriptions) report = .ok next) :
    next.settled.Perm (report.settled ++ results.map (·.1)) ∧ ∀ failure ∈ next.failures,
      failure ∈ report.failures ∨ failurePolicy subscriptions failure.1 ≠ some .failDelivery := by
  induction results generalizing report with
  | nil =>
    cases h
    exact ⟨by simp,fun _ hfailure => .inl hfailure⟩
  | cons result results ih =>
    rw [List.foldlM_cons, bind_eq_ok] at h
    obtain ⟨middle,hmiddle,h⟩ := h
    obtain ⟨hperm,hfailures⟩ := settleResult_eq_ok hmiddle
    obtain ⟨hperm',hfailures'⟩ := ih h
    refine ⟨?_,fun failure hfailure => ?_⟩
    · exact hperm'.trans ((hperm.append_right _).trans List.perm_middle.symm)
    · rcases hfailures' failure hfailure with hbefore | hpolicy
      · exact hfailures failure hbefore
      · exact .inr hpolicy

end Delivery

namespace System
open Delivery
variable {d : Delivery H} {bus : EventBus H}

theorem check_progress (h : d.Progress) : (check bus d).1.Progress := by
  unfold check
  split
  · next hphase =>
    obtain ⟨hvalid,hphase'⟩ := h
    rw [hphase] at hphase'
    obtain ⟨done,htrack⟩ := hphase'
    unfold checkLevel
    split
    · next hnil => exact ⟨hvalid,hnil,rfl,done,htrack.1,htrack.2,htrack.3,htrack.4⟩
    · next level rest hcons =>
      split_ifs
      · exact .of_ended hvalid rfl (by simp)
      · split
        · exact .of_ended hvalid rfl (by simp)
        · refine ⟨hvalid,done,?_,htrack.invoked,htrack.reported,htrack.tolerated⟩
          have hplanned := htrack.planned
          rw [hcons] at hplanned
          simpa using hplanned
  · exact h

theorem enter_progress (h : d.Progress) : (enter bus d).1.Progress := by
  unfold enter
  split
  · next level hphase =>
    obtain ⟨hvalid,hphase'⟩ := h
    rw [hphase] at hphase'
    obtain ⟨done,htrack⟩ := hphase'
    unfold enterLevel
    split
    · exact .of_ended hvalid rfl (by simp)
    · refine ⟨hvalid,done,htrack.planned,?_,htrack.reported,htrack.tolerated⟩
      have hinvoked := htrack.invoked
      rw [append_nil] at hinvoked
      change d.invoked ++ level.filterMap d.invocation = (done ++ [level]).flatten.filterMap d.invocation
      rw [hinvoked, List.flatten_append, List.flatten_singleton, List.filterMap_append]
  · exact h

theorem handled_progress {admissions : List (Admission H)} {i : ℕ} {subscription : SubscriptionId}
    {outcome : HandlerOutcome} (h : d.Progress) :
    (handled admissions i subscription outcome bus d).1.Progress := by
  unfold handled
  split
  · next level finished hphase =>
    split_ifs
    · obtain ⟨hvalid,hphase'⟩ := h
      rw [hphase] at hphase'
      obtain ⟨done,htrack⟩ := hphase'
      exact ⟨hvalid,done,htrack.1,htrack.2,htrack.3,htrack.4⟩
    · exact h
  · exact h

theorem leave_progress (h : d.Progress) : (leave bus d).1.Progress := by
  unfold leave
  split
  · next level finished hphase =>
    split
    · exact h
    · next results hjoin =>
      obtain ⟨hvalid,hphase'⟩ := h
      rw [hphase] at hphase'
      obtain ⟨done,htrack⟩ := hphase'
      refine ⟨hvalid,done,?_⟩
      rw [joinLevel_subscriptions hjoin]
      exact ⟨htrack.1,htrack.2,htrack.3,htrack.4⟩
  · exact h

theorem settle_progress (h : d.Progress) : (settle bus d).1.Progress := by
  unfold settle
  split
  · next results hphase =>
    obtain ⟨hvalid,hphase'⟩ := h
    rw [hphase] at hphase'
    obtain ⟨done,htrack⟩ := hphase'
    unfold settleLevel
    split_ifs
    · exact .of_ended hvalid rfl (by simp)
    · split
      · exact .of_ended hvalid rfl (by simp)
      · next report hreport =>
        obtain ⟨hperm,hfailures⟩ := settleResults_eq_ok hreport
        refine ⟨hvalid,done ++ [results.map (·.1)],?_,?_,?_,?_⟩
        · simpa using htrack.planned
        · rw [append_nil]
          exact htrack.invoked
        · rw [List.flatten_append, List.flatten_singleton]
          exact hperm.trans (htrack.reported.append_right _)
        · intro failure hfailure
          rcases hfailures failure hfailure with hbefore | hpolicy
          · exact htrack.tolerated failure hbefore
          · exact hpolicy
  · exact h

theorem release_progress (h : d.Progress) : (release bus d).1.Progress := by
  unfold release
  split
  · next status hphase =>
    obtain ⟨hvalid,hphase'⟩ := h
    rw [hphase] at hphase'
    refine ⟨hvalid,?_⟩
    cases status with
    | succeeded report =>
      obtain ⟨hlevels,hreport,done,htrack⟩ := hphase'
      exact ⟨hlevels,hreport,done,htrack.1,htrack.2,htrack.3,htrack.4⟩
    | _ => trivial
  · exact h

/-- What an admission has read is what its delivery starts with. -/
def Planned (a : Admission H) : Prop :=
  Valid a.subscriptions ∧
    dependencyLevels a.subscriptions a.event.eventType a.event.version = .ok a.levels

theorem delivery_progress {a : Admission H} (h : Planned a) : (delivery bus a).Progress :=
  ⟨h.1,[],h.2,rfl,.refl _,fun _ hfailure => nomatch hfailure⟩

structure Underway (s : System H) : Prop where
  valid : Valid s.bus.subscriptions
  planned : ∀ a ∈ s.admissions, Planned a
  progress : ∀ d ∈ s.deliveries, d.Progress

variable {s : System H}

theorem Underway.startAdmission (h : Underway s) (caller : Option Caller) (event : EventEnvelope)
    (authority : Authority) (generation : Option GraphGenerationId) :
    Underway (s.startAdmission caller event authority generation) := by
  obtain ⟨rooted,counter,result,hcall,hresult,hsame,-⟩ :=
    snapshotAdmission_call event authority generation s.bus
  rw [System.startAdmission, hcall]
  cases result with
  | error e => exact ⟨h.valid,h.planned,h.progress⟩
  | ok snapshot =>
    refine ⟨h.valid,fun a ha => ?_,h.progress⟩
    rcases mem_append.mp ha with ha | ha
    · exact h.planned a ha
    · rw [mem_singleton.mp ha]
      obtain ⟨levels,hlevels,hrest⟩ := bind_eq_ok.mp hresult.symm
      obtain ⟨-,hsnapshot⟩ := seq_eq_ok.mp hrest
      cases hsnapshot
      rw [← hsame.1, ← hsame.2] at hlevels
      exact ⟨h.valid,hlevels⟩

variable {f : EventBus H → Delivery H → Delivery H × EventBus H}

theorem Underway.advance (h : Underway s) (i : ℕ)
    (hbus : ∀ bus d, (f bus d).2.subscriptions = bus.subscriptions)
    (hf : ∀ bus d, d.Progress → (f bus d).1.Progress) : Underway (s.advance i f) := by
  unfold System.advance
  split
  · exact h
  · next d hd =>
    refine ⟨(hbus s.bus d).symm ▸ h.valid,h.planned,fun e he => ?_⟩
    rcases List.mem_or_eq_of_mem_set he with he | rfl
    · exact h.progress e he
    · exact hf _ d (h.progress d (mem_of_getElem? hd))

theorem step_underway (s : System H) (action : Action H) (h : Underway s) :
    Underway (s.step action) := by
  have hvalid := step_valid s action h.valid
  cases action with
  | change change => exact ⟨hvalid,h.planned,h.progress⟩
  | admitOutside event authority generation => exact h.startAdmission none event authority generation
  | admitFrom i subscription event authority generation =>
    rw [step, System.admitFrom]
    split
    · exact h
    · split_ifs
      · exact h.startAdmission _ _ authority generation
      · exact h
  | reserve i =>
    rw [step, System.reserve, reserveDelivery_call]
    split
    · exact h
    · next a ha =>
      split_ifs
      · exact h
      · exact ⟨h.valid,fun b hb => h.planned b (List.mem_of_mem_eraseIdx hb),h.progress⟩
      · refine ⟨h.valid,fun b hb => ?_,h.progress⟩
        rcases List.mem_or_eq_of_mem_set hb with hb | rfl
        · exact h.planned b hb
        · exact h.planned a (mem_of_getElem? ha)
  | accept i spawned =>
    rw [step, System.accept]
    split
    · exact h
    · next a ha =>
      have hdrop : ∀ b ∈ s.admissions.eraseIdx i, Planned b :=
        fun b hb => h.planned b (List.mem_of_mem_eraseIdx hb)
      split_ifs
      · exact h
      · refine ⟨h.valid,hdrop,fun d hd => ?_⟩
        rcases mem_append.mp hd with hd | hd
        · exact h.progress d hd
        · rw [mem_singleton.mp hd]
          exact delivery_progress (h.planned a (mem_of_getElem? ha))
      · exact ⟨h.valid,hdrop,h.progress⟩
  | check i =>
    refine h.advance i (fun bus d => ?_) fun bus d => check_progress
    unfold check
    split <;> rfl
  | enter i => exact h.advance i enter_subscriptions fun bus d => enter_progress
  | handled i subscription outcome =>
    refine h.advance i (fun bus d => ?_) fun bus d => handled_progress
    unfold handled
    split
    · split_ifs <;> rfl
    · rfl
  | leave i => exact h.advance i leave_subscriptions fun bus d => leave_progress
  | settle i =>
    refine h.advance i (fun bus d => ?_) fun bus d => settle_progress
    unfold settle
    split <;> rfl
  | release i =>
    refine h.advance i (fun bus d => ?_) fun bus d => release_progress
    unfold release
    split <;> rfl

theorem run_underway (deliveryCapacity : ℕ+) (actions : List (Action H)) :
    Underway (runAll step (start deliveryCapacity) actions) :=
  runAll_invariant step_underway actions
    ⟨valid_empty,fun _ ha => (nomatch ha),fun _ hd => nomatch hd⟩

/-- What one thread of a delivery adds to its invocations. -/
def Invokes (d d' : Delivery H) : Prop :=
  d'.invoked = d.invoked ∨ ∃ level, d.phase = .entering level ∧
    d'.invoked = d.invoked ++ level.filterMap d.invocation

theorem advance_invokes {i j : ℕ} (hd : s.deliveries[i]? = some d)
    (hf : ∀ bus d, Invokes d (f bus d).1) :
    ∃ d', (s.advance j f).deliveries[i]? = some d' ∧ Invokes d d' := by
  unfold System.advance
  split
  · exact ⟨d,hd,.inl rfl⟩
  · next e he =>
    by_cases hij : j = i
    · subst hij
      cases hd.symm.trans he
      refine ⟨_,List.getElem?_set_self (List.getElem?_eq_some_iff.mp hd).1,hf s.bus d⟩
    · exact ⟨d,(List.getElem?_set_ne hij).trans hd,.inl rfl⟩

theorem check_invokes (bus : EventBus H) (d : Delivery H) : Invokes d (check bus d).1 := by
  unfold check
  split
  · unfold checkLevel
    split
    · exact .inl rfl
    · split_ifs
      · exact .inl rfl
      · split <;> exact .inl rfl
  · exact .inl rfl

theorem enter_invokes (bus : EventBus H) (d : Delivery H) : Invokes d (enter bus d).1 := by
  unfold enter
  split
  · next level hphase =>
    unfold enterLevel
    split
    · exact .inl rfl
    · exact .inr ⟨level,hphase,rfl⟩
  · exact .inl rfl

theorem handled_invokes (admissions : List (Admission H)) (i : ℕ) (subscription : SubscriptionId)
    (outcome : HandlerOutcome) (bus : EventBus H) (d : Delivery H) :
    Invokes d (handled admissions i subscription outcome bus d).1 := by
  unfold handled
  split
  · split_ifs <;> exact .inl rfl
  · exact .inl rfl

theorem leave_invokes (bus : EventBus H) (d : Delivery H) : Invokes d (leave bus d).1 := by
  unfold leave
  split
  · split <;> exact .inl rfl
  · exact .inl rfl

theorem settle_invokes (bus : EventBus H) (d : Delivery H) : Invokes d (settle bus d).1 := by
  unfold settle
  split
  · unfold settleLevel
    split_ifs
    · exact .inl rfl
    · split <;> exact .inl rfl
  · exact .inl rfl

theorem release_invokes (bus : EventBus H) (d : Delivery H) : Invokes d (release bus d).1 := by
  unfold release
  split <;> exact .inl rfl

/-- A delivery invokes handlers when it enters a level. -/
theorem step_invokes (action : Action H) {i : ℕ} (hd : s.deliveries[i]? = some d) :
    ∃ d', (s.step action).deliveries[i]? = some d' ∧ Invokes d d' := by
  have hsame : ∃ d', s.deliveries[i]? = some d' ∧ Invokes d d' := ⟨d,hd,.inl rfl⟩
  have hadmission : ∀ caller event authority generation, ∃ d',
      (s.startAdmission caller event authority generation).deliveries[i]? = some d' ∧
        Invokes d d' := by
    intro caller event authority generation
    unfold startAdmission
    split <;> exact hsame
  cases action with
  | change change => exact hsame
  | admitOutside event authority generation => exact hadmission none event authority generation
  | admitFrom j subscription event authority generation =>
    rw [step, admitFrom]
    split
    · exact hsame
    · split_ifs
      · exact hadmission _ _ authority generation
      · exact hsame
  | reserve j =>
    rw [step, reserve, reserveDelivery_call]
    split
    · exact hsame
    · split_ifs <;> exact hsame
  | accept j spawned =>
    rw [step, accept]
    split
    · exact hsame
    · split_ifs
      · exact hsame
      · refine ⟨d,?_,.inl rfl⟩
        exact (List.getElem?_append_left (List.getElem?_eq_some_iff.mp hd).1).trans hd
      · exact hsame
  | check j => exact advance_invokes hd check_invokes
  | enter j => exact advance_invokes hd enter_invokes
  | handled j subscription outcome =>
    exact advance_invokes hd (handled_invokes s.admissions j subscription outcome)
  | leave j => exact advance_invokes hd leave_invokes
  | settle j => exact advance_invokes hd settle_invokes
  | release j => exact advance_invokes hd release_invokes

end System

section Results
variable {d : Delivery H}

theorem Delivery.invocation_eq_some {id : SubscriptionId} {invocation : Invocation}
    (h : d.invocation id = some invocation) : invocation.subscription = id ∧
      ∃ subscription, d.subscriptions.get? id = some subscription ∧
        invocation.authority = d.emitterAuthority.attenuate subscription.spec.maximumAuthority := by
  obtain ⟨subscription,hget,rfl⟩ := Option.map_eq_some_iff.mp h
  exact ⟨rfl,subscription,hget,rfl⟩

/-- Every subscription of a level is one of the delivery's, so its handler is found. -/
theorem Delivery.invocations (hvalid : Valid d.subscriptions) {levels : List (List SubscriptionId)}
    (hlevels : dependencyLevels d.subscriptions d.event.eventType d.event.version = .ok levels)
    {ids : List SubscriptionId} (hids : ids ⊆ levels.flatten) :
    (ids.filterMap d.invocation).map (·.subscription) = ids := by
  rw [List.map_filterMap]
  have hfound : ∀ id ∈ ids, (d.invocation id).map (·.subscription) = some id := by
    intro id hid
    obtain ⟨subscription,hget,-⟩ := (mem_dependencyLevels hvalid.keyed hlevels id).mp (hids hid)
    simp [Delivery.invocation, hget]
  exact (List.filterMap_congr hfound).trans (List.filterMap_some)

/-- All that a level waits for is done before it. -/
theorem Delivery.OnTrack.dependency_settled (hvalid : Valid d.subscriptions)
    {done : List (List SubscriptionId)} {level : List SubscriptionId} (h : d.OnTrack done [] [level])
    {id b : SubscriptionId} (hid : id ∈ level) (hb : DependsOn d.subscriptions id b) :
    b ∈ d.report.settled := by
  have hplanned := h.planned
  rw [append_assoc, List.singleton_append] at hplanned
  have hat : (done ++ level :: d.levels)[done.length]? = some level := by simp
  have hlisted : id ∈ (done ++ level :: d.levels).flatten :=
    mem_flatten.mpr ⟨level,by simp,hid⟩
  have hmem : b ∈ (done ++ level :: d.levels).flatten := by
    rw [mem_dependencyLevels hvalid.keyed hplanned] at hlisted ⊢
    obtain ⟨subscription,hget,htype,hversion⟩ := hlisted
    obtain ⟨source,hsource,hdependency⟩ := hb
    cases hget.symm.trans hsource
    obtain ⟨target,htarget,hsame⟩ := hvalid.closed id subscription hget b hdependency
    exact ⟨target,htarget,hsame.1.trans htype,hsame.2.trans hversion⟩
  obtain ⟨j,hj,earlier,hearlier,hbefore⟩ :=
    (levelsFrom_levelled hplanned).after done.length level hat id hid b hb hmem
  rw [h.reported.mem_iff]
  rw [List.getElem?_append_left hj] at hearlier
  exact mem_flatten.mpr ⟨earlier,mem_of_getElem? hearlier,hbefore⟩

end Results

/-- The levels of an event of a valid set hold its subscriptions once, each as early as its
dependencies allow. In every run a handler is invoked when the results of all its dependencies
are in the report, and a delivery that succeeds has invoked each handler once, under the
attenuated authority, and reports each once, with no failure that was to fail the delivery. -/
theorem deliveries_follow_levels :
    (∀ (subscriptions : Subscriptions H), Valid subscriptions → ∀ eventType eventVersion,
      ∃ levels, dependencyLevels subscriptions eventType eventVersion = .ok levels ∧
        Levelled subscriptions levels ∧
        (∀ id, id ∈ levels.flatten ↔ ∃ subscription, subscriptions.get? id = some subscription ∧
          subscription.spec.eventType = eventType ∧
            subscription.spec.eventVersion = eventVersion) ∧
        ∀ rank : SubscriptionId → ℕ, (∀ a b, DependsOn subscriptions a b → rank b < rank a) →
          ∀ (i : ℕ) level, levels[i]? = some level → ∀ id ∈ level, i ≤ rank id) ∧
    ∀ (deliveryCapacity : ℕ+) (actions : List (Action H)) (i : ℕ) (d : Delivery H),
      (runAll System.step (System.start deliveryCapacity) actions).deliveries[i]? = some d →
      Valid d.subscriptions ∧
      (∀ action d', ((runAll System.step (System.start deliveryCapacity) actions).step
          action).deliveries[i]? = some d' →
        ∃ invocations, d'.invoked = d.invoked ++ invocations ∧ ∀ invocation ∈ invocations,
          ∀ b, DependsOn d.subscriptions invocation.subscription b → b ∈ d.report.settled) ∧
      ∀ report, d.status = .succeeded report → ∃ levels,
        dependencyLevels d.subscriptions d.event.eventType d.event.version = .ok levels ∧
        (d.invoked.map (·.subscription)).Perm levels.flatten ∧
        report.settled.Perm levels.flatten ∧
        (∀ failure ∈ report.failures,
          Delivery.failurePolicy d.subscriptions failure.1 ≠ some .failDelivery) ∧
        ∀ invocation ∈ d.invoked, ∃ subscription,
          d.subscriptions.get? invocation.subscription = some subscription ∧
            invocation.authority =
              d.emitterAuthority.attenuate subscription.spec.maximumAuthority := by
  constructor
  · intro subscriptions hvalid eventType eventVersion
    obtain ⟨levels,hlevels⟩ := dependencyLevels_of_acyclic hvalid.acyclic eventType eventVersion
    have hlevelled := levelsFrom_levelled hlevels
    exact ⟨levels,hlevels,hlevelled,mem_dependencyLevels hvalid.keyed hlevels,
      fun rank hrank i level hi id hid => hlevelled.le_rank hrank hi hid⟩
  · intro deliveryCapacity actions i d hd
    have hunderway := System.run_underway deliveryCapacity actions
    obtain ⟨hvalid,hphase⟩ := hunderway.progress d (mem_of_getElem? hd)
    refine ⟨hvalid,?_,?_⟩
    · intro action d' hd'
      obtain ⟨_,hnext,hinvokes⟩ := System.step_invokes action hd
      cases hnext.symm.trans hd'
      rcases hinvokes with hsame | ⟨level,hlevel,hnew⟩
      · exact ⟨[],by simp [hsame],fun _ hmem => nomatch hmem⟩
      · refine ⟨_,hnew,fun invocation hinvocation b hb => ?_⟩
        rw [hlevel] at hphase
        obtain ⟨done,htrack⟩ := hphase
        obtain ⟨id,hid,hfound⟩ := List.mem_filterMap.mp hinvocation
        obtain ⟨rfl,-⟩ := Delivery.invocation_eq_some hfound
        exact htrack.dependency_settled hvalid hid hb
    · intro report hstatus
      have hended : d.levels = [] ∧ report = d.report ∧ ∃ done, d.OnTrack done [] [] := by
        unfold Delivery.status at hstatus
        split at hstatus
        · next hended =>
          rw [hended, hstatus] at hphase
          exact hphase
        · next hreleased =>
          rw [hreleased, hstatus] at hphase
          exact hphase
        · cases hstatus
      obtain ⟨hnil,rfl,done,htrack⟩ := hended
      have hplanned := htrack.planned
      have hinvoked := htrack.invoked
      rw [hnil, append_nil, append_nil] at hplanned
      rw [append_nil] at hinvoked
      refine ⟨done,hplanned,?_,htrack.reported,htrack.tolerated,fun invocation hmem => ?_⟩
      · rw [hinvoked, Delivery.invocations hvalid hplanned fun _ h => h]
      · rw [hinvoked] at hmem
        obtain ⟨id,-,hfound⟩ := List.mem_filterMap.mp hmem
        obtain ⟨rfl,hauthority⟩ := Delivery.invocation_eq_some hfound
        exact hauthority

end PhenixConductor.Events
