import PhenixConductor.Sdk.Observation
import PhenixConductor.Observable.Versions

/-! # What listeners get

Clients drive a store by its own calls and by the listen callables of the SDK.
-/
namespace PhenixConductor.Sdk
open Contract Collections Observable ObservableStore
open RegisteredValue (bump)

variable {H H' R : Type}

/-! ## Deliveries of the store -/

/-- The handler calls that a call makes after the lock is released. -/
def handled (store : ObservableStore H) : StoreCall H R → List (H × ObservationDelivery)
  | .subscribe spec handler =>
    match (store.subscribe spec handler).2 with
    | .ok (_,some delivery) => [(handler,delivery)]
    | _ => []
  | .transaction roots apply => (store.transaction roots apply).2.2
  | _ => []

/-- The counters that name deliveries have not stopped. -/
def Counting (store : ObservableStore H) (_ : StoreCall H R) : Prop :=
  store.state.nextCommit < u64Max ∧ store.state.nextObservation < u64Max

instance Counting.decidable (store : ObservableStore H) (call : StoreCall H R) :
    Decidable (Counting store call) :=
  inferInstanceAs (Decidable (_ ∧ _))

/-- Subscriptions have ids below the counter, and no version is out of range. -/
structure Numbered (state : StoreState H) : Prop where
  indexed : state.Indexed
  below : ∀ id entry, state.subscriptions.get? id = some entry → id < state.nextObservation
  version : ∀ value registered, state.values.get? value = some registered →
    registered.version ≤ u64Max

/-- What a delivery of a call is about, in the stores around the call. -/
structure DeliveredBy (store store' : ObservableStore H) (delivery : ObservationDelivery) :
    Prop where
  /-- An initial delivery has a new observation, any other a new commit. -/
  named : match delivery.commit with
    | none => delivery.observation = store.state.nextObservation ∧
      store'.state.nextObservation = saturatingSucc store.state.nextObservation ∧
      delivery.changes = []
    | some commit => commit = store.state.nextCommit ∧
      store'.state.nextCommit = saturatingSucc store.state.nextCommit ∧
      delivery.observation < store.state.nextObservation
  /-- The value that the root holds after the call. -/
  current : ∃ registered, store'.state.values.get? delivery.address.value = some registered ∧
    delivery.version = registered.version ∧ delivery.fromVersion ≤ registered.version ∧
    ∀ snapshot, delivery.snapshot = some snapshot → snapshot = registered.current

namespace Numbered

theorem default : Numbered (StoreState.default : StoreState H) where
  indexed := .default
  below id entry h := by simp [StoreState.default] at h
  version value registered h := by simp [StoreState.default] at h

theorem freshId {state : StoreState H} (h : Numbered state) : state.FreshId := by
  cases hs : state.subscriptions.get? state.nextObservation with
  | none => exact hs
  | some entry => exact absurd (h.below _ entry hs) (lt_irrefl _)

end Numbered

/-- A written version stays in range, and everything else is left alone. -/
theorem version_write {state : StoreState H} {value : ValueId} {changed : RegisteredValue}
    (h : ∀ v r, state.values.get? v = some r → r.version ≤ u64Max) (hc : changed.version ≤ u64Max) :
    ∀ v r, (state.write value changed).values.get? v = some r → r.version ≤ u64Max := by
  intro v r hr
  rw [StoreState.get?_write] at hr
  split_ifs at hr
  · cases hr
    exact hc
  · exact h v r hr

theorem saturatingSucc_le (n : ℕ) : saturatingSucc n ≤ u64Max := min_le_right _ _

theorem le_saturatingSucc {n : ℕ} (h : n ≤ u64Max) : n ≤ saturatingSucc n :=
  le_min (Nat.le_succ n) h

variable {store : ObservableStore H}

theorem transactionLocked_version
    (h : ∀ v r, store.state.values.get? v = some r → r.version ≤ u64Max) (roots : List ValueId)
    (apply : TransactionScript R) : ∀ v r,
    (store.transactionLocked roots apply).1.state.values.get? v = some r → r.version ≤ u64Max :=
  transactionLocked_invariant
    (P := fun state : StoreState H => ∀ v r, state.values.get? v = some r → r.version ≤ u64Max)
    (fun _ value registered _ hs hr => version_write hs (hs value registered hr))
    (fun _ _ _ hs _ => version_write hs (saturatingSucc_le _)) (fun _ hs => hs) h roots apply

theorem dropSubscription_nextObservation (id : ObservationId) (entry : SubscriptionEntry H)
    (state : StoreState H) :
    (dropSubscription id entry state).nextObservation = state.nextObservation := by
  unfold dropSubscription
  dsimp only
  split <;> rfl

/-- While its counter runs, every call of subscribe numbers its subscription anew. -/
theorem Numbered.step (h : Numbered store.state) (call : StoreCall H R)
    (hcounting : ∀ spec handler, call = .subscribe spec handler → store.state.nextObservation < u64Max) :
    Numbered (store.step call).state := by
  have hfresh : store.FreshSubscribe call := by
    cases call with
    | subscribe spec handler => exact fun _ _ => h.freshId
    | _ => trivial
  have hindexed := store.step_indexed call h.indexed hfresh
  suffices hrest : (∀ id entry, (store.step call).state.subscriptions.get? id = some entry →
      id < (store.step call).state.nextObservation) ∧
      ∀ v r, (store.step call).state.values.get? v = some r → r.version ≤ u64Max from
    ⟨hindexed,hrest.1,hrest.2⟩
  have heffect := store.step_effect call
  generalize (store.step call).state = state' at heffect ⊢
  cases heffect with
  | none => exact ⟨h.below,h.version⟩
  | register => exact ⟨h.below,version_write h.version (Nat.zero_le _)⟩
  | unregister value =>
    constructor
    · intro id entry he
      rw [BTreeMap.get?_foldl_erase] at he
      split_ifs at he
      exact h.below id entry he
    · intro v r hr
      simp only [BTreeMap.get?_erase] at hr
      split_ifs at hr
      exact h.version v r hr
  | @subscribe spec handler =>
    refine ⟨fun id entry he => ?_,h.version⟩
    have hnext : (admitSubscription spec handler store.state).nextObservation =
        store.state.nextObservation + 1 := saturatingSucc_of_lt (hcounting spec handler rfl)
    rw [hnext]
    change (store.state.subscriptions.insert _ _).get? id = _ at he
    rw [BTreeMap.get?_insert] at he
    split_ifs at he with hid
    · exact hid ▸ Nat.lt_succ_self _
    · exact Nat.lt_succ_of_lt (h.below id entry he)
  | unsubscribe =>
    constructor
    · intro id e he
      rw [StoreState.dropSubscription_subscriptions, BTreeMap.get?_erase] at he
      split_ifs at he
      rw [dropSubscription_nextObservation]
      exact h.below id e he
    · rw [dropSubscription_values]
      exact h.version
  | close => exact ⟨fun id entry he => by simp at he,h.version⟩
  | transaction roots apply =>
    obtain ⟨hsubs,hnext⟩ := transactionLocked_subscriptions store roots apply
    refine ⟨fun id entry he => ?_,transactionLocked_version h.version roots apply⟩
    rw [hnext]
    exact h.below id entry (hsubs ▸ he)

variable {prepared : List (PreparedRoot H)}

/-- The snapshot of a prepared root is the value that the state then holds. -/
theorem prepareRoots_snapshots {commit : CommitId} {state state' : StoreState H}
    {canonical : List (ValueId × List ValueChange)}
    (h : prepareRoots commit state canonical = (state',.ok prepared)) :
    ∀ root ∈ prepared, ∃ registered, state'.values.get? root.value = some registered ∧
      ∀ snapshot, root.snapshot = some snapshot → snapshot = registered.current := by
  induction canonical generalizing state prepared with
  | nil =>
    cases h
    simp
  | cons entry canonical ih =>
    obtain ⟨value,changes⟩ := entry
    unfold prepareRoots at h
    cases hr : state.values.get? value with
    | none => simp [hr] at h
    | some registered =>
      simp only [hr] at h
      cases hd : prepareDeliveries (state.write value registered.bump) value registered.bump
          changes with
      | error error =>
        simp only [bump] at hd
        simp [hd] at h
      | ok deliveries =>
        simp only [bump] at hd
        simp only [hd, Prod.mk.injEq] at h
        obtain ⟨hstate,hres⟩ := h
        cases hrest : (prepareRoots commit (state.write value registered.bump) canonical).2 with
        | error failure =>
          simp only [bump] at hrest
          rw [hrest] at hres
          cases hres
        | ok rest =>
          have hall := ih (Prod.ext hstate hrest)
          simp only [bump] at hrest
          rw [hrest] at hres
          cases hres
          -- the bumps after this one leave its current value alone
          have hkeep := prepareRoots_invariant (P := fun s : StoreState H => ∃ r,
              s.values.get? value = some r ∧ r.current = registered.current)
            (fun s v r hs hv => by
              obtain ⟨found,hf,hcurrent⟩ := hs
              rw [StoreState.get?_write]
              split_ifs with he
              · subst he
                cases hf.symm.trans hv
                exact ⟨_,rfl,hcurrent⟩
              · exact ⟨found,hf,hcurrent⟩) commit canonical
            (⟨registered.bump,by simp,rfl⟩ : ∃ r,
              (state.write value registered.bump).values.get? value = some r ∧
                r.current = registered.current)
          rw [show (prepareRoots commit (state.write value registered.bump) canonical).1 = state' from
            hstate] at hkeep
          intro root hroot
          rcases List.mem_cons.mp hroot with rfl | hroot
          · obtain ⟨found,hf,hcurrent⟩ := hkeep
            refine ⟨found,hf,fun snapshot hs => ?_⟩
            dsimp only at hs
            split_ifs at hs
            cases hs
            exact hcurrent.symm
          · exact hall root hroot

theorem transactionLocked_snapshots {store' : ObservableStore H} {roots : List ValueId}
    {apply : TransactionScript R} {output : R}
    (h : store.transactionLocked roots apply = (store',.ok (output,prepared))) :
    ∀ root ∈ prepared, ∃ registered, store'.state.values.get? root.value = some registered ∧
      ∀ snapshot, root.snapshot = some snapshot → snapshot = registered.current := by
  have ho := store.transactionLocked_outcome roots apply
  rw [h] at ho
  cases ho with
  | committed _ _ _ hf =>
    unfold finish at hf
    split at hf
    · cases hf
    · cases hf
      simp
    · exact prepareRoots_snapshots hf

/-- Every delivery of a call is numbered by the call and shows the value it leaves. -/
theorem delivered_of_handled {call : StoreCall H R} (h : Numbered store.state) :
    ∀ o ∈ handled store call, DeliveredBy store (store.step call) o.2 := by
  intro o ho
  cases call with
  | subscribe spec handler =>
    simp only [handled] at ho
    split at ho
    · rename_i handle delivery hs
      cases List.mem_singleton.mp ho
      have hbody := locked_eq_ok (show (store.locked _).2 = _ from hs)
      obtain ⟨registered,hr,-,hstate,-,hinitial⟩ := subscribeBody_eq_ok hbody
      have hstep : (store.step (.subscribe (R := R) spec handler)).state =
        admitSubscription spec handler store.state := hstate
      unfold ObservableStore.initialDelivery at hinitial
      split_ifs at hinitial
      cases hinitial
      refine ⟨⟨rfl,by rw [hstep]; rfl,rfl⟩,registered,by rw [hstep]; exact hr,rfl,le_rfl,?_⟩
      rintro snapshot ⟨⟩
      rfl
    · cases ho
  | transaction roots apply =>
    simp only [handled, transaction] at ho
    obtain ⟨⟨store',result⟩,hr⟩ : ∃ r, store.transactionLocked roots apply = r := ⟨_,rfl⟩
    simp only [step, hr] at ho ⊢
    cases result with
    | error failure => cases ho
    | ok result =>
      obtain ⟨canonical,hc⟩ := transactionLocked_eq_ok hr
      obtain ⟨root,hroot,hd⟩ := List.mem_flatMap.mp ho
      obtain ⟨admitted,hadmitted,rfl⟩ := List.mem_map.mp hd
      obtain ⟨hcommit,hne⟩ := hc.commit_eq hroot
      obtain ⟨found,hfound,hsnapshot⟩ := transactionLocked_snapshots hr root hroot
      obtain ⟨entry,hentry,registered,hp⟩ := Forall₂.exists_left hc.prepares hroot
      obtain ⟨live,hlive,hvalue⟩ := hc.delivered_value h.indexed hroot
        (List.mem_map.mpr ⟨admitted,hadmitted,rfl⟩)
      obtain ⟨id,-,hget,-,-⟩ := mem_prepareDeliveries hp.deliveries_eq hadmitted
      have hkeeps := (apply.run_performs (store.start roots)).keeps
      have hid : admitted.entry.id = id := by
        refine h.indexed.entry_id id _ ?_
        rw [← hget, hkeeps.1]
        rfl
      have hget' : store.state.subscriptions.get? admitted.entry.id = some admitted.entry := by
        rw [hid, ← hget, hkeeps.1]
        rfl
      obtain rfl : admitted.entry = live := Option.some.inj (hget'.symm.trans hlive)
      have hversion : root.version = found.version := by
        have hv := hc.values root.value
        rw [hfound, hp.value_eq, if_pos (List.mem_map.mpr ⟨entry,hentry,rfl⟩), hp.registered_eq] at hv
        rw [hp.version_eq, Option.some.inj hv]
      refine ⟨⟨hcommit,hc.nextCommit.trans (if_neg hne),h.below _ _ hget'⟩,found,?_,hversion,?_,?_⟩
      · exact hvalue ▸ hfound
      · have hrun := (apply.run_performs (store.start roots)).invariant
          (P := fun state : StoreState H => ∀ v r, state.values.get? v = some r →
            r.version ≤ u64Max)
          (fun _ value r _ _ _ _ hs hr _ => version_write hs (hs value r hr)) h.version
        change root.fromVersion ≤ found.version
        rw [hp.fromVersion_eq, ← hversion, hp.version_eq]
        exact le_saturatingSucc (hrun _ _ hp.registered_eq)
      · intro snapshot hs
        simp only [PreparedRoot.delivery] at hs
        split_ifs at hs
        exact hsnapshot snapshot hs
  | _ => cases ho

/-! ## Names of deliveries -/

/-- A delivery is named by its commit and its observation. -/
def deliveryName (delivery : ObservationDelivery) : Option CommitId × ObservationId :=
  (delivery.commit,delivery.observation)

/-- The counters have gone past a name. -/
def UsedName (name : Option CommitId × ObservationId) (store : ObservableStore H) : Prop :=
  match name.1 with
  | none => name.2 < store.state.nextObservation
  | some commit => commit < store.state.nextCommit

theorem step_nextObservation (store : ObservableStore H) (call : StoreCall H R) :
    store.state.nextObservation ≤ u64Max →
    store.state.nextObservation ≤ (store.step call).state.nextObservation := by
  intro hle
  have heffect := store.step_effect call
  generalize (store.step call).state = state' at heffect ⊢
  cases heffect with
  | subscribe => exact le_saturatingSucc hle
  | unsubscribe => rw [dropSubscription_nextObservation]
  | transaction roots apply => exact (transactionLocked_subscriptions store roots apply).2.ge
  | _ => exact le_rfl

/-- The deliveries of one call have names of their own. -/
theorem nodup_handled (call : StoreCall H R) (h : Numbered store.state) :
    ((handled store call).map fun o => deliveryName o.2).Nodup := by
  cases call with
  | subscribe spec handler =>
    simp only [handled]
    split
    · exact List.nodup_singleton _
    · exact List.nodup_nil
  | transaction roots apply =>
    simp only [handled, transaction]
    obtain ⟨⟨store',result⟩,hr⟩ : ∃ r, store.transactionLocked roots apply = r := ⟨_,rfl⟩
    rw [hr]
    cases result with
    | error failure => exact List.nodup_nil
    | ok result =>
      obtain ⟨output,prepared⟩ := result
      obtain ⟨canonical,hc⟩ := transactionLocked_eq_ok hr
      have hobservations := hc.nodup_observations h.indexed
      exact List.Nodup.of_map (Prod.snd) (by simpa [Function.comp_def, deliveryName] using hobservations)
  | _ => exact List.nodup_nil

/-! ## Runs of a store with listeners -/

/-- The call with handlers of another type. -/
def mapHandler (f : H → H') : StoreCall H R → StoreCall H' R
  | .register registration => .register registration
  | .unregister value => .unregister value
  | .subscribe spec handler => .subscribe spec (f handler)
  | .unsubscribe subscription => .unsubscribe subscription
  | .close => .close
  | .transaction roots apply => .transaction roots apply

/-- A call of the listen callable of a resource, or of the store. -/
inductive SdkCall (H R : Type) where
  | listen (base : ValueAddress) (input : PhenixValue)
  | store (call : StoreCall H R)

/-- What reaches the store. The handler that listen installs is known by its listener;
an input that does not parse gets no further. -/
def SdkCall.storeCall : SdkCall H R → Option (StoreCall (CallableRef ⊕ H) R)
  | .listen base input => (listenRequest input).toOption.map fun request =>
    .subscribe (request.spec base) (.inl request.listener)
  | .store call => some (mapHandler .inr call)

/-- The calls of a history that reach the store. -/
def storeCalls (calls : List (SdkCall H R)) : List (StoreCall (CallableRef ⊕ H) R) :=
  calls.filterMap SdkCall.storeCall

/-- The listener of a handler call that listen installed, and its delivery. -/
def listenerDelivery : (CallableRef ⊕ H) × ObservationDelivery →
    Option (CallableRef × ObservationDelivery)
  | (.inl listener,delivery) => some (listener,delivery)
  | (.inr _,_) => none

/-- The deliveries to SDK listeners in a history, in order. -/
def sdkDeliveries (calls : List (SdkCall H R)) : List (CallableRef × ObservationDelivery) :=
  (outputs ObservableStore.step handled .default (storeCalls calls)).filterMap listenerDelivery

/-- No handler panics, every value that a listener gets has the delivery schema, and
deliveries of one value agree. -/
structure WellFormed (deliveries : List (CallableRef × ObservationDelivery)) : Prop where
  parses : ∀ o ∈ deliveries, ∃ value, observationDeliveryValue o.2 = .ok value ∧
    observableDeliverySchema.parse value = .ok ()
  apart : ∀ o ∈ deliveries, ∀ p ∈ deliveries, ∀ value,
    observationDeliveryValue o.2 = .ok value → observationDeliveryValue p.2 = .ok value →
    o.2.address = p.2.address ∧ o.2.fromVersion = p.2.fromVersion ∧
      o.2.version = p.2.version ∧ o.2.commit = p.2.commit ∧ o.2.changes = p.2.changes

/-- Every address that a listener is sent the full value of is present in the value
that its root holds after the call. -/
def Present (store : ObservableStore (CallableRef ⊕ H)) (call : StoreCall (CallableRef ⊕ H) R) :
    Prop :=
  ∀ listener delivery, (Sum.inl listener,delivery) ∈ handled store call →
    delivery.snapshot.isSome → ∃ registered,
      (store.step call).state.values.get? delivery.address.value = some registered ∧
        (valueAtOptional registered.current delivery.address.path).isSome

variable {delivery : ObservationDelivery}

theorem DeliveredBy.inRange {call : StoreCall H R}
    (h : DeliveredBy store (store.step call) delivery) (hn : Numbered store.state)
    (hcounting : Counting store call) : InRange delivery := by
  obtain ⟨registered,hr,hversion,hfrom,-⟩ := h.current
  have hle := (hn.step call fun _ _ _ => hcounting.2).version _ registered hr
  have hnamed := h.named
  obtain ⟨hcommit,hobservation⟩ := hcounting
  cases hc : delivery.commit with
  | none =>
    simp only [hc] at hnamed
    exact ⟨by simp [hc],hfrom.trans hle,hversion ▸ hle,hnamed.1 ▸ hobservation.le⟩
  | some commit =>
    simp only [hc] at hnamed
    refine ⟨?_,hfrom.trans hle,hversion ▸ hle,(hnamed.2.2.trans hobservation).le⟩
    rintro id hid
    cases hc ▸ hid
    exact hnamed.1 ▸ hcommit.le

/-- The names of a run's deliveries, while its counters run. -/
theorem nodup_names {calls : List (StoreCall H R)}
    (h : Along step Counting (.default : ObservableStore H) calls) :
    ((outputs step handled .default calls).map fun o => deliveryName o.2).Nodup := by
  refine (h.nodup_outputs (I := fun store => Numbered store.state) (U := UsedName)
    (fun _ call hn hc => hn.step call fun _ _ _ => hc.2) (fun _ call hn _ => nodup_handled call hn) ?_ ?_ ?_ .default).1
  · intro store call hn _ o ho hused
    have hnamed := (delivered_of_handled hn o ho).named
    unfold UsedName deliveryName at hused
    cases hc : o.2.commit with
    | none =>
      simp only [hc] at hnamed hused
      exact absurd hnamed.1 hused.ne
    | some commit =>
      simp only [hc] at hnamed hused
      exact absurd hnamed.1 hused.ne
  · intro store call hn hcounting o ho
    have hnamed := (delivered_of_handled hn o ho).named
    unfold UsedName deliveryName
    cases hc : o.2.commit with
    | none =>
      simp only [hc] at hnamed ⊢
      rw [hnamed.1, hnamed.2.1, saturatingSucc_of_lt hcounting.2]
      exact Nat.lt_succ_self _
    | some commit =>
      simp only [hc] at hnamed ⊢
      rw [hnamed.1, hnamed.2.1, saturatingSucc_of_lt hcounting.1]
      exact Nat.lt_succ_self _
  · rintro store call ⟨commit,observation⟩ - hcounting hused
    cases commit with
    | none => exact lt_of_lt_of_le hused (step_nextObservation store call hcounting.2.le)
    | some commit =>
      have hle : store.state.nextCommit ≤ (store.step call).state.nextCommit := by
        rcases store.step_nextCommit call with hnext | hnext
        · exact hnext.ge
        · exact hnext ▸ le_saturatingSucc hcounting.1.le
      exact lt_of_lt_of_le hused hle

theorem mem_sdkDeliveries {calls : List (SdkCall H R)} {listener : CallableRef} :
    (listener,delivery) ∈ sdkDeliveries calls ↔
      (Sum.inl listener,delivery) ∈
        outputs step handled .default (storeCalls calls) := by
  rw [sdkDeliveries, List.mem_filterMap]
  constructor
  · rintro ⟨⟨handler,found⟩,hfound,heq⟩
    cases handler with
    | inl other =>
      cases heq
      exact hfound
    | inr other => cases heq
  · exact fun h => ⟨_,h,rfl⟩

/-- A call makes a listener's handler panic exactly if an address that it sends the full
value of is absent. -/
theorem present_iff {store : ObservableStore (CallableRef ⊕ H)}
    {call : StoreCall (CallableRef ⊕ H) R} (h : Numbered store.state) :
    Present store call ↔ ∀ o ∈ handled store call, ∀ listener, o.1 = .inl listener →
      ∃ value, observationDeliveryValue o.2 = .ok value := by
  constructor
  · rintro hpresent ⟨handler,delivery⟩ ho listener rfl
    rw [observationDeliveryValue_eq_ok_iff]
    intro snapshot hsnapshot
    obtain ⟨registered,hr,hsome⟩ := hpresent listener delivery ho (by rw [hsnapshot]; rfl)
    obtain ⟨found,hf,-,-,hcurrent⟩ := (delivered_of_handled h _ ho).current
    cases hr.symm.trans hf
    rw [hcurrent snapshot hsnapshot]
    exact hsome
  · intro hall listener delivery ho hsnapshot
    obtain ⟨snapshot,hs⟩ := Option.isSome_iff_exists.mp hsnapshot
    obtain ⟨found,hf,-,-,hcurrent⟩ := (delivered_of_handled h _ ho).current
    refine ⟨found,hf,?_⟩
    rw [← hcurrent snapshot hs]
    exact (observationDeliveryValue_eq_ok_iff delivery).mp
      (hall (.inl listener,delivery) ho listener rfl) snapshot hs

/-- While the counters run, listeners get well-formed deliveries if and only if every
address that one is sent the full value of is present in the value of its root. -/
theorem listeners_well_formed (calls : List (SdkCall H R))
    (hcounting : Along ObservableStore.step Counting .default (storeCalls calls)) :
    WellFormed (sdkDeliveries calls) ↔
      Along ObservableStore.step Present .default (storeCalls calls) := by
  have hstep : ∀ (store : ObservableStore (CallableRef ⊕ H)) (call : StoreCall (CallableRef ⊕ H) R),
      Numbered store.state → Counting store call → Numbered (store.step call).state :=
    fun _ call hn hc => hn.step call fun _ _ _ => hc.2
  rw [hcounting.iff_outputs hstep (fun _ _ hn _ => present_iff hn) .default]
  constructor
  · rintro hwell ⟨handler,delivery⟩ ho listener rfl
    obtain ⟨value,hvalue,-⟩ := hwell.parses _ (mem_sdkDeliveries.mpr ho)
    exact ⟨value,hvalue⟩
  · intro hall
    constructor
    · rintro ⟨listener,delivery⟩ ho
      obtain ⟨value,hvalue⟩ := hall _ (mem_sdkDeliveries.mp ho) listener rfl
      exact ⟨value,hvalue,parse_observationDeliveryValue hvalue⟩
    · rintro ⟨listener,d⟩ hd ⟨listener',e⟩ he value hvalue hvalue'
      have hrange := hcounting.outputs (P := fun o => InRange o.2) hstep
        (fun _ _ hn hc o ho => (delivered_of_handled hn o ho).inRange hn hc) .default
      have hd' := mem_sdkDeliveries.mp hd
      have he' := mem_sdkDeliveries.mp he
      obtain ⟨haddress,hcommit,hfrom,hversion,hobservation,-,hchanges⟩ :=
        observationDeliveryValue_inj (hrange _ hd') (hrange _ he') hvalue hvalue'
      refine ⟨haddress,hfrom,hversion,hcommit,?_⟩
      cases hs : d.snapshot with
      | none => exact hchanges hs
      | some snapshot =>
        -- a full value does not tell the changes, but its delivery is named by the rest
        have hsame := List.inj_on_of_nodup_map (nodup_names hcounting) hd' he'
          (Prod.ext hcommit hobservation)
        exact congrArg (fun o => o.2.changes) hsame

instance Present.decidable (store : ObservableStore (CallableRef ⊕ H))
    (call : StoreCall (CallableRef ⊕ H) R) : Decidable (Present store call) :=
  decidable_of_iff (∀ o ∈ handled store call, o.1.isLeft → o.2.snapshot.isSome →
      ((store.step call).state.values.get? o.2.address.value).any fun registered =>
        (valueAtOptional registered.current o.2.address.path).isSome) <| by
    simp only [Option.any_eq_true]
    exact ⟨fun h listener delivery ho => h _ ho rfl,fun h o ho hleft => by
      obtain ⟨handler,delivery⟩ := o
      obtain ⟨listener,rfl⟩ := Sum.isLeft_iff.mp hleft
      exact h listener delivery ho⟩

/-! ## Examples of both kinds -/

def valuesRoot : ValueId := ⟨"values",by decide⟩
def valuesOwner : PluginId := ⟨"values-owner",by decide⟩

def clientListener : CallableRef :=
  ⟨deliveryContract,.client ⟨"client",by decide⟩,⟨"generation",by decide⟩,⟨"listener",by decide⟩⟩

theorem initial_valid : validateKey "initial" = .ok () := by decide
theorem listener_valid : validateKey "listener" = .ok () := by decide
theorem mode_valid : validateKey "mode" = .ok () := by decide
theorem path_valid : validateKey "path" = .ok () := by decide
theorem scope_valid : validateKey "scope" = .ok () := by decide
theorem exact_valid : validateKey "exact" = .ok () := by decide
theorem full_valid : validateKey "full" = .ok () := by decide
theorem diff_valid : validateKey "diff" = .ok () := by decide

/-- The input of listen for the key `x` of a map. -/
def listenToX (mode initial : Key) : PhenixValue :=
  .table (.ofList
    [(key "initial" initial_valid,.variant initial .unit),
     (key "listener" listener_valid,.callable clientListener),
     (key "mode" mode_valid,.variant mode .unit),
     (key "path" path_valid,observablePathValue [.mapKey "x"]),
     (key "scope" scope_valid,.variant (key "exact" exact_valid) .unit)])

/-- A listener that asks for the value of a key that the registered map does not have. -/
def absentKey : List (SdkCall Unit Unit) :=
  [.store (.register ⟨valuesRoot,valuesOwner,.map .u64,.copyOnChange,.map .empty⟩),
   .listen ⟨valuesRoot,[]⟩ (listenToX (key "diff" diff_valid) (key "full" full_valid))]

/-- A listener to the full value of a key, and the calls of a transaction. -/
def keptKey (calls : List MutationCall) : List (SdkCall Unit Unit) :=
  [.store (.register ⟨valuesRoot,valuesOwner,.map .u64,.copyOnChange,.map (.ofList [("x",.u64 1)])⟩),
   .listen ⟨valuesRoot,[]⟩ (listenToX (key "full" full_valid) (key "full" full_valid)),
   .store (.transaction [valuesRoot] (performAll calls))]

theorem listeners_well_formed_replace :
    WellFormed (sdkDeliveries (keptKey [.replace valuesRoot [.mapKey "x"] (.u64 2)])) :=
  (listeners_well_formed _ (by decide +kernel)).mpr (by decide +kernel)

/-- The handler panics at the first delivery if the key is absent, and at a later one if
a transaction removes the key. -/
theorem listener_panics : ¬ WellFormed (sdkDeliveries absentKey) ∧
    ¬ WellFormed (sdkDeliveries (keptKey [.remove valuesRoot [.mapKey "x"]])) := by
  have hpanics : ∀ deliveries : List (CallableRef × ObservationDelivery),
      (deliveries.any fun o => !(observationDeliveryValue o.2).isOk) = true →
      ¬ WellFormed deliveries := by
    intro deliveries hany hwell
    obtain ⟨o,ho,hpanic⟩ := List.any_eq_true.mp hany
    obtain ⟨value,hvalue,-⟩ := hwell.parses o ho
    simp [hvalue, Except.isOk, Except.toBool] at hpanic
  exact ⟨hpanics _ (by decide +kernel),hpanics _ (by decide +kernel)⟩

end PhenixConductor.Sdk
