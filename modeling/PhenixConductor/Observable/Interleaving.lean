import PhenixConductor.Observable.Delivery
import PhenixConductor.Collections.Threads

/-! # Concurrent calls of the store

The locked part of a call is atomic; its handler calls come later, one at a time, between those
of other calls.
-/
namespace PhenixConductor.Observable
open Contract Collections ObservableStore Threads List

variable {H R : Type}

/-- The locked part of a call, with the handler calls that it leaves to be made. -/
def ObservableStore.enter (store : ObservableStore H) :
    StoreCall H R → ObservableStore H × List (H × ObservationDelivery)
  | .subscribe spec handler =>
    match store.subscribe spec handler with
    | (store,.ok (_,some initial)) => (store,[(handler,initial)])
    | (store,_) => (store,[])
  | .transaction roots apply =>
    let outcome := store.transaction roots apply
    (outcome.1,outcome.2.2)
  | call => (store.step call,[])

/-- The store with the threads of its clients. -/
abbrev StoreThreads (H : Type) := Threads (ObservableStore H) (H × ObservationDelivery)

namespace StoreThreads

/-- No thread yet, after a history of calls. -/
def start (calls : List (StoreCall H R)) : StoreThreads H := ⟨.after calls,[],[]⟩

def step (threads : StoreThreads H) (step : ThreadStep (StoreCall H R)) : StoreThreads H :=
  Threads.step enter threads step

def run (threads : StoreThreads H) (steps : List (ThreadStep (StoreCall H R))) : StoreThreads H :=
  runAll step threads steps

/-- The handler calls admitted by the transactions of a run. -/
def admitted (threads : StoreThreads H) (steps : List (ThreadStep (StoreCall H R))) :
    List (H × ObservationDelivery) :=
  outputs step (Threads.admitted enter) threads steps

end StoreThreads

/-- The handler calls of an observation. -/
def callsTo (id : ObservationId) (calls : List (H × ObservationDelivery)) :
    List (H × ObservationDelivery) :=
  calls.filter fun call => call.2.observation = id

/-- A transaction takes the lock, or a thread calls a handler. -/
def Concurrent : ThreadStep (StoreCall H R) → Prop
  | .enter (.transaction _ _) | .invoke _ => True
  | .enter _ => False

/-! ## What a transaction does to a subscription -/

theorem ObservableStore.transaction_cases (store : ObservableStore H) (roots : List ValueId)
    (apply : TransactionScript R) (hi : store.state.Indexed) :
    (store.transaction roots apply).1.state.Indexed ∧
    (store.transaction roots apply).1.state.subscriptions = store.state.subscriptions ∧
    ((store.transaction roots apply).2.2 = [] ∧
        ((store.transaction roots apply).1.poisoned = true ∨
          (store.transaction roots apply).1 = store) ∨
      store.poisoned = false ∧ ∃ prepared canonical,
        Commits store roots apply (store.transaction roots apply).1 prepared canonical ∧
        (store.transaction roots apply).2.2 = handlerCalls prepared) := by
  have hindexed := hi.transactionLocked roots apply
  have hrun : (apply.run (store.start roots)).1.state.subscriptions = store.state.subscriptions :=
    (apply.run_performs (store.start roots)).keeps.1
  have hfinish : (finish (apply.run (store.start roots)).1).1.subscriptions =
      store.state.subscriptions := by
    have hc := congrArg StoreState.subscriptions (finish_contents (apply.run (store.start roots)).1)
    exact hc.trans hrun
  have ho := store.transactionLocked_outcome roots apply
  have hcommits : ∀ store' output prepared,
      store.transactionLocked roots apply = (store',.ok (output,prepared)) →
      ∃ canonical, Commits store roots apply store' prepared canonical :=
    fun _ _ _ h => transactionLocked_eq_ok h
  unfold transaction
  generalize store.transactionLocked roots apply = result at hindexed ho hcommits ⊢
  obtain ⟨store',outcome⟩ := result
  cases ho with
  | unchanged failure => exact ⟨hindexed,rfl,.inl ⟨rfl,.inr rfl⟩⟩
  | spoiled _ hf hc _ =>
    have htx : (apply.run (store.start roots)).1.state.Indexed :=
      StoreState.Indexed.performs (show (store.start roots).state.Indexed from hi)
        (apply.run_performs _)
    exact absurd (htx.finish_same hf) hc
  | panicked hs =>
    have hsubs := congrArg StoreState.subscriptions hs
    exact ⟨hindexed,hsubs.trans hrun,.inl ⟨rfl,.inl rfl⟩⟩
  | @committed state output prepared hopen _ _ hf =>
    obtain ⟨canonical,hcan⟩ := hcommits _ _ _ rfl
    refine ⟨hindexed,?_,.inr ⟨hopen,prepared,canonical,hcan,rfl⟩⟩
    rw [hf] at hfinish
    exact hfinish

/-- A live subscription to a root whose version is at least `version`. -/
structure Watching (id : ObservationId) (entry : SubscriptionEntry H) (version : ValueVersion)
    (store : ObservableStore H) : Prop where
  indexed : store.state.Indexed
  live : store.state.subscriptions.get? id = some entry
  registered : store.poisoned = false → ∃ registered,
    store.state.values.get? entry.spec.address.value = some registered ∧
      version ≤ registered.version

/-- All changes of a root are for a recursive subscription to it. -/
theorem changesForSubscription_whole {spec : ObservationSpec} (hscope : spec.scope = .recursive)
    (hpath : spec.address.path = []) {changes : List ValueChange} (hne : changes ≠ [])
    (current : PhenixValue) : changesForSubscription spec changes current ≠ [] := by
  have habove : ∀ change : ValueChange, spec.above change.path = false := by
    intro change
    rw [Bool.eq_false_iff, ne_eq, spec.above_iff, hpath]
    exact fun hb => hb.2 (prefix_nil.mp hb.1)
  obtain ⟨change,hchange⟩ := exists_mem_of_ne_nil _ hne
  have hany : ¬ (changes.any fun change => spec.above change.path) = true := by
    simp [habove]
  rw [changesForSubscription, if_neg hany]
  refine ne_nil_of_mem (a := rebaseChange change.path change)
    (mem_filterMap.mpr ⟨change,hchange,?_⟩)
  have hstarts : change.path.startsWith [] = true := rfl
  simp [ObservationSpec.rebase, ObservationSpec.matches, hscope, hpath, habove, hstarts,
    ValuePath.relativeTo]

variable {store : ObservableStore H} {id : ObservationId} {entry : SubscriptionEntry H}

/-- A commit calls a subscription with the next version of its root. -/
theorem Commits.call_version {store' : ObservableStore H} {roots : List ValueId}
    {apply : TransactionScript R} {prepared : List (PreparedRoot H)}
    {canonical : List (ValueId × List ValueChange)}
    (h : Commits store roots apply store' prepared canonical) (hi : store.state.Indexed)
    (he : store.state.subscriptions.get? id = some entry) {registered : RegisteredValue}
    (hr : (apply.run (store.start roots)).1.state.values.get? entry.spec.address.value = some registered) :
    ∀ call ∈ handlerCalls prepared, call.2.observation = id →
      call.2.version = saturatingSucc registered.version ∧ call.2.commit.isSome = true := by
  intro call hcall hid
  obtain ⟨root,hroot,hmem⟩ := mem_flatMap.mp hcall
  obtain ⟨delivery,hd,rfl⟩ := mem_map.mp hmem
  obtain ⟨entry',he',hvalue⟩ :=
    h.delivered_value hi hroot (mem_map.mpr ⟨delivery,hd,hid⟩)
  obtain rfl : entry = entry' := Option.some.inj (he.symm.trans he')
  obtain ⟨⟨v,changes⟩,-,registered',hp⟩ := Forall₂.exists_left h.prepares hroot
  have hreg := hp.registered_eq
  rw [show v = entry.spec.address.value from hp.value_eq.symm.trans hvalue.symm] at hreg
  obtain rfl : registered = registered' := Option.some.inj (hr.symm.trans hreg)
  exact ⟨hp.version_eq,rfl⟩

variable {version : ValueVersion}

/-- A transaction keeps the subscription, and calls it with greater versions only. -/
theorem Watching.transaction (h : Watching id entry version store) (roots : List ValueId)
    (apply : TransactionScript R)
    (hv : ∀ registered, store.state.values.get? entry.spec.address.value = some registered → registered.version < u64Max) :
    Watching id entry version (store.transaction roots apply).1 ∧
      ∀ call ∈ (store.transaction roots apply).2.2, call.2.observation = id →
        version < call.2.version ∧ call.2.commit.isSome = true := by
  obtain ⟨hindexed,hsubs,hcases⟩ := store.transaction_cases roots apply h.indexed
  have hlive := hsubs ▸ h.live
  rcases hcases with ⟨hcalls,hstore⟩ | ⟨hopen,prepared,canonical,hc,hcalls⟩
  · rw [hcalls]
    refine ⟨⟨hindexed,hlive,fun hp => ?_⟩,by simp⟩
    rcases hstore with hpoisoned | hsame
    · rw [hpoisoned] at hp
      cases hp
    · rw [hsame] at hp ⊢
      exact h.registered hp
  · obtain ⟨before,hbefore,hle⟩ := h.registered hopen
    have hnext := saturatingSucc_of_lt (hv before hbefore)
    obtain ⟨current,hget,hafter,-⟩ := hc.exists_after hbefore
    refine ⟨⟨hindexed,hlive,fun _ => ⟨_,hafter,?_⟩⟩,?_⟩
    · split_ifs
      · change version ≤ saturatingSucc before.version
        rw [hnext]
        exact Nat.le_succ_of_le hle
      · exact hle
    · rw [hcalls]
      intro call hcall hid
      obtain ⟨hversion,hcommit⟩ := hc.call_version h.indexed h.live hget call hcall hid
      refine ⟨?_,hcommit⟩
      rw [hversion]
      rw [hnext]
      exact Nat.lt_succ_of_le hle

theorem length_callsTo (id : ObservationId) (prepared : List (PreparedRoot H)) :
    (callsTo id (handlerCalls prepared)).length = deliveryCount prepared id := by
  rw [deliveryCount, List.count, countP_map, countP_eq_length_filter]
  congr 1

/-- A recursive subscription to a whole root is called for every version of it. -/
theorem Watching.transaction_versions (h : Watching id entry version store)
    (hscope : entry.spec.scope = .recursive) (hpath : entry.spec.address.path = [])
    (roots : List ValueId) (apply : TransactionScript R)
    (hnext : (store.transaction roots apply).1.poisoned = false)
    (hv : ∀ registered, store.state.values.get? entry.spec.address.value = some registered → registered.version < u64Max) :
    store.poisoned = false ∧ ∃ before after,
      store.state.values.get? entry.spec.address.value = some before ∧
      (store.transaction roots apply).1.state.values.get? entry.spec.address.value = some after ∧
      before.version ≤ after.version ∧
      (callsTo id (store.transaction roots apply).2.2).map (·.2.version) =
        List.range' (before.version + 1) (after.version - before.version) := by
  obtain ⟨hindexed,hsubs,hcases⟩ := store.transaction_cases roots apply h.indexed
  rcases hcases with ⟨hcalls,hstore⟩ | ⟨hopen,prepared,canonical,hc,hcalls⟩
  · rcases hstore with hpoisoned | hsame
    · rw [hpoisoned] at hnext
      cases hnext
    · rw [hsame] at hnext ⊢
      obtain ⟨before,hbefore,-⟩ := h.registered hnext
      exact ⟨hnext,before,before,hbefore,hbefore,le_rfl,by simp [hcalls, callsTo]⟩
  · obtain ⟨before,hbefore,-⟩ := h.registered hopen
    have hsucc := saturatingSucc_of_lt (hv before hbefore)
    obtain ⟨current,hget,hafter,-⟩ := hc.exists_after hbefore
    have hpos := hc.deliveryCount_pos_iff h.indexed h.live hget
    have hle := hc.deliveryCount_le_one h.indexed id
    have hlen := length_callsTo id prepared
    rw [hcalls]
    refine ⟨hopen,before,_,hbefore,hafter,?_⟩
    by_cases hm : entry.spec.address.value ∈ canonical.map Prod.fst
    · obtain ⟨⟨v,changes⟩,hentry,rfl⟩ := mem_map.mp hm
      have hne := (hc.canonical_eq.of_mem _ _ hentry).1
      obtain ⟨change,hchange⟩ := exists_mem_of_ne_nil _ hne
      have hreach : change.Reaches entry.spec.address.path entry.spec.scope := by
        rw [hscope, hpath]
        cases change with
        | splice => exact .inl ⟨ nil_prefix,rfl⟩
        | replace | remove => exact .inl ⟨ nil_prefix,rfl⟩
      have hone : deliveryCount prepared id = 1 := by
        have h1 := hpos.mpr ⟨changes,hentry,⟨change,hchange,hreach⟩,
          changesForSubscription_whole hscope hpath hne _⟩
        omega
      rw [if_pos hm]
      obtain ⟨call,hcall⟩ := length_eq_one_iff.mp (hlen.trans hone)
      have hmem : call ∈ callsTo id (handlerCalls prepared) := by simp [hcall]
      obtain ⟨hmem,hid⟩ := mem_filter.mp hmem
      have hversion := (hc.call_version h.indexed h.live hget call hmem (by simpa using hid)).1
      refine ⟨?_,?_⟩
      · change before.version ≤ saturatingSucc before.version
        rw [hsucc]
        exact Nat.le_succ _
      · change _ = List.range' (before.version + 1) (saturatingSucc before.version - before.version)
        rw [hcall, map_singleton, hversion]
        simp [hsucc]
    · have hzero : deliveryCount prepared id = 0 := by
        by_contra hn
        obtain ⟨changes,hentry,-⟩ := hpos.mp (Nat.pos_of_ne_zero hn)
        exact hm (mem_map.mpr ⟨_,hentry,rfl⟩)
      rw [if_neg hm, eq_nil_of_length_eq_zero (hlen.trans hzero)]
      exact ⟨le_rfl,by simp⟩

/-! ## The initial delivery -/

/-- The versions of the root have not run out when a transaction takes the lock. -/
def VersionsLeft (value : ValueId) (threads : StoreThreads H) :
    ThreadStep (StoreCall H R) → Prop
  | .enter _ => ∀ registered, threads.state.state.values.get? value = some registered →
      registered.version < u64Max
  | .invoke _ => True

/-- In this step, no thread that owes the observation a call overtakes the
subscribing thread. -/
def SubscriberFirst (id : ObservationId) (subscriber : ℕ) (threads : StoreThreads H)
    (step : ThreadStep (StoreCall H R)) : Prop :=
  threads.InTurn (fun call => call.2.observation = id) subscriber step

variable {threads : StoreThreads H}

variable {step : ThreadStep (StoreCall H R)}

theorem watching_step (h : Watching id entry version threads.state)
    (hstep : Concurrent step ∧ VersionsLeft entry.spec.address.value threads step) :
    Watching id entry version (threads.step step).state ∧
      ∀ call ∈ Threads.admitted enter threads step, call.2.observation = id →
        version < call.2.version ∧ call.2.commit.isSome = true := by
  cases step with
  | invoke i =>
    have hstate : (threads.step (.invoke i : ThreadStep (StoreCall H R))).state = threads.state :=
      invoke_state threads i
    rw [hstate]
    exact ⟨h,by simp [Threads.admitted]⟩
  | enter call =>
    cases call with
    | transaction roots apply => exact h.transaction roots apply hstep.2
    | _ => exact hstep.1.elim

variable {steps : List (ThreadStep (StoreCall H R))}

theorem watching_run (h : Watching id entry version threads.state)
    (hsteps : ∀ step ∈ steps, Concurrent step)
    (hv : Along StoreThreads.step (VersionsLeft entry.spec.address.value) threads steps) :
    ∀ call ∈ threads.admitted steps, call.2.observation = id →
      version < call.2.version ∧ call.2.commit.isSome = true := by
  have hok := (along_of_forall StoreThreads.step (fun step hs _ => hsteps step hs) threads).and hv
  exact hok.outputs (I := fun threads : StoreThreads H => Watching id entry version threads.state)
    (fun threads step ht hs => (watching_step ht hs).1)
    (fun threads step ht hs => (watching_step ht hs).2) h

theorem versions_append {a b c : ℕ} (hab : a ≤ b) (hbc : b ≤ c) :
    List.range' (a + 1) (b - a) ++ List.range' (b + 1) (c - b) = List.range' (a + 1) (c - a) := by
  have hb : b + 1 = a + 1 + (b - a) := by omega
  have hc : b - a + (c - b) = c - a := by omega
  rw [hb, range'_append_1, hc]

/-- As long as no panic poisons the lock, the calls admitted for a recursive
subscription to a whole root carry all its later versions, in order. -/
theorem watching_run_versions (hscope : entry.spec.scope = .recursive)
    (hpath : entry.spec.address.path = []) (h : Watching id entry version threads.state)
    (hsteps : ∀ step ∈ steps, Concurrent step)
    (hv : Along StoreThreads.step (VersionsLeft entry.spec.address.value) threads steps)
    (hopen : (threads.run steps).state.poisoned = false) :
    threads.state.poisoned = false ∧ ∃ before after,
      threads.state.state.values.get? entry.spec.address.value = some before ∧
      (threads.run steps).state.state.values.get? entry.spec.address.value = some after ∧
      before.version ≤ after.version ∧
      (callsTo id (threads.admitted steps)).map (·.2.version) =
        List.range' (before.version + 1) (after.version - before.version) := by
  induction steps generalizing threads with
  | nil =>
    obtain ⟨before,hbefore,-⟩ := h.registered hopen
    exact ⟨hopen,before,before,hbefore,hbefore,le_rfl,by simp [StoreThreads.admitted, outputs, callsTo]⟩
  | cons step steps ih =>
    have hstep := (watching_step h ⟨hsteps step (by simp),hv.1⟩).1
    obtain ⟨hmid,mid,after,hmidr,hafter,hle,hcalls⟩ :=
      ih hstep (fun s hs => hsteps s (by simp [hs])) hv.2 hopen
    cases step with
    | invoke i =>
      have hstate : (threads.step (.invoke i : ThreadStep (StoreCall H R))).state = threads.state :=
        invoke_state threads i
      rw [hstate] at hmid hmidr
      exact ⟨hmid,mid,after,hmidr,hafter,hle,hcalls⟩
    | enter call =>
      cases call with
      | transaction roots apply =>
        obtain ⟨hopen',before,mid',hbefore,hmid',hle',hfirst⟩ :=
          h.transaction_versions hscope hpath roots apply hmid hv.1
        obtain rfl : mid = mid' := Option.some.inj (hmidr.symm.trans hmid')
        refine ⟨hopen',before,after,hbefore,hafter,hle'.trans hle,?_⟩
        have hsplit : callsTo id (threads.admitted (.enter (.transaction roots apply) :: steps)) =
            callsTo id (threads.state.transaction roots apply).2.2 ++
              callsTo id ((threads.step (.enter (.transaction roots apply) :
                ThreadStep (StoreCall H R))).admitted steps) :=
          filter_append _ _
        rw [hsplit, map_append, hfirst, hcalls]
        exact versions_append hle' hle
      | _ => exact absurd (hsteps _ mem_cons_self) not_false

/-- Transactions call live subscriptions only, and leave them live. -/
theorem live_step (h : threads.state.state.Indexed) (hstep : Concurrent step) :
    (threads.step step).state.state.Indexed ∧
    (threads.step step).state.state.subscriptions = threads.state.state.subscriptions ∧
    ∀ call ∈ Threads.admitted enter threads step, ∃ entry,
      threads.state.state.subscriptions.get? call.2.observation = some entry := by
  cases step with
  | invoke i =>
    have hstate : (threads.step (.invoke i : ThreadStep (StoreCall H R))).state = threads.state :=
      invoke_state threads i
    rw [hstate]
    exact ⟨h,rfl,by simp [Threads.admitted]⟩
  | enter call =>
    cases call with
    | transaction roots apply =>
      obtain ⟨hindexed,hsubs,hcases⟩ := threads.state.transaction_cases roots apply h
      refine ⟨hindexed,hsubs,fun call hcall => ?_⟩
      change call ∈ (threads.state.transaction roots apply).2.2 at hcall
      rcases hcases with ⟨hcalls,-⟩ | ⟨-,prepared,canonical,hc,hcalls⟩
      · simp [hcalls] at hcall
      · rw [hcalls] at hcall
        obtain ⟨root,hroot,hmem⟩ := mem_flatMap.mp hcall
        obtain ⟨delivery,hd,rfl⟩ := mem_map.mp hmem
        obtain ⟨entry,he,-⟩ :=
          hc.delivered_value h hroot (mem_map.mpr ⟨delivery,hd,rfl⟩)
        exact ⟨entry,he⟩
    | _ => exact hstep.elim

theorem live_run (h : threads.state.state.Indexed) (hsteps : ∀ step ∈ steps, Concurrent step) :
    (threads.run steps).state.state.Indexed ∧
    (threads.run steps).state.state.subscriptions = threads.state.state.subscriptions ∧
    ∀ call ∈ threads.admitted steps, ∃ entry,
      threads.state.state.subscriptions.get? call.2.observation = some entry := by
  have hok := along_of_forall StoreThreads.step (fun step hs _ => hsteps step hs) threads
  have hinv := hok.invariant (I := fun t : StoreThreads H => t.state.state.Indexed ∧
      t.state.state.subscriptions = threads.state.state.subscriptions)
    (fun t step ht hs => by
      obtain ⟨hi,hsubs,-⟩ := live_step ht.1 hs
      exact ⟨hi,hsubs.trans ht.2⟩) ⟨h,rfl⟩
  refine ⟨hinv.1,hinv.2,?_⟩
  exact hok.outputs (I := fun t : StoreThreads H => t.state.state.Indexed ∧
      t.state.state.subscriptions = threads.state.state.subscriptions)
    (fun t step ht hs => by
      obtain ⟨hi,hsubs,-⟩ := live_step ht.1 hs
      exact ⟨hi,hsubs.trans ht.2⟩)
    (fun t step ht hs call hcall => by
      rw [← ht.2]
      exact (live_step ht.1 hs).2.2 call hcall) ⟨h,rfl⟩

/-- An accepted subscription with an initial snapshot. -/
theorem ObservableStore.enter_subscribe {spec : ObservationSpec} {handler : H}
    {handle : ObservationSubscription} {initial : Option ObservationDelivery}
    (h : (store.subscribe spec handler).2 = .ok (handle,initial)) (hfull : spec.initial = .full) :
    ∃ registered snapshot, store.state.values.get? spec.address.value = some registered ∧
      initial = some snapshot ∧ snapshot.observation = handle.id ∧ snapshot.commit = none ∧
      snapshot.version = registered.version ∧ snapshot.snapshot = some registered.current ∧
      (spec.mode = .full → registered.snapshotPolicy = .copyOnChange) ∧
      handle.id = store.state.nextObservation ∧
      store.enter (.subscribe spec handler : StoreCall H R) =
        (⟨admitSubscription spec handler store.state,false⟩,[(handler,snapshot)]) := by
  obtain ⟨state,poisoned⟩ := store
  cases poisoned with
  | true => simp [subscribe, locked] at h
  | false =>
    cases hb : subscribeBody spec handler state with
    | error error => simp [subscribe, locked, hb] at h
    | ok result =>
      obtain ⟨state',handle',initial'⟩ := result
      obtain ⟨registered,hr,hmode,rfl,rfl,rfl⟩ := subscribeBody_eq_ok hb
      have hsub : subscribe ⟨state,false⟩ spec handler =
          (⟨admitSubscription spec handler state,false⟩,
            .ok (⟨state.nextObservation,state.nextGeneration⟩,
              initialDelivery spec registered state.nextObservation state.nextGeneration)) := by
        simp [subscribe, locked, hb]
      rw [hsub] at h
      cases h
      have hinitial : initialDelivery spec registered state.nextObservation state.nextGeneration =
          some
            { commit := none
              value := spec.address.value
              fromVersion := registered.version
              version := registered.version
              address := spec.address
              observation := state.nextObservation
              generation := state.nextGeneration
              changes := []
              snapshot := some registered.current } := if_pos hfull
      refine ⟨registered,_,hr,hinitial,rfl,rfl,rfl,rfl,fun hm => hmode (.inl hm),rfl,?_⟩
      rw [enter, hsub, hinitial]

/-- Threads of concurrent transactions, after a history in which every subscription
got an id of its own. -/
def Transacting (R : Type) (threads : StoreThreads H) : Prop :=
  ∃ (calls : List (StoreCall H R)) (steps : List (ThreadStep (StoreCall H R))),
    FreshRun calls ∧ (∀ step ∈ steps, Concurrent step) ∧
      threads = (StoreThreads.start calls).run steps

open StoreThreads (start)
/-- No call to an observation that is not live was made or is owed. -/
theorem Transacting.callsTo_eq_nil (h : Transacting R threads)
    (hid : threads.state.state.subscriptions.get? id = none) :
    threads.state.state.Indexed ∧ callsTo id threads.log = [] ∧ callsTo id threads.owed = [] := by
  obtain ⟨calls,steps,hfresh,hsteps,rfl⟩ := h
  have hstart : (start calls).state.state.Indexed := hfresh.indexed
  obtain ⟨hindexed,hsubs,hlive⟩ := live_run hstart hsteps
  have hperm := run_perm enter (start calls) steps
  have hnone : ∀ call ∈ ((start calls).run steps).log ++
      ((start calls).run steps).owed, ¬ call.2.observation = id := by
    rintro call hcall rfl
    have hmem : call ∈ (start calls).admitted steps := hperm.mem_iff.mp hcall
    obtain ⟨entry,he⟩ := hlive call hmem
    rw [hsubs, he] at hid
    cases hid
  refine ⟨hindexed,?_,?_⟩
  · exact filter_eq_nil_iff.mpr fun call hcall =>
      by simpa using hnone call (mem_append_left _ hcall)
  · exact filter_eq_nil_iff.mpr fun call hcall =>
      by simpa using hnone call (mem_append_right _ hcall)

/-- The threads after a client has subscribed; its thread is the newest. -/
def StoreThreads.subscribe (threads : StoreThreads H) (spec : ObservationSpec) (handler : H) :
    StoreThreads H :=
  threads.step (.enter (.subscribe spec handler) : ThreadStep (StoreCall H Unit))

/-- A subscription that asks for an initial snapshot gets it first, then only later
commits with greater versions, each once, in every state of an interleaving with
transactions in which no transaction that owes it a call overtakes it. For a
recursive subscription to a whole root these are all later versions. -/
theorem initial_snapshot_first (threads : StoreThreads H) (hthreads : Transacting R threads)
    (spec : ObservationSpec) (handler : H) (handle : ObservationSubscription)
    (initial : Option ObservationDelivery)
    (hsub : (threads.state.subscribe spec handler).2 = .ok (handle,initial))
    (hfull : spec.initial = .full) (later : List (ThreadStep (StoreCall H R)))
    (hlater : ∀ step ∈ later, Concurrent step) (hid : threads.state.state.FreshId)
    (hversions : Along StoreThreads.step (VersionsLeft spec.address.value)
      (threads.subscribe spec handler) later)
    (hfirst : Along StoreThreads.step (SubscriberFirst handle.id threads.queues.length)
      (threads.subscribe spec handler) later) :
    ∃ registered snapshot, threads.state.state.values.get? spec.address.value = some registered ∧
      initial = some snapshot ∧ snapshot.commit = none ∧ snapshot.version = registered.version ∧
      snapshot.snapshot = some registered.current ∧
      (callsTo handle.id ((threads.subscribe spec handler).run later).log = [] ∨ ∃ rest,
        callsTo handle.id ((threads.subscribe spec handler).run later).log =
          (handler,snapshot) :: rest ∧
        ∀ call ∈ rest, snapshot.version < call.2.version ∧ call.2.commit.isSome = true) ∧
      List.Perm (callsTo handle.id ((threads.subscribe spec handler).run later).log ++
          callsTo handle.id ((threads.subscribe spec handler).run later).owed)
        ((handler,snapshot) :: callsTo handle.id
          ((threads.subscribe spec handler).admitted later)) ∧
      (spec.scope = .recursive → spec.address.path = [] →
        ((threads.subscribe spec handler).run later).state.poisoned = false →
        ∃ final, ((threads.subscribe spec handler).run later).state.state.values.get?
            spec.address.value = some final ∧
          (callsTo handle.id ((threads.subscribe spec handler).admitted later)).map
            (·.2.version) = List.range' (snapshot.version + 1) (final.version - snapshot.version)) := by
  obtain ⟨registered,snapshot,hr,rfl,hobs,hcommit,hversion,hsnap,hmode,hhandle,henter⟩ :=
    threads.state.enter_subscribe (R := Unit) hsub hfull
  have hunused : threads.state.state.subscriptions.get? handle.id = none := hhandle ▸ hid
  obtain ⟨hindexed,hlog,howed⟩ := hthreads.callsTo_eq_nil hunused
  have hopened : threads.subscribe spec handler =
      ⟨⟨admitSubscription spec handler threads.state.state,false⟩,
        threads.queues ++ [[(handler,snapshot)]],threads.log⟩ := by
    simp only [StoreThreads.subscribe, StoreThreads.step, Threads.step, henter]
  generalize threads.subscribe spec handler = opened at hopened hversions hfirst ⊢
  have hwatching : Watching handle.id ⟨handle.id,spec,threads.state.state.nextGeneration,handler⟩
      snapshot.version opened.state := by
    rw [hopened]
    refine ⟨hindexed.subscribe handler hr hmode hid,?_,fun _ => ⟨registered,hr,hversion.le⟩⟩
    rw [hhandle]
    exact BTreeMap.get?_insert_self _ _ _
  have hadmitted := watching_run hwatching hlater hversions
  have hself : callsTo handle.id [(handler,snapshot)] = [(handler,snapshot)] := by
    simp [callsTo, hobs]
  have hperm : List.Perm (callsTo handle.id (opened.run later).log ++
      callsTo handle.id (opened.run later).owed)
      ((handler,snapshot) :: callsTo handle.id (opened.admitted later)) := by
    have hrun := (run_perm enter opened later).filter
      fun call => call.2.observation = handle.id
    simp only [filter_append] at hrun
    have hstart : callsTo handle.id opened.log ++ callsTo handle.id opened.owed =
        [(handler,snapshot)] := by
      rw [hopened]
      simp only [callsTo, Threads.owed, flatten_append, filter_append] at hlog howed hself ⊢
      simp [hlog, howed, hself]
    unfold callsTo at hstart ⊢
    rw [hstart] at hrun
    exact hrun
  have hleads : Threads.Leads (fun call : H × ObservationDelivery => call.2.observation = handle.id)
      threads.queues.length (handler,snapshot) opened := by
    left
    rw [hopened]
    exact ⟨by simp,hlog⟩
  have hrun := hleads.run (by simp [hobs]) hfirst
  refine ⟨registered,snapshot,hr,rfl,hcommit,hversion,hsnap,?_,hperm,?_⟩
  swap
  · intro hscope hpath hopen
    obtain ⟨-,before,final,hbefore,hfinal,-,hall⟩ :=
      watching_run_versions hscope hpath hwatching hlater hversions hopen
    rw [hopened] at hbefore
    obtain rfl : registered = before := Option.some.inj (hr.symm.trans hbefore)
    exact ⟨final,hfinal,by rw [hversion, hall]⟩
  rcases hrun with ⟨-,hseen⟩ | ⟨-,rest,hseen⟩
  · exact .inl hseen
  · refine .inr ⟨rest,hseen,fun call hcall => ?_⟩
    rw [show callsTo handle.id (opened.run later).log = (handler,snapshot) :: rest from hseen,
      cons_append, perm_cons] at hperm
    have hmem := hperm.mem_iff.mp (mem_append_left _ hcall)
    obtain ⟨hmem,hcid⟩ := mem_filter.mp hmem
    exact hadmitted call hmem (by simpa using hcid)

def oneList : List (StoreCall Unit Unit) :=
  [.register ⟨itemsRoot,itemsOwner,.list .u64,.copyOnChange,.list [.u64 1,.u64 2]⟩]

/-- The whole list, with its present value first. -/
def fromNowOn : ObservationSpec := ⟨⟨itemsRoot,[]⟩,.recursive,.diff,.full⟩

theorem initial_snapshot_first_in_turn : ∃ snapshot : ObservationDelivery, snapshot.version = 0 ∧
    List.Perm
      (callsTo 1 (((StoreThreads.start oneList).subscribe fromNowOn ()).run
          [.enter (.transaction [itemsRoot] replaceFirst),.invoke 0,.invoke 1]).log ++
        callsTo 1 (((StoreThreads.start oneList).subscribe fromNowOn ()).run
          [.enter (.transaction [itemsRoot] replaceFirst),.invoke 0,.invoke 1]).owed)
      (((),snapshot) :: callsTo 1 (((StoreThreads.start oneList).subscribe fromNowOn ()).admitted
        [.enter (.transaction [itemsRoot] replaceFirst),.invoke 0,.invoke 1])) := by
  have hroot : ∀ registered, (after oneList).state.values.get? itemsRoot =
      some registered → registered.version < u64Max := by
    intro registered hr
    cases hr
    decide
  obtain ⟨registered,snapshot,hr,-,-,hversion,-,-,hperm,-⟩ := initial_snapshot_first
    (start oneList) ⟨oneList,[],⟨trivial,trivial⟩,by simp,rfl⟩ fromNowOn () ⟨1,1⟩ _ rfl
    rfl [.enter (.transaction [itemsRoot] replaceFirst),.invoke 0,.invoke 1] (by simp [Concurrent])
    rfl ⟨hroot,trivial,trivial,trivial⟩ ⟨trivial,fun h => absurd rfl h,fun _ _ => rfl,trivial⟩
  cases hr
  exact ⟨snapshot,hversion,hperm⟩

/-- Between the lock and the initial call of the subscriber, a transaction commits
and calls the handler: it sees version 1 before the snapshot of version 0. -/
theorem initial_snapshot_overtaken :
    ((StoreThreads.start oneList).run
      [.enter (.subscribe fromNowOn ()),.enter (.transaction [itemsRoot] replaceFirst),.invoke 1,
        .invoke 0]).log.map
      (fun call => (call.2.observation,call.2.commit,call.2.version)) =
        [(1,some 1,1),(1,none,0)] := by
  rfl

end PhenixConductor.Observable
