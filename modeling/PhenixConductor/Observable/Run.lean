import PhenixConductor.Observable.Store
import PhenixConductor.Observable.Mutation
import PhenixConductor.Collections.Runs

/-! # Runs of the store

Clients drive the store by calls.
-/
namespace PhenixConductor.Observable
open Contract Collections

variable {H R : Type}

/-- The calls that reach the lock. Reads are left out; `R` is the result type of
the transaction closures. -/
inductive StoreCall (H R : Type) where
  | register (registration : ObservableRegistration)
  | unregister (value : ValueId)
  | subscribe (spec : ObservationSpec) (handler : H)
  | unsubscribe (subscription : ObservationSubscription)
  | close
  | transaction (roots : List ValueId) (apply : TransactionScript R)

/-- The store after a call. -/
def ObservableStore.step (store : ObservableStore H) : StoreCall H R → ObservableStore H
  | .register registration => (store.register registration).1
  | .unregister value => (store.unregister value).1
  | .subscribe spec handler => (store.subscribe spec handler).1
  | .unsubscribe subscription => (store.unsubscribe subscription).1
  | .close => store.close.1
  | .transaction roots apply => (store.transactionLocked roots apply).1

/-- The store after a list of calls from the empty store. -/
def ObservableStore.after (calls : List (StoreCall H R)) : ObservableStore H :=
  runAll step .default calls

/-! ## What the calls do under the lock -/

/-- A locked body that succeeds decides the next state; otherwise nothing changes. -/
theorem ObservableStore.locked_invariant {P : ObservableStore H → Prop} {store : ObservableStore H}
    {body : StoreState H → Except ObservableError (StoreState H × R)} (h : P store)
    (hbody : store.poisoned = false → ∀ state' result, body store.state = .ok (state',result) →
      P ⟨state',false⟩) : P (store.locked body).1 := by
  unfold locked
  split
  · exact h
  · rename_i hp
    split
    · rename_i state' result hb
      exact hbody (by simpa using hp) state' result hb
    · exact h

theorem locked_eq_ok {T : Type} {store : ObservableStore H}
    {body : StoreState H → Except ObservableError (StoreState H × T)} {result : T}
    (h : (store.locked body).2 = .ok result) :
    body store.state = .ok ((store.locked body).1.state,result) := by
  unfold ObservableStore.locked at h ⊢
  split at h
  · cases h
  · rename_i hp
    cases hb : body store.state with
    | error error => simp [hb] at h
    | ok found =>
      obtain ⟨state,value⟩ := found
      simp only [hb, Except.ok.injEq] at h
      simp [hp, h]

/-- A locked body that fails changes nothing. -/
theorem locked_eq_error {T : Type} {store : ObservableStore H}
    {body : StoreState H → Except ObservableError (StoreState H × T)}
    {failure : Failure ObservableError} (h : (store.locked body).2 = .error failure) :
    (store.locked body).1 = store := by
  unfold ObservableStore.locked at h ⊢
  split
  · rfl
  · next hp =>
    rw [if_neg hp] at h
    split
    · next hb =>
      rw [hb] at h
      cases h
    · rfl

namespace ObservableStore

variable {state state' : StoreState H}

theorem registerBody_eq_ok {registration : ObservableRegistration}
    (h : registerBody registration state = .ok (state',())) :
    registration.id ∉ state.values.keys ∧ state' = state.write registration.id
      { owner := registration.owner
        schema := registration.schema
        version := 0
        snapshotPolicy := registration.snapshotPolicy
        current := registration.initial } := by
  obtain ⟨_,-,h⟩ := bind_eq_ok.mp h
  split_ifs at h with hk
  exact ⟨hk,(congrArg Prod.fst (Except.ok.inj h)).symm⟩

theorem unregisterBody_eq_ok {value : ValueId} (h : unregisterBody value state = .ok (state',())) :
    value ∈ state.values.keys ∧ state' = { state with
      values := state.values.erase value
      indexes := state.indexes.erase value
      subscriptions := (indexedIds state value).foldl
        (fun subscriptions id => subscriptions.erase id) state.subscriptions } := by
  obtain ⟨_,-,h⟩ := bind_eq_ok.mp h
  split_ifs at h with hk
  exact ⟨hk,(congrArg Prod.fst (Except.ok.inj h)).symm⟩

theorem lookup_eq_ok {value : ValueId} {registered : RegisteredValue}
    (h : lookup state value = .ok registered) : state.values.get? value = some registered := by
  unfold lookup at h
  split at h
  · rename_i found hf
    cases h
    exact hf
  · cases h

/-- An accepted subscription addresses a registered root, which copies its
snapshots if the subscription wants any. -/
theorem subscribeBody_eq_ok {spec : ObservationSpec} {handler : H}
    {handle : ObservationSubscription} {initial : Option ObservationDelivery}
    (h : subscribeBody spec handler state = .ok (state',handle,initial)) :
    ∃ registered, state.values.get? spec.address.value = some registered ∧
      (spec.mode = .full ∨ spec.initial = .full → registered.snapshotPolicy = .copyOnChange) ∧
      state' = admitSubscription spec handler state ∧
      handle = ⟨state.nextObservation,state.nextGeneration⟩ ∧
      initial = initialDelivery spec registered state.nextObservation state.nextGeneration := by
  obtain ⟨_,-,h⟩ := bind_eq_ok.mp h
  obtain ⟨registered,hl,h⟩ := bind_eq_ok.mp h
  obtain ⟨_,-,h⟩ := bind_eq_ok.mp h
  split_ifs at h with hp
  cases h
  refine ⟨registered,lookup_eq_ok hl,fun hm => ?_,rfl,rfl,rfl⟩
  cases hr : registered.snapshotPolicy with
  | copyOnChange => rfl
  | currentOnly => exact absurd ⟨hr,hm⟩ hp

theorem unsubscribeBody_eq_ok {subscription : ObservationSubscription} {found : Bool}
    (h : unsubscribeBody subscription state = .ok (state',found)) :
    state' = state ∨ ∃ entry, state.subscriptions.get? subscription.id = some entry ∧
      state' = dropSubscription subscription.id entry state := by
  obtain ⟨_,-,h⟩ := bind_eq_ok.mp h
  cases hs : state.subscriptions.get? subscription.id with
  | none =>
    simp only [hs] at h
    cases h
    exact .inl rfl
  | some entry =>
    simp only [hs] at h
    split_ifs at h
    · cases h
      exact .inl rfl
    · cases h
      exact .inr ⟨entry,rfl,rfl⟩

/-- A subscription that is found has the generation of its handle. -/
theorem unsubscribeBody_eq_true {subscription : ObservationSubscription}
    (h : unsubscribeBody subscription state = .ok (state',true)) :
    ∃ entry, state.subscriptions.get? subscription.id = some entry ∧
      entry.generation = subscription.generation ∧
      state' = dropSubscription subscription.id entry state := by
  obtain ⟨_,-,h⟩ := bind_eq_ok.mp h
  cases hs : state.subscriptions.get? subscription.id with
  | none =>
    simp only [hs] at h
    cases h
  | some entry =>
    simp only [hs] at h
    split_ifs at h with hgeneration
    · cases h
    · cases h
      exact ⟨entry,rfl,not_not.mp hgeneration,rfl⟩

theorem dropSubscription_values (id : ObservationId) (entry : SubscriptionEntry H)
    (state : StoreState H) : (dropSubscription id entry state).values = state.values := by
  unfold dropSubscription
  dsimp only
  split <;> rfl

/-- What a call can do to the state. -/
inductive CallEffect (store : ObservableStore H) : StoreCall H R → StoreState H → Prop
  | none (call : StoreCall H R) : CallEffect store call store.state
  | register {registration : ObservableRegistration}
      (valid : registration.schema.parse registration.initial = .ok ())
      (new : registration.id ∉ store.state.values.keys) :
      CallEffect store (.register registration) (store.state.write registration.id
        { owner := registration.owner
          schema := registration.schema
          version := 0
          snapshotPolicy := registration.snapshotPolicy
          current := registration.initial })
  | unregister (value : ValueId) : CallEffect store (.unregister value)
      { store.state with
        values := store.state.values.erase value
        indexes := store.state.indexes.erase value
        subscriptions := (indexedIds store.state value).foldl
          (fun subscriptions id => subscriptions.erase id) store.state.subscriptions }
  | subscribe {spec : ObservationSpec} {handler : H} {registered : RegisteredValue}
      (found : store.state.values.get? spec.address.value = some registered)
      (policy : spec.mode = .full ∨ spec.initial = .full →
        registered.snapshotPolicy = .copyOnChange)
      (accepted : ∃ result, (store.subscribe spec handler).2 = .ok result) :
      CallEffect store (.subscribe spec handler) (admitSubscription spec handler store.state)
  | unsubscribe {subscription : ObservationSubscription} {entry : SubscriptionEntry H}
      (found : store.state.subscriptions.get? subscription.id = some entry) :
      CallEffect store (.unsubscribe subscription)
        (dropSubscription subscription.id entry store.state)
  | close : CallEffect store .close
      { store.state with closed := true, subscriptions := .empty, indexes := .empty }
  | transaction (roots : List ValueId) (apply : TransactionScript R) :
      CallEffect store (.transaction roots apply) (store.transactionLocked roots apply).1.state

theorem step_effect (store : ObservableStore H) (call : StoreCall H R) :
    CallEffect store call (store.step call).state := by
  have hlocked {T : Type} {body : StoreState H → Except ObservableError (StoreState H × T)}
      (hbody : store.poisoned = false → ∀ state' result, body store.state = .ok (state',result) →
        CallEffect store call state') : CallEffect store call (store.locked body).1.state :=
    locked_invariant (P := fun s : ObservableStore H => CallEffect store call s.state) (.none call)
      hbody
  cases call with
  | register registration =>
    simp only [step, register]
    cases hvalid : registration.schema.parse registration.initial with
    | error error => exact .none _
    | ok _ =>
      refine hlocked fun _ state' result hb => ?_
      obtain ⟨hnew,rfl⟩ := registerBody_eq_ok hb
      exact .register hvalid hnew
  | unregister value =>
    refine hlocked fun _ state' result hb => ?_
    obtain ⟨-,rfl⟩ := unregisterBody_eq_ok hb
    exact .unregister value
  | subscribe spec handler =>
    refine hlocked fun hp state' result hb => ?_
    obtain ⟨registered,hfound,hpolicy,rfl,-⟩ := subscribeBody_eq_ok hb
    exact .subscribe hfound hpolicy ⟨result,by simp [subscribe, locked, hp, hb]⟩
  | unsubscribe subscription =>
    refine hlocked fun _ state' result hb => ?_
    rcases unsubscribeBody_eq_ok hb with rfl | ⟨entry,hfound,rfl⟩
    · exact .none _
    · exact .unsubscribe hfound
  | close =>
    refine hlocked fun _ state' result hb => ?_
    cases hb
    exact .close
  | transaction roots apply => exact .transaction roots apply

end ObservableStore

/-! ## States up to versions -/

def RegisteredValue.bump (registered : RegisteredValue) : RegisteredValue :=
  { registered with version := saturatingSucc registered.version }

def RegisteredValue.contents (registered : RegisteredValue) : RegisteredValue :=
  { registered with version := 0 }

/-- The state without versions and commit counter. -/
def StoreState.contents (state : StoreState H) : StoreState H :=
  { state with values := state.values.mapVal RegisteredValue.contents, nextCommit := 0 }

open StoreState (contents)
theorem StoreState.contents_write (state : StoreState H) (value : ValueId)
    (registered : RegisteredValue) :
    (state.write value registered).contents = state.contents.write value registered.contents := by
  have hv : (state.values.insert value registered).mapVal RegisteredValue.contents =
      (state.values.mapVal RegisteredValue.contents).insert value registered.contents := by
    ext1 v
    simp only [BTreeMap.get?_mapVal, BTreeMap.get?_insert]
    split_ifs <;> rfl
  unfold contents write
  rw [hv]

/-- A bump is invisible up to versions. -/
theorem StoreState.contents_bump (state : StoreState H) {value : ValueId}
    {registered : RegisteredValue} (h : state.values.get? value = some registered) :
    (state.write value registered.bump).contents = state.contents := by
  have hv : (state.values.insert value registered.bump).mapVal RegisteredValue.contents =
      state.values.mapVal RegisteredValue.contents := by
    ext1 v
    simp only [BTreeMap.get?_mapVal, BTreeMap.get?_insert]
    split_ifs with hv
    · rw [hv, h]
      rfl
    · rfl
  unfold contents write
  rw [hv]

theorem applyUndo_contents (state : StoreState H) (undo : UndoRecord) :
    applyUndo state.contents undo = (applyUndo state undo).map contents := by
  have hget : ∀ v, state.contents.values.get? v =
      (state.values.get? v).map RegisteredValue.contents := fun v => BTreeMap.get?_mapVal _ _ _
  cases undo with
  | replace value path previous =>
    simp only [applyUndo, hget]
    cases state.values.get? value with
    | none => rfl
    | some registered =>
      simp only [Option.map_some, RegisteredValue.contents]
      cases restoreOptional previous registered.current path with
      | error message => rfl
      | ok current =>
        exact congrArg Except.ok (state.contents_write value { registered with current }).symm
  | splice value path start insertedCount removed =>
    simp only [applyUndo, hget]
    cases state.values.get? value with
    | none => rfl
    | some registered =>
      simp only [Option.map_some, RegisteredValue.contents]
      cases valueAtMut registered.current path with
      | error message => rfl
      | ok place =>
        obtain ⟨list,put⟩ := place
        cases list with
        | list items =>
          simp only [Except.mapError, ok_bind]
          cases unsplice items start insertedCount removed with
          | none => rfl
          | some items =>
            exact congrArg Except.ok
              (state.contents_write value { registered with current := put (.list items) }).symm
        | _ => rfl

theorem rollback_contents (state : StoreState H) (undo : List UndoRecord) :
    rollback state.contents undo = (rollback state undo).map contents := by
  induction undo generalizing state with
  | nil => rfl
  | cons u undo ih =>
    rw [rollback, rollback, applyUndo_contents]
    cases applyUndo state u with
    | ok state => exact ih state
    | error failure =>
      cases failure with
      | error message => exact ih state
      | panic message => rfl

/-! ## The outcome of a transaction -/

/-- A property that a version bump keeps holds after the loop over the roots. -/
theorem prepareRoots_invariant {P : StoreState H → Prop}
    (hstep : ∀ (state : StoreState H) value registered, P state →
      state.values.get? value = some registered → P (state.write value registered.bump))
    (commit : CommitId) {state : StoreState H} (canonical : List (ValueId × List ValueChange))
    (hP : P state) : P (prepareRoots commit state canonical).1 := by
  induction canonical generalizing state with
  | nil => exact hP
  | cons entry rest ih =>
    obtain ⟨value,changes⟩ := entry
    unfold prepareRoots
    cases hr : state.values.get? value with
    | none => exact hP
    | some registered =>
      have hb := hstep state value registered hP hr
      dsimp only
      split
      · exact hb
      · exact ih hb

theorem finish_contents (tx : ObservableTransaction H) :
    (finish tx).1.contents = tx.state.contents := by
  unfold finish
  split
  · rfl
  · rfl
  · refine prepareRoots_invariant (P := fun state => state.contents = tx.state.contents) ?_ _ _ rfl
    intro state value registered hs hr
    rw [state.contents_bump hr, hs]

/-- How a transaction ends. -/
inductive TransactionOutcome (store : ObservableStore H) (roots : List ValueId)
    (apply : TransactionScript R) :
    ObservableStore H → Except (Failure ObservableError) (R × List (PreparedRoot H)) → Prop
  | unchanged (failure : Failure ObservableError) :
      TransactionOutcome store roots apply store (.error failure)
  /-- An error of `finish` after versions were bumped. -/
  | spoiled {state : StoreState H} {error : ObservableError} (open_ : store.poisoned = false)
      (finish_eq : (finish (apply.run (store.start roots)).1).2 = .error (.error error))
      (changed : (finish (apply.run (store.start roots)).1).1 ≠
        (apply.run (store.start roots)).1.state)
      (same : state.contents = store.state.contents) :
      TransactionOutcome store roots apply ⟨state,false⟩ (.error (.error error))
  | panicked {state : StoreState H} {message : String}
      (same : state.contents = (apply.run (store.start roots)).1.state.contents) :
      TransactionOutcome store roots apply ⟨state,true⟩ (.error (.panic message))
  | committed {state : StoreState H} {output : R} {prepared : List (PreparedRoot H)}
      (open_ : store.poisoned = false)
      (admitted : ObservableStore.admitRoots (ObservableStore.declareRoots roots) store.state = .ok ())
      (result : (apply.run (store.start roots)).2 = .ok output)
      (finish_eq : finish (apply.run (store.start roots)).1 = (state,.ok prepared)) :
      TransactionOutcome store roots apply ⟨state,false⟩ (.ok (output,prepared))

/-- Rollback after the calls of a closure, on any state with the same contents. -/
theorem rollback_run (store : ObservableStore H) (roots : List ValueId)
    (apply : TransactionScript R) {state : StoreState H}
    (hs : state.contents = (apply.run (store.start roots)).1.state.contents) :
    ∃ state', rollback state (apply.run (store.start roots)).1.undo.reverse = .ok state' ∧
      state'.contents = store.state.contents ∧
      (state = (apply.run (store.start roots)).1.state → state' = store.state) := by
  have hr : rollback (apply.run (store.start roots)).1.state
      (apply.run (store.start roots)).1.undo.reverse = .ok store.state :=
    (apply.run_performs (store.start roots)).rollback_eq
  have hc := rollback_contents (apply.run (store.start roots)).1.state
    (apply.run (store.start roots)).1.undo.reverse
  rw [hr, ← hs, rollback_contents] at hc
  cases hb : rollback state (apply.run (store.start roots)).1.undo.reverse with
  | error message => simp [hb, Except.map] at hc
  | ok state' =>
    rw [hb] at hc
    refine ⟨state',rfl,Except.ok.inj hc,?_⟩
    rintro rfl
    rw [hr] at hb
    exact (Except.ok.inj hb).symm

theorem ObservableStore.transactionLocked_outcome (store : ObservableStore H)
    (roots : List ValueId) (apply : TransactionScript R) :
    TransactionOutcome store roots apply (store.transactionLocked roots apply).1
      (store.transactionLocked roots apply).2 := by
  obtain ⟨state,poisoned⟩ := store
  unfold transactionLocked
  cases poisoned with
  | true => exact .unchanged _
  | false =>
    cases hadmits : admitRoots (declareRoots roots) state with
    | error error => exact .unchanged _
    | ok _ =>
      simp only
      cases hres : (apply.run ((⟨state,false⟩ : ObservableStore H).start roots)).2 with
      | error error =>
        obtain ⟨state',hb,-,he⟩ := rollback_run ⟨state,false⟩ roots apply rfl
        simp only [settle, rollbackTo, hb]
        rw [he rfl]
        exact .unchanged _
      | ok output =>
        have hc := finish_contents (apply.run ((⟨state,false⟩ : ObservableStore H).start roots)).1
        simp only [settle]
        cases hf : (finish (apply.run ((⟨state,false⟩ : ObservableStore H).start roots)).1).2 with
        | ok prepared => exact .committed rfl hadmits hres (Prod.ext rfl hf)
        | error failure =>
          cases failure with
          | panic message => exact .panicked hc
          | error error =>
            obtain ⟨state',hb,hs,he⟩ := rollback_run ⟨state,false⟩ roots apply hc
            simp only [rollbackTo, hb]
            by_cases hsame : (finish (apply.run ((⟨state,false⟩ : ObservableStore H).start
                roots)).1).1 = (apply.run ((⟨state,false⟩ : ObservableStore H).start roots)).1.state
            · rw [he hsame]
              exact .unchanged _
            · exact .spoiled rfl hf hsame hs

/-- A transaction keeps what its mutations keep and versions do not matter for. -/
theorem ObservableStore.transactionLocked_keeps {P : StoreState H → Prop}
    (hmutate : ∀ (state : StoreState H) value registered path kind undo new, P state →
      state.values.get? value = some registered →
      Mutated registered.schema registered.current value path kind undo new →
      P (state.write value { registered with current := new }))
    (hcontents : ∀ {state state' : StoreState H}, P state →
      state'.contents = state.contents → P state')
    {store : ObservableStore H} (h : P store.state) (roots : List ValueId)
    (apply : TransactionScript R) : P (store.transactionLocked roots apply).1.state := by
  have hrun : P (apply.run (store.start roots)).1.state :=
    (apply.run_performs _).invariant hmutate h
  have ho := store.transactionLocked_outcome roots apply
  generalize (store.transactionLocked roots apply).1 = store' at ho ⊢
  generalize (store.transactionLocked roots apply).2 = result at ho
  cases ho with
  | unchanged failure => exact h
  | spoiled _ _ _ hs => exact hcontents h hs
  | panicked hs => exact hcontents hrun hs
  | committed _ _ _ hf =>
    have hc := finish_contents (apply.run (store.start roots)).1
    rw [hf] at hc
    exact hcontents hrun hc

end PhenixConductor.Observable
