import PhenixConductor.Observable.Run
import PhenixConductor.Observable.Original
import Mathlib.Data.List.Dedup

/-! # What a successful transaction commits

`finish` computes the canonical changes of every touched root, drops the roots
without any, and prepares one commit for the rest: each of them is bumped once,
under the commit id that the counter stood at.
-/
namespace PhenixConductor.Observable
open Contract Collections ObservableStore ObservableTransaction RegisteredValue

variable {H R : Type}

variable {value : ValueId}

theorem ObservableStore.start_logged (store : ObservableStore H) (roots : List ValueId)
    {before : RegisteredValue} (h : store.state.values.get? value = some before) :
    (store.start roots).Logged value before :=
  ⟨before.current,h,.start⟩

/-! ## The canonical roots -/

theorem nodup_touchedRoots (touched : List TouchedMutation) : (touchedRoots touched).Nodup :=
  (List.perm_insertionSort _ _).nodup_iff.mpr (List.nodup_dedup _)

theorem mem_touchedRoots {touched : List TouchedMutation} :
    value ∈ touchedRoots touched ↔ ∃ t ∈ touched, t.value = value := by
  simp [touchedRoots]

/-- The canonical roots are the touched roots with their canonical changes, as
far as these are not empty. -/
structure CanonicalRoots (tx : ObservableTransaction H)
    (canonical : List (ValueId × List ValueChange)) : Prop where
  nodup : (canonical.map Prod.fst).Nodup
  touched : ∀ value changes, (value,changes) ∈ canonical → ∃ t ∈ tx.touched, t.value = value
  of_mem : ∀ value changes, (value,changes) ∈ canonical → changes ≠ [] ∧
    ∃ registered, tx.state.values.get? value = some registered ∧
      canonicalizeRoot registered.current tx.undo tx.touched value = .ok changes
  of_touched : ∀ value, (∃ t ∈ tx.touched, t.value = value) →
    ∃ registered changes, tx.state.values.get? value = some registered ∧
      canonicalizeRoot registered.current tx.undo tx.touched value = .ok changes ∧
      (changes ≠ [] → (value,changes) ∈ canonical)

variable {canonical : List (ValueId × List ValueChange)}

variable {tx : ObservableTransaction H}

theorem canonicalRoots_eq_ok (h : canonicalRoots tx = .ok canonical) :
    CanonicalRoots tx canonical := by
  obtain ⟨all,hall,h⟩ := bind_eq_ok.mp h
  cases h
  have hrel : List.Forall₂ (fun value (entry : ValueId × List ValueChange) => entry.1 = value ∧
      ∃ registered, tx.state.values.get? value = some registered ∧
        canonicalizeRoot registered.current tx.undo tx.touched value = .ok entry.2)
      (touchedRoots tx.touched) all := by
    apply (mapM_eq_ok.mp hall).imp
    intro value entry he
    cases hr : tx.state.values.get? value with
    | none => simp [hr] at he
    | some registered =>
      simp only [hr] at he
      obtain ⟨changes,hc,he⟩ := bind_eq_ok.mp he
      cases he
      exact ⟨rfl,registered,rfl,hc⟩
  have hkeys : all.map Prod.fst = touchedRoots tx.touched := by
    have hf : List.Forall₂ (fun value (entry : ValueId × List ValueChange) => value = entry.1)
        (touchedRoots tx.touched) all :=
      hrel.imp fun value entry he => he.1.symm
    clear h hall hrel
    generalize touchedRoots tx.touched = values at hf
    induction hf with
    | nil => rfl
    | cons he _ ih => rw [List.map_cons, ih, he]
  constructor
  · refine List.Nodup.sublist (List.filter_sublist.map Prod.fst) ?_
    rw [hkeys]
    exact nodup_touchedRoots _
  · intro value changes hm
    obtain ⟨value',hv,rfl,-⟩ := Forall₂.exists_left hrel (List.mem_filter.mp hm).1
    exact mem_touchedRoots.mp hv
  · intro value changes hm
    obtain ⟨hm,hne⟩ := List.mem_filter.mp hm
    obtain ⟨value',hv,rfl,hr⟩ := Forall₂.exists_left hrel hm
    exact ⟨by simpa using hne,hr⟩
  · intro value ht
    obtain ⟨entry,hm,rfl,registered,hr,hc⟩ :=
      Forall₂.exists_right hrel (mem_touchedRoots.mpr ht)
    exact ⟨registered,entry.2,hr,hc,fun hne => List.mem_filter.mpr ⟨hm,by simpa using hne⟩⟩

/-! ## The prepared roots -/

/-- Only subscriptions and indexes matter to the deliveries of a root. -/
theorem prepareDeliveries_congr {state state' : StoreState H}
    (hs : state'.subscriptions = state.subscriptions) (hi : state'.indexes = state.indexes)
    (value : ValueId) (registered : RegisteredValue) (changes : List ValueChange) :
    prepareDeliveries state' value registered changes =
      prepareDeliveries state value registered changes := by
  have hone : prepareDelivery state' value registered changes =
      prepareDelivery state value registered changes := by
    funext id
    rw [prepareDelivery, prepareDelivery, hs]
  rw [prepareDeliveries, prepareDeliveries, hi, hone]

/-- The commit of one root. -/
structure Prepares (state : StoreState H) (commit : CommitId)
    (entry : ValueId × List ValueChange) (root : PreparedRoot H) (registered : RegisteredValue) :
    Prop where
  registered_eq : state.values.get? entry.1 = some registered
  value_eq : root.value = entry.1
  commit_eq : root.commit = commit
  fromVersion_eq : root.fromVersion = registered.version
  version_eq : root.version = registered.bump.version
  deliveries_eq : prepareDeliveries state entry.1 registered.bump entry.2 = .ok root.deliveries

variable {prepared : List (PreparedRoot H)}

theorem prepareRoots_eq_ok {commit : CommitId} {state state' : StoreState H}
    (h : prepareRoots commit state canonical = (state',.ok prepared))
    (hn : (canonical.map Prod.fst).Nodup) :
    List.Forall₂ (fun entry root => ∃ registered, Prepares state commit entry root registered)
      canonical prepared ∧
    (∀ v, state'.values.get? v = if v ∈ canonical.map Prod.fst
      then (state.values.get? v).map bump else state.values.get? v) ∧
    state'.nextCommit = state.nextCommit := by
  induction canonical generalizing state prepared with
  | nil =>
    cases h
    simp
  | cons entry canonical ih =>
    obtain ⟨value,changes⟩ := entry
    obtain ⟨hv,hn⟩ := List.nodup_cons.mp hn
    unfold prepareRoots at h
    cases hr : state.values.get? value with
    | none => simp [hr] at h
    | some registered =>
      simp only [hr] at h
      cases hd : prepareDeliveries (state.write value registered.bump) value registered.bump
          changes with
      | error error =>
        simp only [bump] at hd
        simp [hd] at h
      | ok deliveries =>
        have hd' := hd
        simp only [bump] at hd
        simp only [hd, Prod.mk.injEq] at h
        obtain ⟨hstate,hres⟩ := h
        cases hrest : (prepareRoots commit (state.write value registered.bump) canonical).2 with
        | error failure =>
          simp only [bump] at hrest
          rw [hrest] at hres
          cases hres
        | ok rest =>
          obtain ⟨hall,hvals,hcommit⟩ := ih (Prod.ext hstate hrest) hn
          simp only [bump] at hrest
          rw [hrest] at hres
          cases hres
          have hother : ∀ v, v ≠ value →
              (state.write value registered.bump).values.get? v = state.values.get? v :=
            fun v hne => by rw [StoreState.get?_write, if_neg hne]
          refine ⟨.cons ⟨registered,hr,rfl,rfl,rfl,rfl,?_⟩ ?_,fun v => ?_,hcommit⟩
          · rw [← hd']
            exact (prepareDeliveries_congr rfl rfl _ _ _).symm
          · refine List.forall₂_iff_get.mpr ⟨hall.length_eq,fun i hi hj => ?_⟩
            obtain ⟨reg,hp⟩ := (List.forall₂_iff_get.mp hall).2 i hi hj
            have hne : (canonical.get ⟨i,hi⟩).1 ≠ value := by
              intro he
              exact hv (List.mem_map.mpr ⟨_,List.get_mem _ _,he⟩)
            refine ⟨reg,?_,hp.value_eq,hp.commit_eq,hp.fromVersion_eq,hp.version_eq,?_⟩
            · rw [← hother _ hne]
              exact hp.registered_eq
            · rw [← hp.deliveries_eq]
              exact (prepareDeliveries_congr rfl rfl _ _ _).symm
          · rw [hvals v, StoreState.get?_write]
            by_cases hvv : v = value
            · subst hvv
              rw [if_neg hv, if_pos rfl, if_pos (by simp), hr]
              rfl
            · rw [if_neg hvv]
              simp only [List.map_cons, List.mem_cons, hvv, false_or]

/-! ## The whole commit -/

/-- A successful transaction: the effect of its calls, then the commit. -/
structure Commits (store : ObservableStore H) (roots : List ValueId) (apply : TransactionScript R)
    (store' : ObservableStore H) (prepared : List (PreparedRoot H))
    (canonical : List (ValueId × List ValueChange)) : Prop where
  admitted : admitRoots (declareRoots roots) store.state = .ok ()
  canonical_eq : CanonicalRoots (apply.run (store.start roots)).1 canonical
  prepares : List.Forall₂ (fun entry root => ∃ registered,
    Prepares (apply.run (store.start roots)).1.state store.state.nextCommit entry root registered)
    canonical prepared
  values : ∀ v, store'.state.values.get? v = if v ∈ canonical.map Prod.fst
    then ((apply.run (store.start roots)).1.state.values.get? v).map bump
    else (apply.run (store.start roots)).1.state.values.get? v
  nextCommit : store'.state.nextCommit = if canonical = [] then store.state.nextCommit
    else saturatingSucc store.state.nextCommit

theorem Performs.keeps {tx' : ObservableTransaction H} {calls : List MutationCall}
    (h : Performs tx calls tx') : tx'.state.subscriptions = tx.state.subscriptions ∧
      tx'.state.indexes = tx.state.indexes ∧ tx'.state.nextCommit = tx.state.nextCommit :=
  h.invariant (P := fun state => state.subscriptions = tx.state.subscriptions ∧
    state.indexes = tx.state.indexes ∧ state.nextCommit = tx.state.nextCommit)
    (fun _ _ _ _ _ _ _ hs _ _ => hs) ⟨rfl,rfl,rfl⟩

variable {roots : List ValueId}

variable {store store' : ObservableStore H} {apply : TransactionScript R}

theorem ObservableStore.transactionLocked_eq_ok {output : R}
    (h : store.transactionLocked roots apply = (store',.ok (output,prepared))) :
    ∃ canonical, Commits store roots apply store' prepared canonical := by
  have ho := store.transactionLocked_outcome roots apply
  rw [h] at ho
  cases ho with
  | committed _ hadm _ hf =>
    have hk := (apply.run_performs (store.start roots)).keeps.2.2
    unfold finish at hf
    split at hf
    · cases hf
    · rename_i hc
      cases hf
      exact ⟨[],hadm,canonicalRoots_eq_ok hc,.nil,by simp,hk⟩
    · rename_i canonical hne hc
      have hcan := canonicalRoots_eq_ok hc
      obtain ⟨hall,hvals,hcommit⟩ := prepareRoots_eq_ok hf hcan.nodup
      refine ⟨canonical,hadm,hcan,?_,hvals,?_⟩
      · refine hall.imp fun entry root hp => ?_
        obtain ⟨registered,hp⟩ := hp
        refine ⟨registered,hp.registered_eq,hp.value_eq,?_,hp.fromVersion_eq,hp.version_eq,?_⟩
        · rw [hp.commit_eq]
          exact hk
        · rw [← hp.deliveries_eq]
          exact (prepareDeliveries_congr rfl rfl _ _ _).symm
      · rw [hcommit, if_neg hne]
        exact congrArg saturatingSucc hk

/-- Every root has its history in the logs. -/
theorem TransactionScript.run_logged (apply : TransactionScript R) (store : ObservableStore H)
    (roots : List ValueId) {before : RegisteredValue}
    (h : store.state.values.get? value = some before) :
    (apply.run (store.start roots)).1.Logged value before :=
  (apply.run_performs (store.start roots)).logged (store.start_logged roots h)

/-- The touched mutations of a root are the performed calls on it. -/
theorem TransactionScript.run_touched (apply : TransactionScript R) (store : ObservableStore H)
    (roots : List ValueId) : (apply.run (store.start roots)).1.touched =
      (apply.performed (store.start roots)).map MutationCall.touched := by
  rw [(apply.run_performs (store.start roots)).touched_eq]
  rfl

/-- Calls succeed on declared roots only. -/
theorem Performs.touched_declared {tx' : ObservableTransaction H} {calls : List MutationCall}
    (h : Performs tx calls tx') : ∀ call ∈ calls, call.touched.value ∈ tx.declared := by
  induction h with
  | nil => simp
  | cons hp _ ih =>
    obtain ⟨_,_,_,_,hd,_,rfl⟩ := perform_eq_ok hp
    exact List.forall_mem_cons.mpr ⟨hd,ih⟩

theorem mem_declareRoots : value ∈ declareRoots roots ↔ value ∈ roots := by
  simp [declareRoots]

theorem Commits.declared (h : Commits store roots apply store' prepared canonical)
    {changes : List ValueChange} (hm : (value,changes) ∈ canonical) : value ∈ roots := by
  obtain ⟨t,ht,rfl⟩ := h.canonical_eq.touched value changes hm
  rw [apply.run_touched] at ht
  obtain ⟨call,hc,rfl⟩ := List.mem_map.mp ht
  exact mem_declareRoots.mp
    ((apply.run_performs (store.start roots)).touched_declared call hc)

/-- A declared root is registered. -/
theorem Commits.registered (h : Commits store roots apply store' prepared canonical)
    (hv : value ∈ roots) : ∃ before, store.state.values.get? value = some before := by
  obtain ⟨_,-,hadm⟩ := bind_eq_ok.mp h.admitted
  have hkey := forM_eq_ok.mp hadm value (mem_declareRoots.mpr hv)
  split_ifs at hkey with hk
  exact Option.isSome_iff_exists.mp ((BTreeMap.mem_keys_iff _).mp hk)

end PhenixConductor.Observable

/-! ## Replacing a whole value

A component that owns one registered value replaces it at its root, one replacement in each
transaction. The transaction then either puts the new value or leaves the old one, and it
never panics.
-/
namespace PhenixConductor.Observable
open Contract Collections ObservableStore ObservableTransaction
variable {H : Type}

/-- The closure that replaces the root of a value. -/
def replaceRoot (value : ValueId) (replacement : PhenixValue) : TransactionScript Unit :=
  .call (.replace value [] replacement) .done

/-- What is registered under an id. -/
def StoreState.current (state : StoreState H) (value : ValueId) : Option PhenixValue :=
  (state.values.get? value).map (·.current)

theorem StoreState.current_congr {state state' : StoreState H}
    (h : state.contents = state'.contents) (value : ValueId) :
    state.current value = state'.current value := by
  have hvalues := congrArg (fun state => (state.values.get? value).map (·.current)) h
  simpa [contents, current, RegisteredValue.contents, Function.comp_def] using hvalues

/-- The transaction after the replacement has succeeded. -/
structure Replaced (store : ObservableStore H) (value : ValueId) (replacement : PhenixValue)
    (tx : ObservableTransaction H) (registered : RegisteredValue) : Prop where
  found : store.state.values.get? value = some registered
  run : tx = (store.start [value]).record value { registered with current := replacement }
    (.replace value [] (some registered.current)) ⟨value,[],.replace⟩

theorem run_replaceRoot (store : ObservableStore H) (value : ValueId) (replacement : PhenixValue) :
    (∃ error, (replaceRoot value replacement).run (store.start [value]) =
      (store.start [value],.error error)) ∨
    ∃ tx registered, (replaceRoot value replacement).run (store.start [value]) = (tx,.ok ()) ∧
      Replaced store value replacement tx registered := by
  unfold replaceRoot TransactionScript.run
  simp only [perform]
  cases h : (store.start [value]).replace value [] replacement with
  | error error => exact .inl ⟨error,rfl⟩
  | ok tx =>
    right
    obtain ⟨registered,hdeclared,h⟩ := bind_eq_ok.mp h
    obtain ⟨target,-,h⟩ := bind_eq_ok.mp h
    obtain ⟨_,-,h⟩ := bind_eq_ok.mp h
    obtain ⟨put,hput,h⟩ := bind_eq_ok.mp h
    cases hput
    cases h
    refine ⟨_,registered,rfl,?_,rfl⟩
    unfold declaredRoot at hdeclared
    cases hget : (store.start [value]).state.values.get? value with
    | none => simp [hget] at hdeclared
    | some found =>
      simp only [hget] at hdeclared
      split_ifs at hdeclared
      cases hdeclared
      exact hget

section Finish
variable {store : ObservableStore H} {value : ValueId} {replacement : PhenixValue}
  {tx : ObservableTransaction H} {registered : RegisteredValue}

section
variable (h : Replaced store value replacement tx registered)
include h

theorem Replaced.get? :
    tx.state.values.get? value = some { registered with current := replacement } := by
  rw [h.run]
  simp [record, StoreState.write]

theorem Replaced.touchedRoots :
    touchedRoots tx.touched = [value] := by
  rw [h.run]
  rfl

/-- The whole value is compared with what it was. -/
theorem Replaced.canonicalizeRoot :
    ∃ changes, canonicalizeRoot replacement tx.undo tx.touched value = .ok changes := by
  have hselected : selectedTouched tx.touched value = [⟨value,[],.replace⟩] := by
    rw [h.run]
    simp [record, start, selectedTouched, selectTouched,
      coveredBy, TouchedKind.isWhole]
  have horiginal : originalAt replacement tx.undo value [] = .ok (some registered.current) := by
    rw [h.run]
    simp [record, start, originalAt, probeUndos, probeUndo,
      Except.mapError, bind, Except.bind]
  unfold Observable.canonicalizeRoot
  rw [hselected]
  simp [horiginal, bind, Except.bind, pure, Except.pure, List.mapM_cons]

theorem Replaced.canonicalRoots :
    ∃ canonical, canonicalRoots tx = .ok canonical ∧
      (canonical = [] ∨ ∃ changes, canonical = [(value,changes)]) := by
  obtain ⟨changes,hchanges⟩ := h.canonicalizeRoot
  refine ⟨[(value,changes)].filter fun root => !root.2.isEmpty,?_,?_⟩
  · unfold Observable.canonicalRoots
    rw [h.touchedRoots]
    simp [h.get?, hchanges, bind, Except.bind, pure, Except.pure, List.mapM_cons]
  · cases changes with
    | nil => exact .inl rfl
    | cons change rest => exact .inr ⟨_,rfl⟩

/-- The root is still registered when its deliveries are prepared. -/
theorem Replaced.finish (message : String) :
    (finish tx).2 ≠ .error (.panic message) := by
  obtain ⟨canonical,hcanonical,rfl | ⟨changes,rfl⟩⟩ := h.canonicalRoots
  · unfold Observable.finish
    rw [hcanonical]
    simp
  · unfold Observable.finish
    rw [hcanonical]
    simp only [prepareRoots, h.get?]
    split
    · simp
    · intro hsame
      cases hsame

end

end Finish

/-- One replacement, committed or not. -/
inductive RootOutcome (store : ObservableStore H) (value : ValueId) (replacement : PhenixValue) :
    ObservableStore H → Except (Failure ObservableError) Unit → Prop
  | put {state : StoreState H} (current : state.current value = some replacement) :
      RootOutcome store value replacement ⟨state,false⟩ (.ok ())
  | kept {state : StoreState H} (error : ObservableError)
      (current : state.current value = store.state.current value) :
      RootOutcome store value replacement ⟨state,false⟩ (.error (.error error))

open ObservableStore in
theorem ObservableStore.transaction_replaceRoot (store : ObservableStore H)
    (hopen : store.poisoned = false) (value : ValueId) (replacement : PhenixValue) :
    RootOutcome store value replacement (store.transaction [value] (replaceRoot value replacement)).1
      (store.transaction [value] (replaceRoot value replacement)).2.1 := by
  obtain ⟨state,poisoned⟩ := store
  cases hopen
  unfold transaction transactionLocked
  simp only [Bool.false_eq_true, if_false]
  cases admitRoots (declareRoots [value]) state with
  | error error => exact .kept error rfl
  | ok _ =>
    simp only [settle]
    rcases run_replaceRoot ⟨state,false⟩ value replacement with ⟨error,hrun⟩ | ⟨tx,registered,hrun,h⟩
    · obtain ⟨state',hback,hsame,-⟩ := rollback_run ⟨state,false⟩ [value] (replaceRoot value replacement)
        rfl
      rw [hrun] at hback ⊢
      simp only [rollbackTo, hback]
      exact .kept error (StoreState.current_congr hsame value)
    · have hcontents := finish_contents tx
      rw [hrun]
      simp only
      cases hfinish : (finish tx).2 with
      | ok prepared =>
        refine .put ?_
        rw [StoreState.current_congr hcontents value, StoreState.current, h.get?]
        rfl
      | error failure =>
        cases failure with
        | panic message => exact absurd hfinish (h.finish message)
        | error error =>
          have htx : tx = ((replaceRoot value replacement).run
              (start ⟨state,false⟩ [value])).1 := by rw [hrun]
          obtain ⟨state',hback,hsame,-⟩ := rollback_run ⟨state,false⟩ [value]
            (replaceRoot value replacement) (htx ▸ hcontents)
          rw [hrun] at hback
          simp only [rollbackTo, hback]
          exact .kept error (StoreState.current_congr hsame value)

end PhenixConductor.Observable
