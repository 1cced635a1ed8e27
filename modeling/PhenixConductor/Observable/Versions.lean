import PhenixConductor.Observable.Delivery

/-! # Versions and commit ids

A version counts the commits that changed its root, and commit ids are given out in increasing
order, one for all the roots that a transaction changed.
-/
namespace PhenixConductor.Observable
open Contract Collections PhenixValue ObservableStore PhenixValue

variable {H R : Type}

/-! ## Properties that every write keeps -/

variable {P : StoreState H → Prop} {state state' : StoreState H}

/-- An undo record writes a value back into a registered root. -/
theorem applyUndo_invariant
    (hcurrent : ∀ (state : StoreState H) value registered current, P state → state.values.get? value = some registered → P (state.write value { registered with current := current }))
    {undo : UndoRecord} (h : applyUndo state undo = .ok state') (hP : P state) : P state' := by
  cases undo with
  | replace value path previous =>
    unfold applyUndo at h
    cases hr : state.values.get? value with
    | none => simp [hr] at h
    | some registered =>
      simp only [hr] at h
      obtain ⟨current,-,h⟩ := bind_eq_ok.mp h
      cases h
      exact hcurrent state value registered current hP hr
  | splice value path start insertedCount removed =>
    unfold applyUndo at h
    cases hr : state.values.get? value with
    | none => simp [hr] at h
    | some registered =>
      simp only [hr] at h
      obtain ⟨⟨list,put⟩,-,h⟩ := bind_eq_ok.mp h
      cases list with
      | list items =>
        cases hu : unsplice items start insertedCount removed with
        | none => simp [hu] at h
        | some items' =>
          simp only [hu] at h
          cases h
          exact hcurrent state value registered _ hP hr
      | _ => cases h

theorem rollback_invariant
    (hcurrent : ∀ (state : StoreState H) value registered current, P state → state.values.get? value = some registered → P (state.write value { registered with current := current }))
    {undo : List UndoRecord} (h : rollback state undo = .ok state') (hP : P state) : P state' := by
  induction undo generalizing state with
  | nil =>
    cases h
    exact hP
  | cons record undo ih =>
    unfold rollback at h
    cases ha : applyUndo state record with
    | ok mid =>
      simp only [ha] at h
      exact ih h (applyUndo_invariant hcurrent ha hP)
    | error failure =>
      cases failure with
      | error message =>
        simp only [ha] at h
        exact ih h hP
      | panic message => simp [ha] at h

variable {store : ObservableStore H}

/-- A property that the writes, the version bumps and the commit counter keep. -/
theorem ObservableStore.transactionLocked_invariant
    (hcurrent : ∀ (state : StoreState H) value registered current, P state → state.values.get? value = some registered → P (state.write value { registered with current := current }))
    (hbump : ∀ (state : StoreState H) value registered, P state → state.values.get? value = some registered → P (state.write value registered.bump))
    (hcommit : ∀ state : StoreState H, P state → P { state with nextCommit := saturatingSucc state.nextCommit })
    (h : P store.state) (roots : List ValueId) (apply : TransactionScript R) :
    P (store.transactionLocked roots apply).1.state := by
  have hrun : P (apply.run (store.start roots)).1.state :=
    (apply.run_performs (store.start roots)).invariant
      (fun state value registered _ _ _ new hs hr _ => hcurrent state value registered new hs hr) h
  have hfinish : P (finish (apply.run (store.start roots)).1).1 := by
    unfold finish
    split
    · exact hrun
    · exact hrun
    · exact prepareRoots_invariant hbump _ _ (hcommit _ hrun)
  have hroll : ∀ (state : StoreState H) (error : ObservableError), P state →
      P (rollbackTo (R := R) (apply.run (store.start roots)).1.undo state error).1.state := by
    intro state error hs
    unfold rollbackTo
    split
    · rename_i hr
      exact rollback_invariant hcurrent hr hs
    · exact hs
  unfold transactionLocked
  split
  · exact h
  · split
    · exact h
    · dsimp only
      unfold settle
      split
      · exact hroll _ _ hrun
      · dsimp only
        split
        · exact hfinish
        · exact hroll _ _ hfinish
        · exact hfinish

/-- A transaction leaves the subscriptions and their numbers alone. -/
theorem transactionLocked_subscriptions (store : ObservableStore H) (roots : List ValueId)
    (apply : TransactionScript R) :
    (store.transactionLocked roots apply).1.state.subscriptions = store.state.subscriptions ∧
      (store.transactionLocked roots apply).1.state.nextObservation = store.state.nextObservation :=
  transactionLocked_invariant
    (P := fun state : StoreState H => state.subscriptions = store.state.subscriptions ∧
      state.nextObservation = store.state.nextObservation)
    (fun _ _ _ _ hs _ => hs) (fun _ _ _ hs _ => hs) (fun _ hs => hs) ⟨rfl,rfl⟩ roots apply

/-! ## Commit ids -/

theorem rollback_nextCommit {undo : List UndoRecord} (h : rollback state undo = .ok state') :
    state'.nextCommit = state.nextCommit :=
  rollback_invariant (P := fun s : StoreState H => s.nextCommit = state.nextCommit)
    (fun _ _ _ _ hs _ => hs) h rfl

theorem finish_nextCommit (tx : ObservableTransaction H) :
    (finish tx).1.nextCommit = tx.state.nextCommit ∨
      (finish tx).1.nextCommit = saturatingSucc tx.state.nextCommit := by
  unfold finish
  split
  · exact .inl rfl
  · exact .inl rfl
  · right
    exact prepareRoots_invariant
      (P := fun state : StoreState H => state.nextCommit = saturatingSucc tx.state.nextCommit)
      (fun _ _ _ hs _ => hs) _ _ rfl

/-- A transaction takes at most one commit id. -/
theorem ObservableStore.transactionLocked_nextCommit (store : ObservableStore H)
    (roots : List ValueId) (apply : TransactionScript R) :
    (store.transactionLocked roots apply).1.state.nextCommit = store.state.nextCommit ∨
      (store.transactionLocked roots apply).1.state.nextCommit =
        saturatingSucc store.state.nextCommit := by
  have hrun := (apply.run_performs (store.start roots)).keeps.2.2
  change _ = store.state.nextCommit at hrun
  have hfinish := finish_nextCommit (apply.run (store.start roots)).1
  rw [hrun] at hfinish
  have hroll : ∀ (state : StoreState H) (error : ObservableError),
      (rollbackTo (R := R) (apply.run (store.start roots)).1.undo state error).1.state.nextCommit =
        state.nextCommit := by
    intro state error
    unfold rollbackTo
    split
    · rename_i hr
      exact rollback_nextCommit hr
    · rfl
  unfold transactionLocked
  split
  · exact .inl rfl
  · split
    · exact .inl rfl
    · dsimp only
      unfold settle
      split
      · rw [hroll]
        exact .inl hrun
      · dsimp only
        split
        · exact hfinish
        · rw [hroll]
          exact hfinish
        · exact hfinish

/-- The commit ids that a call gives out. -/
def ObservableStore.commitIds (store : ObservableStore H) : StoreCall H R → List CommitId
  | .transaction roots apply =>
    match (store.transactionLocked roots apply).2 with
    | .ok (_,prepared) => prepared.map PreparedRoot.commit
    | .error _ => []
  | _ => []

theorem ObservableStore.step_nextCommit (store : ObservableStore H) (call : StoreCall H R) :
    (store.step call).state.nextCommit = store.state.nextCommit ∨
      (store.step call).state.nextCommit = saturatingSucc store.state.nextCommit := by
  have heffect := store.step_effect call
  generalize (store.step call).state = state' at heffect ⊢
  cases heffect with
  | transaction roots apply => exact store.transactionLocked_nextCommit roots apply
  | unsubscribe =>
    left
    unfold dropSubscription
    dsimp only
    split <;> rfl
  | _ => exact .inl rfl

variable {canonical : List (ValueId × List ValueChange)}

/-- The commit id of every prepared root is the one the counter stood at. -/
theorem Commits.commit_eq {store' : ObservableStore H} {roots : List ValueId}
    {apply : TransactionScript R} {prepared : List (PreparedRoot H)}
    (h : Commits store roots apply store' prepared canonical) {root : PreparedRoot H}
    (hroot : root ∈ prepared) : root.commit = store.state.nextCommit ∧ canonical ≠ [] := by
  obtain ⟨entry,hentry,registered,hp⟩ := Forall₂.exists_left h.prepares hroot
  exact ⟨hp.commit_eq,List.ne_nil_of_mem hentry⟩

/-- Ids given out lie below the counter, until it stops. -/
theorem commitIds_lt (calls : List (StoreCall H R)) :
    ∀ id ∈ outputs step commitIds .default calls,
      id < (after calls).state.nextCommit ∨
        u64Max ≤ (after calls).state.nextCommit := by
  refine runAll_outputs (I := fun _ => True)
    (P := fun (id : ℕ) (store : ObservableStore H) =>
      id < store.state.nextCommit ∨ u64Max ≤ store.state.nextCommit)
    (fun _ _ _ => trivial) ?_ ?_ trivial calls
  · intro store call _ id hid
    cases call with
    | transaction roots apply =>
      unfold commitIds at hid
      obtain ⟨⟨store',result⟩,hr⟩ : ∃ r, store.transactionLocked roots apply = r := ⟨_,rfl⟩
      simp only [step, hr] at hid ⊢
      cases result with
      | error failure => simp at hid
      | ok result =>
        obtain ⟨root,hroot,rfl⟩ := List.mem_map.mp hid
        obtain ⟨canonical,hc⟩ := transactionLocked_eq_ok hr
        obtain ⟨hcommit,hne⟩ := hc.commit_eq hroot
        have hnext : store'.state.nextCommit = saturatingSucc store.state.nextCommit :=
          hc.nextCommit.trans (if_neg hne)
        rw [hcommit, hnext, saturatingSucc]
        omega
    | _ => simp [commitIds] at hid
  · intro store call id _ hid
    have hstep := store.step_nextCommit call
    unfold saturatingSucc at hstep
    omega

/-! ## Versions -/

/-- A root has canonical changes if and only if it has changed, when no write
replaced a NaN. -/
theorem RootCommit.changes_eq_nil_iff {roots : List ValueId} {apply : TransactionScript R}
    {value : ValueId} {before : RegisteredValue} {current : PhenixValue}
    {changes : List ValueChange}
    (h : RootCommit store roots apply canonical value before current changes)
    (hnumbers : ∀ t ∈ apply.touchedOn store roots value, EqualsItself before.current t.path) :
    changes = [] ↔ same current before.current = true := by
  constructor
  · rintro rfl
    obtain ⟨applied,happly,hsame⟩ := h.yields
    cases happly
    exact hsame
  · intro hsame
    refine List.eq_nil_iff_forall_not_mem.mpr fun change hchange => ?_
    obtain ⟨t,ht,hexact⟩ := h.mem_changes_iff.mp hchange
    have hmem := (RootCommit.selects store roots apply value).sublist.subset ht
    have hroot : compareOption F64.same (some current) (some before.current) = true := hsame
    exact (exactChange_eq_some hexact).1
      (compareOption_partialEq_of_same (compareOption_getAt hroot t.path) (hnumbers t hmem))

/-- If no write lies strictly below a surviving splice and none replaced a NaN, a
successful transaction moves the version of a declared root by one exactly when
its value has changed, takes no commit id when none has, and otherwise commits the
changed roots under one id above all earlier ones. -/
theorem versions_count_changes (calls : List (StoreCall H R)) (roots : List ValueId)
    (apply : TransactionScript R) (store' : ObservableStore H) (output : R)
    (prepared : List (PreparedRoot H))
    (h : (ObservableStore.after calls).transactionLocked roots apply =
      (store',.ok (output,prepared)))
    (hcommit : (ObservableStore.after calls).state.nextCommit < u64Max)
    (hversion : ∀ value before, (ObservableStore.after calls).state.values.get? value = some before →
      before.version < u64Max)
    (hapart : ∀ value ∈ roots, SplicesApart (apply.touchedOn (.after calls) roots value))
    (hnumbers : ∀ value ∈ roots, ∀ before,
      (ObservableStore.after calls).state.values.get? value = some before →
      ∀ t ∈ apply.touchedOn (.after calls) roots value, EqualsItself before.current t.path) :
    (∀ value ∈ roots, ∃ before after,
      (ObservableStore.after calls).state.values.get? value = some before ∧
      store'.state.values.get? value = some after ∧
      if same after.current before.current then
        after.version = before.version ∧ ∀ root ∈ prepared, root.value ≠ value
      else after.version = before.version + 1 ∧ ∃ root ∈ prepared, root.value = value) ∧
    ((∀ value ∈ roots, ∀ before after,
      (ObservableStore.after calls).state.values.get? value = some before →
      store'.state.values.get? value = some after →
      same after.current before.current = true) →
      store'.state.nextCommit = (ObservableStore.after calls).state.nextCommit ∧ prepared = []) ∧
    (∀ root ∈ prepared, root.value ∈ roots ∧
      root.commit = (ObservableStore.after calls).state.nextCommit) ∧
    ∀ id ∈ outputs ObservableStore.step commitIds .default calls,
      id < (ObservableStore.after calls).state.nextCommit := by
  have hids := commitIds_lt calls
  generalize after calls = store at h hcommit hversion hapart hnumbers hids ⊢
  obtain ⟨canonical,hc⟩ := transactionLocked_eq_ok h
  have hversions : ∀ value ∈ roots, ∃ before after,
      store.state.values.get? value = some before ∧ store'.state.values.get? value = some after ∧
      if same after.current before.current then
        after.version = before.version ∧ ∀ root ∈ prepared, root.value ≠ value
      else after.version = before.version + 1 ∧ ∃ root ∈ prepared, root.value = value := by
    intro value hv
    obtain ⟨before,hbefore⟩ := hc.registered hv
    obtain ⟨current,changes,hroot,hafter⟩ := hc.exists_rootCommit hbefore (hapart value hv)
    have hiff := hroot.changes_eq_nil_iff (hnumbers value hv before hbefore)
    have hkeys : value ∈ canonical.map Prod.fst ↔ changes ≠ [] := by
      constructor
      · intro hm
        obtain ⟨⟨v,changes'⟩,hentry,he⟩ := List.mem_map.mp hm
        obtain rfl : v = value := he
        exact ((hroot.mem_iff changes').mp hentry).2
      · intro hne
        exact List.mem_map.mpr ⟨_,(hroot.mem_iff _).mpr ⟨rfl,hne⟩,rfl⟩
    refine ⟨before,_,hbefore,hafter,?_⟩
    by_cases hne : changes = []
    · have hno : value ∉ canonical.map Prod.fst := fun hm => hkeys.mp hm hne
      rw [if_neg hno, if_pos (hiff.mp hne)]
      refine ⟨rfl,fun root hmem hrv => hno ?_⟩
      obtain ⟨entry,hentry,registered,hp⟩ := Forall₂.exists_left hc.prepares hmem
      exact List.mem_map.mpr ⟨entry,hentry,hp.value_eq.symm.trans hrv⟩
    · have hdiff : ¬ same { before with current }.bump.current before.current = true :=
        mt hiff.mpr hne
      have hlt := hversion value before hbefore
      obtain ⟨root,hmem,registered,hp⟩ :=
        Forall₂.exists_right hc.prepares ((hroot.mem_iff _).mpr ⟨rfl,hne⟩)
      rw [if_pos (hkeys.mpr hne), if_neg hdiff]
      exact ⟨min_eq_left hlt,root,hmem,hp.value_eq⟩
  have hcommits : ∀ root ∈ prepared, root.value ∈ roots ∧
      root.commit = store.state.nextCommit := by
    intro root hmem
    obtain ⟨⟨v,changes⟩,hentry,registered,hp⟩ := Forall₂.exists_left hc.prepares hmem
    refine ⟨?_,hp.commit_eq⟩
    rw [hp.value_eq]
    exact hc.declared hentry
  refine ⟨hversions,fun hall => ?_,hcommits,fun id hid => ?_⟩
  · have hnone : prepared = [] := by
      refine List.eq_nil_iff_forall_not_mem.mpr fun root hmem => ?_
      obtain ⟨before,after,hbefore,hafter,hif⟩ := hversions _ (hcommits root hmem).1
      rw [if_pos (hall _ (hcommits root hmem).1 before after hbefore hafter)] at hif
      exact hif.2 root hmem rfl
    have hempty : canonical = [] := by
      have hprepares := hc.prepares
      rw [hnone] at hprepares
      exact List.forall₂_nil_right_iff.mp hprepares
    exact ⟨by rw [hc.nextCommit, if_pos hempty],hnone⟩
  · rcases hids id hid with hlt | hle
    · exact hlt
    · omega

/-- A write that changes nothing, and one that does. -/
def replaceBoth : TransactionScript Unit :=
  performAll [.replace itemsRoot [.index 0] (.u64 1),.replace itemsRoot [.index 1] (.u64 5)]

theorem twoItems_values : (after twoItems).state.values =
    BTreeMap.empty.insert itemsRoot
      ⟨itemsOwner,.list .u64,0,.copyOnChange,.list [.u64 1,.u64 2]⟩ := rfl

theorem versions_count_changes_replace : ∃ store' prepared,
    (ObservableStore.after twoItems).transactionLocked [itemsRoot] replaceBoth =
      (store',.ok ((),prepared)) ∧
    ∃ before after, (ObservableStore.after twoItems).state.values.get? itemsRoot = some before ∧
      store'.state.values.get? itemsRoot = some after ∧
      if same after.current before.current then
        after.version = before.version ∧ ∀ root ∈ prepared, root.value ≠ itemsRoot
      else after.version = before.version + 1 ∧ ∃ root ∈ prepared, root.value = itemsRoot := by
  refine ⟨_,_,rfl,(versions_count_changes twoItems [itemsRoot] replaceBoth _ () _ rfl (by decide)
    ?_ ?_ ?_).1 itemsRoot (by simp)⟩
  · intro value before hv
    rw [twoItems_values, BTreeMap.get?_insert] at hv
    split_ifs at hv
    · cases hv
      decide
    · simp at hv
  · intro value hv
    rw [List.mem_singleton.mp hv]
    decide
  · intro value hv before hb
    rw [List.mem_singleton.mp hv] at hb ⊢
    cases hb
    decide

/-- Insert in front, write over the inserted member, take it out again. -/
def insertWriteRemove : TransactionScript Unit :=
  performAll [.splice itemsRoot [] 0 0 [.u64 9],.replace itemsRoot [.index 0] (.u64 8),
    .splice itemsRoot [] 0 1 []]

/-- The list is what it was, and its version counts one more commit. -/
theorem version_of_unchanged_root :
    let store := ObservableStore.after twoItems
    let outcome := store.transaction [itemsRoot] insertWriteRemove
    (outcome.1.state.values.get? itemsRoot).map RegisteredValue.current =
      (store.state.values.get? itemsRoot).map RegisteredValue.current ∧
    (store.state.values.get? itemsRoot).map RegisteredValue.version = some 0 ∧
    (outcome.1.state.values.get? itemsRoot).map RegisteredValue.version = some 1 ∧
    store.state.nextCommit = 1 ∧ outcome.1.state.nextCommit = 2 ∧
    outcome.2.2.map (fun call => call.2.commit) = [some 1] := by
  refine ⟨?_,?_,?_,?_,?_,?_⟩
  · rfl
  · rfl
  · rfl
  · rfl
  · rfl
  · rfl

end PhenixConductor.Observable
