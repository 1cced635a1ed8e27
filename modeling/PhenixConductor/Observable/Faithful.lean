import PhenixConductor.Observable.Diff
import PhenixConductor.Observable.Commit
import PhenixConductor.Observable.Matching

/-! # Delivered changes reproduce the committed value

Applied to the old value of a root, its canonical changes give the committed value; and the
relative changes of a recursive subscription do the same for the value that it observes.
-/
namespace PhenixConductor.Observable
open Contract Collections Branching PhenixValue

variable {H R : Type}

/-- The changes take the old value to one that is the same as the new value. -/
def Yields (old : Option PhenixValue) (changes : List ValueChange) (new : Option PhenixValue) :
    Prop :=
  ∃ applied, applyChanges old changes = .ok applied ∧ compareOption F64.same new applied = true

theorem ObservationSpec.above_iff (spec : ObservationSpec) (path : ValuePath) :
    spec.above path = true ↔ StrictlyBelow path spec.address.path := by
  unfold ObservationSpec.above ObservationSpec.matches StrictlyBelow
  cases spec.scope <;>
    simp only [Bool.and_eq_true, Bool.or_eq_true, decide_eq_true_eq, ValuePath.startsWith_iff] <;>
    tauto

theorem rebaseChange_edit (path : ValuePath) (change : ValueChange) :
    (rebaseChange path change).edit = ⟨path,change.act⟩ := by
  cases change <;> rfl

variable {spec : ObservationSpec}

/-- A recursive subscription sees the edits at or below its address. -/
theorem ObservationSpec.rebase_edit (hs : spec.scope = .recursive) {change : ValueChange}
    (ha : spec.above change.path = false) :
    (spec.rebase change).map ValueChange.edit = Edit.rebase spec.address.path change.edit := by
  have hedit : change.edit.path = change.path := rfl
  unfold ObservationSpec.rebase Edit.rebase ValuePath.relativeTo
  rw [ha, hedit]
  by_cases hp : spec.address.path <+: change.path
  · have hstarts := (ValuePath.startsWith_iff _ _).mpr hp
    have hm : spec.matches change.path = true := by
      rw [ObservationSpec.matches, hs]
      exact Bool.or_eq_true_iff.mpr (.inl hstarts)
    rw [hm, hstarts, if_pos hp]
    exact congrArg some (rebaseChange_edit _ _)
  · have hstarts : change.path.startsWith spec.address.path = false := by
      rw [Bool.eq_false_iff, ne_eq, ValuePath.startsWith_iff]
      exact hp
    rw [hstarts, if_neg hp]
    cases spec.matches change.path <;> rfl

theorem filterMap_rebase_edit (hs : spec.scope = .recursive) {changes : List ValueChange}
    (ha : ∀ change ∈ changes, spec.above change.path = false) :
    (changes.filterMap spec.rebase).map ValueChange.edit =
      (changes.map ValueChange.edit).filterMap (Edit.rebase spec.address.path) := by
  rw [List.map_filterMap, List.filterMap_map]
  exact List.filterMap_congr fun change hc => ObservationSpec.rebase_edit hs (ha change hc)

/-- What the canonical changes do to the root, the relative ones do to the
observed value. -/
theorem changesForSubscription_yields {old new : PhenixValue} {changes : List ValueChange}
    (h : Yields (some old) changes (some new)) (hs : spec.scope = .recursive) :
    Yields (valueAtOptional old spec.address.path) (changesForSubscription spec changes new)
      (valueAtOptional new spec.address.path) := by
  obtain ⟨applied,happly,hsame⟩ := h
  rw [valueAtOptional_eq, valueAtOptional_eq]
  unfold changesForSubscription
  split_ifs with ha
  · -- A change above the address is sent as the whole observed value.
    rw [valueAtOptional_eq]
    refine ⟨getAt (some new) spec.address.path,?_,compareOption_same_refl _⟩
    cases getAt (some new) spec.address.path <;> rfl
  · have hnone : ∀ change ∈ changes, spec.above change.path = false := by
      intro change hc
      rw [Bool.eq_false_iff]
      exact fun hb => ha (List.any_eq_true.mpr ⟨change,hc,hb⟩)
    have htakes := applyChanges_eq_ok.mp happly
    have hloc := htakes.localize (p := spec.address.path) fun e he => by
      obtain ⟨change,hc,rfl⟩ := List.mem_map.mp he
      have hb := (spec.above_iff change.path).not.mp (by simp [hnone change hc])
      change spec.address.path <+: change.path ∨ Incomparable spec.address.path change.path
      by_cases hp : spec.address.path <+: change.path
      · exact .inl hp
      · refine .inr ⟨hp,fun hq => hb ⟨hq,?_⟩⟩
        intro hqe
        exact hp (hqe ▸ List.prefix_rfl)
    refine ⟨getAt applied spec.address.path,?_,compareOption_getAt hsame _⟩
    rw [applyChanges_eq_ok, filterMap_rebase_edit hs hnone]
    exact hloc

/-- The performed mutations of a root, as the transaction logs them. -/
def TransactionScript.touchedOn (apply : TransactionScript R) (store : ObservableStore H)
    (roots : List ValueId) (value : ValueId) : List TouchedMutation :=
  ((apply.performed (store.start roots)).map MutationCall.touched).filter (·.value = value)

/-- The canonical changes of a root of a transaction, for its committed value. -/
def TransactionScript.canonicalOf (apply : TransactionScript R) (store : ObservableStore H)
    (roots : List ValueId) (value : ValueId) (current : PhenixValue) :
    Except (Failure ObservableError) (List ValueChange) :=
  let tx := (apply.run (store.start roots)).1
  canonicalizeRoot current tx.undo tx.touched value

variable {prepared : List (PreparedRoot H)} {canonical : List (ValueId × List ValueChange)}

/-- A root before and after a successful transaction. -/
theorem Commits.exists_after {store store' : ObservableStore H} {roots : List ValueId}
    {apply : TransactionScript R} (h : Commits store roots apply store' prepared canonical)
    {value : ValueId} {before : RegisteredValue} (hv : store.state.values.get? value = some before) :
    ∃ current, (apply.run (store.start roots)).1.state.values.get? value =
        some { before with current } ∧
      store'.state.values.get? value = some
        (if value ∈ canonical.map Prod.fst then { before with current }.bump
          else { before with current }) ∧
      RootHistory before.schema value before.current
        ((apply.run (store.start roots)).1.touched.filter (·.value = value))
        ((apply.run (store.start roots)).1.undo.filter (·.value = value)) current := by
  obtain ⟨current,hget,hh⟩ := apply.run_logged store roots hv
  refine ⟨current,hget,?_,hh⟩
  rw [h.values, hget]
  split_ifs <;> rfl

/-- A root of a commit with its exact canonical changes. -/
structure RootCommit (store : ObservableStore H) (roots : List ValueId)
    (apply : TransactionScript R) (canonical : List (ValueId × List ValueChange))
    (value : ValueId) (before : RegisteredValue) (current : PhenixValue)
    (changes : List ValueChange) : Prop where
  run_eq : (apply.run (store.start roots)).1.state.values.get? value = some { before with current }
  changes_eq : changes = (selectedTouched (apply.run (store.start roots)).1.touched value).filterMap
    (exactChange before.current current)
  canonicalOf_eq : apply.canonicalOf store roots value current = .ok changes
  yields : Yields (some before.current) changes (some current)
  mem_iff : ∀ changes', (value,changes') ∈ canonical ↔ changes' = changes ∧ changes ≠ []

theorem Commits.exists_rootCommit {store store' : ObservableStore H} {roots : List ValueId}
    {apply : TransactionScript R} (h : Commits store roots apply store' prepared canonical)
    {value : ValueId} {before : RegisteredValue} (hv : store.state.values.get? value = some before)
    (hapart : SplicesApart (apply.touchedOn store roots value)) :
    ∃ current changes, RootCommit store roots apply canonical value before current changes ∧
      store'.state.values.get? value = some
        (if value ∈ canonical.map Prod.fst then { before with current }.bump
          else { before with current }) := by
  obtain ⟨current,hget,hafter,hh⟩ := h.exists_after hv
  rw [TransactionScript.touchedOn, ← apply.run_touched store roots] at hapart
  have hchanges := hh.canonicalizeRoot_eq hapart
  obtain ⟨applied,htakes,hsame⟩ := hh.exists_takesAll hapart
  refine ⟨current,_,⟨hget,rfl,hchanges,⟨applied,applyChanges_eq_ok.mpr htakes,hsame⟩,?_⟩,hafter⟩
  intro changes'
  constructor
  · intro hm
    obtain ⟨hne,registered,hr,hc⟩ := h.canonical_eq.of_mem value changes' hm
    obtain rfl : { before with current } = registered := Option.some.inj (hget.symm.trans hr)
    obtain rfl := Except.ok.inj (hchanges.symm.trans hc)
    exact ⟨rfl,hne⟩
  · rintro ⟨rfl,hne⟩
    obtain ⟨t,ht⟩ : ∃ t, t ∈ selectedTouched (apply.run (store.start roots)).1.touched value := by
      refine List.exists_mem_of_ne_nil _ fun he => hne ?_
      rw [he, List.filterMap_nil]
    have hmem := (selects_foldl _).sublist.subset (mem_selectedTouched.mp ht)
    obtain ⟨htm,htv⟩ := List.mem_filter.mp hmem
    obtain ⟨registered,changes,hr,hc,himp⟩ :=
      h.canonical_eq.of_touched value ⟨t,htm,by simpa using htv⟩
    obtain rfl : { before with current } = registered := Option.some.inj (hget.symm.trans hr)
    obtain rfl := Except.ok.inj (hchanges.symm.trans hc)
    exact himp hne

/-- If no write lies strictly below a surviving splice, the canonical changes of a
root give its committed value, and the changes of every recursive subscription
and of every delivery to one give the value that it observes. -/
theorem diff_delivery_faithful (store store' : ObservableStore H) (roots : List ValueId)
    (apply : TransactionScript R) (output : R) (prepared : List (PreparedRoot H))
    (h : store.transactionLocked roots apply = (store',.ok (output,prepared)))
    (value : ValueId) (before : RegisteredValue)
    (hv : store.state.values.get? value = some before)
    (hapart : SplicesApart (apply.touchedOn store roots value)) :
    ∃ after changes, store'.state.values.get? value = some after ∧
      apply.canonicalOf store roots value after.current = .ok changes ∧
      Yields (some before.current) changes (some after.current) ∧
      (∀ spec : ObservationSpec, spec.address.value = value → spec.scope = .recursive →
        Yields (valueAtOptional before.current spec.address.path)
          (changesForSubscription spec changes after.current)
          (valueAtOptional after.current spec.address.path)) ∧
      ∀ root ∈ prepared, root.value = value → ∀ delivery ∈ root.deliveries,
        delivery.entry.spec.address.value = value → delivery.entry.spec.scope = .recursive →
        Yields (valueAtOptional before.current delivery.entry.spec.address.path) delivery.changes
          (valueAtOptional after.current delivery.entry.spec.address.path) := by
  obtain ⟨canonical,hc⟩ := ObservableStore.transactionLocked_eq_ok h
  obtain ⟨current,changes,hroot,hafter⟩ := hc.exists_rootCommit hv hapart
  have hcur : (if value ∈ canonical.map Prod.fst then { before with current }.bump
      else { before with current }).current = current := by
    split_ifs <;> rfl
  refine ⟨_,changes,hafter,?_,?_,?_,?_⟩
  · rw [hcur]
    exact hroot.canonicalOf_eq
  · rw [hcur]
    exact hroot.yields
  · intro spec _ hs
    rw [hcur]
    exact changesForSubscription_yields hroot.yields hs
  · intro root hmem hrv delivery hd _ hs
    rw [hcur]
    obtain ⟨⟨v,changes'⟩,hentry,registered,hp⟩ := Forall₂.exists_left hc.prepares hmem
    obtain rfl : v = value := hp.value_eq.symm.trans hrv
    obtain rfl : { before with current } = registered :=
      Option.some.inj (hroot.run_eq.symm.trans hp.registered_eq)
    obtain ⟨rfl,-⟩ := (hroot.mem_iff changes').mp hentry
    obtain ⟨id,-,-,-,hdc⟩ := mem_prepareDeliveries hp.deliveries_eq hd
    rw [hdc]
    exact changesForSubscription_yields hroot.yields hs

/-! ## Examples of both kinds -/

def itemsRoot : ValueId := ⟨"items",by decide⟩
def itemsOwner : PluginId := ⟨"items-owner",by decide⟩

/-- A registered list of two numbers, with a recursive subscription to all of it. -/
def twoItems : List (StoreCall Unit Unit) :=
  [.register ⟨itemsRoot,itemsOwner,.list .u64,.copyOnChange,.list [.u64 1,.u64 2]⟩,
    .subscribe ⟨⟨itemsRoot,[]⟩,.recursive,.diff,.none⟩ ()]

/-- Make the calls whatever they return, and succeed. -/
def performAll (calls : List MutationCall) : TransactionScript Unit :=
  calls.foldr (fun call rest => .call call fun _ => rest) (.done (.ok ()))

def replaceFirst : TransactionScript Unit := performAll [.replace itemsRoot [.index 0] (.u64 5)]

theorem diff_delivery_faithful_replace :
    let store := ObservableStore.after twoItems
    ∃ after changes,
      (store.transaction [itemsRoot] replaceFirst).1.state.values.get? itemsRoot = some after ∧
      replaceFirst.canonicalOf store [itemsRoot] itemsRoot after.current = .ok changes ∧
      Yields (some (.list [.u64 1,.u64 2])) changes (some after.current) :=
  have ⟨after,changes,hafter,hchanges,hyields,_⟩ := diff_delivery_faithful
    (ObservableStore.after twoItems) _ [itemsRoot] replaceFirst () _ rfl itemsRoot _ rfl (by decide)
  ⟨after,changes,hafter,hchanges,hyields⟩

/-- Replace the first member, then insert before it. -/
def replaceThenInsert : TransactionScript Unit :=
  performAll [.replace itemsRoot [.index 0] (.u64 5),.splice itemsRoot [] 0 0 [.u64 9]]

/-- The replaced member has moved when the list is committed, and the change of
its old place overwrites the inserted one. -/
theorem diff_delivery_unfaithful :
    let store := ObservableStore.after twoItems
    let outcome := store.transaction [itemsRoot] replaceThenInsert
    (outcome.1.state.values.get? itemsRoot).map RegisteredValue.current =
      some (.list [.u64 9,.u64 5,.u64 2]) ∧
    (replaceThenInsert.canonicalOf store [itemsRoot] itemsRoot
      (.list [.u64 9,.u64 5,.u64 2])).toOption.map (applyChanges (some (.list [.u64 1,.u64 2]))) =
        some (.ok (some (.list [.u64 9,.u64 1,.u64 2]))) ∧
    outcome.2.2.map (fun call => applyChanges (some (.list [.u64 1,.u64 2])) call.2.changes) =
      [.ok (some (.list [.u64 9,.u64 1,.u64 2]))] := by
  refine ⟨?_,?_,?_⟩
  · rfl
  · rfl
  · rfl

end PhenixConductor.Observable
