import PhenixConductor.Observable.Invariant
import Mathlib.Data.List.ReduceOption

/-! # Which subscriptions a commit reaches

The collectors of the index find an observation exactly when one of the changes reaches its
address.
-/
namespace PhenixConductor.Observable
open Contract Collections

variable {H : Type}

/-- The change makes the index look at an observation of this address and scope. -/
def ValueChange.Reaches (address : ValuePath) (scope : ObservationScope) : ValueChange → Prop
  | .splice path start deleteCount inserted =>
    (address <+: path ∧ scope = .recursive) ∨ (address = path ∧ scope = .exact) ∨
      ∃ s rest, SubscriptionNode.affectedSegment start deleteCount (UInt32.ofNat inserted.length) s = true ∧
        address = path ++ s :: rest
  | .replace path _ | .remove path => (address <+: path ∧ scope = .recursive) ∨ path <+: address

/-- One change of the loop over the changes. -/
theorem mem_collectForPath_iff (index : SubscriptionNode) (path : ValuePath)
    (output : List ObservationId) (id : ObservationId) :
    id ∈ index.collectForPath path output ↔ id ∈ output ∨ ∃ address scope,
      ((address <+: path ∧ scope = .recursive) ∨ path <+: address) ∧
        index.Subscribed address id scope := by
  rw [SubscriptionNode.mem_collectForPath]
  refine or_congr_right ?_
  constructor
  · rintro (⟨p,hp,h⟩ | ⟨rest,scope,h⟩)
    · exact ⟨p,_,.inl ⟨hp,rfl⟩,h⟩
    · exact ⟨_,scope,.inr (List.prefix_append _ _),h⟩
  · rintro ⟨address,scope,(⟨hp,rfl⟩ | ⟨rest,rfl⟩),h⟩
    · exact .inl ⟨address,hp,h⟩
    · exact .inr ⟨rest,scope,h⟩

theorem mem_collectForSplice_iff (start deleteCount insertedCount : UInt32)
    (index : SubscriptionNode) (path : ValuePath) (output : List ObservationId)
    (id : ObservationId) :
    id ∈ index.collectForSplice start deleteCount insertedCount path output ↔ id ∈ output ∨
      ∃ address scope, ((address <+: path ∧ scope = .recursive) ∨
        (address = path ∧ scope = .exact) ∨
          ∃ s rest, SubscriptionNode.affectedSegment start deleteCount insertedCount s = true ∧
            address = path ++ s :: rest) ∧ index.Subscribed address id scope := by
  rw [SubscriptionNode.mem_collectForSplice]
  refine or_congr_right ?_
  constructor
  · rintro (⟨p,hp,h⟩ | h | ⟨s,rest,scope,ha,h⟩)
    · exact ⟨p,_,.inl ⟨hp,rfl⟩,h⟩
    · exact ⟨path,_,.inr (.inl ⟨rfl,rfl⟩),h⟩
    · exact ⟨_,scope,.inr (.inr ⟨s,rest,ha,rfl⟩),h⟩
  · rintro ⟨address,scope,(⟨hp,rfl⟩ | ⟨rfl,rfl⟩ | ⟨s,rest,ha,rfl⟩),h⟩
    · exact .inl ⟨address,hp,h⟩
    · exact .inr (.inl h)
    · exact .inr (.inr ⟨s,rest,scope,ha,h⟩)

theorem mem_matchedIds (index : SubscriptionNode) (changes : List ValueChange)
    (id : ObservationId) :
    id ∈ matchedIds (some index) changes ↔ ∃ change ∈ changes, ∃ address scope,
      change.Reaches address scope ∧ index.Subscribed address id scope := by
  unfold matchedIds
  rw [mem_foldl_collect (P := fun change : ValueChange => ∃ address scope,
    change.Reaches address scope ∧ index.Subscribed address id scope)]
  · simp
  · intro change _ output
    cases change with
    | replace path value => exact mem_collectForPath_iff index path output id
    | remove path => exact mem_collectForPath_iff index path output id
    | splice path start deleteCount inserted =>
      exact mem_collectForSplice_iff start deleteCount _ index path output id

theorem nodup_matchedIds (index : Option SubscriptionNode) (changes : List ValueChange) :
    (matchedIds index changes).Nodup := by
  cases index with
  | none => exact List.nodup_nil
  | some index =>
    refine nodup_foldl_collect _ List.nodup_nil fun change _ output ho => ?_
    cases change with
    | replace path value => exact index.nodup_collectForPath path ho
    | remove path => exact index.nodup_collectForPath path ho
    | splice path start deleteCount inserted => exact index.nodup_collectForSplice _ _ _ path ho

variable {state : StoreState H} {value : ValueId} {changes : List ValueChange}

variable {id : ObservationId}

/-- A matched id belongs to a live subscription of the root. -/
theorem StoreState.Indexed.matched (h : state.Indexed)
    (hid : id ∈ matchedIds (state.indexes.get? value) changes) :
    ∃ entry, state.subscriptions.get? id = some entry ∧ entry.spec.address.value = value := by
  cases hi : state.indexes.get? value with
  | none => simp [hi, matchedIds] at hid
  | some index =>
    rw [hi, mem_matchedIds] at hid
    obtain ⟨_,_,address,scope,_,hs⟩ := hid
    obtain ⟨entry,he,ha,-⟩ := h.live value address id scope ⟨index,hi,hs⟩
    exact ⟨entry,he,by rw [ha]⟩

/-! ## Preparing the deliveries of a root -/

variable {registered : RegisteredValue}

theorem prepareDelivery_ok
    (h : ∀ entry, state.subscriptions.get? id = some entry → entry.spec.mode = .full → registered.snapshotPolicy = .copyOnChange) :
    ∃ prepared, prepareDelivery state value registered changes id = .ok prepared := by
  unfold prepareDelivery
  cases hs : state.subscriptions.get? id with
  | none => exact ⟨none,rfl⟩
  | some entry =>
    dsimp only
    split_ifs with he hp
    · exact ⟨none,rfl⟩
    · exact absurd (h entry hs hp.1) hp.2
    · exact ⟨_,rfl⟩

variable {delivery : PreparedDelivery H}

theorem prepareDelivery_eq_some
    (h : prepareDelivery state value registered changes id = .ok (some delivery)) :
    state.subscriptions.get? id = some delivery.entry ∧ delivery.changes ≠ [] ∧
      delivery.changes = changesForSubscription delivery.entry.spec changes registered.current := by
  unfold prepareDelivery at h
  cases hs : state.subscriptions.get? id with
  | none => simp [hs] at h
  | some entry =>
    simp only [hs] at h
    split_ifs at h with he hp
    · cases h
    · cases h
      exact ⟨rfl,mt List.isEmpty_iff.mpr he,rfl⟩

/-- Where a delivery is due, preparing an observation gives one or fails. -/
theorem prepareDelivery_of_ne_nil {entry : SubscriptionEntry H}
    {prepared : Option (PreparedDelivery H)}
    (h : prepareDelivery state value registered changes id = .ok prepared)
    (hs : state.subscriptions.get? id = some entry)
    (hne : changesForSubscription entry.spec changes registered.current ≠ []) :
    prepared = some ⟨entry,changesForSubscription entry.spec changes registered.current⟩ := by
  unfold prepareDelivery at h
  simp only [hs, List.isEmpty_iff, hne, if_false] at h
  split_ifs at h
  exact (Except.ok.inj h).symm

variable {deliveries : List (PreparedDelivery H)}

/-- The deliveries of a root, each with the observation that it was prepared for. -/
theorem prepareDeliveries_eq_ok
    (h : prepareDeliveries state value registered changes = .ok deliveries) :
    ∃ prepared, deliveries = prepared.reduceOption ∧
      List.Forall₂ (fun id delivery =>
        prepareDelivery state value registered changes id = .ok delivery)
        (matchedIds (state.indexes.get? value) changes) prepared := by
  obtain ⟨prepared,hp,h⟩ := bind_eq_ok.mp h
  cases h
  exact ⟨prepared,rfl,mapM_eq_ok.mp hp⟩

theorem mem_prepareDeliveries
    (h : prepareDeliveries state value registered changes = .ok deliveries)
    (hd : delivery ∈ deliveries) : ∃ id ∈ matchedIds (state.indexes.get? value) changes,
      state.subscriptions.get? id = some delivery.entry ∧ delivery.changes ≠ [] ∧
      delivery.changes = changesForSubscription delivery.entry.spec changes registered.current := by
  obtain ⟨prepared,rfl,hall⟩ := prepareDeliveries_eq_ok h
  obtain ⟨id,hid,hp⟩ := Forall₂.exists_left hall (List.reduceOption_mem_iff.mp hd)
  exact ⟨id,hid,prepareDelivery_eq_some hp⟩

/-- The deliveries of a root go to different observations among the matched ones. -/
theorem StoreState.Indexed.delivered_sublist (h : state.Indexed)
    (hd : prepareDeliveries state value registered changes = .ok deliveries) :
    (deliveries.map (·.entry.id)).Sublist (matchedIds (state.indexes.get? value) changes) := by
  obtain ⟨prepared,rfl,hall⟩ := prepareDeliveries_eq_ok hd
  clear hd
  generalize matchedIds (state.indexes.get? value) changes = ids at hall ⊢
  induction hall with
  | nil => exact .slnil
  | @cons id delivery ids prepared hp _ ih =>
    cases delivery with
    | none => exact ih.cons id
    | some delivery =>
      have hid := h.entry_id id _ (prepareDelivery_eq_some hp).1
      rw [List.reduceOption_cons_of_some, List.map_cons, hid]
      exact ih.cons_cons id

theorem StoreState.Indexed.prepareDeliveries_ok (h : state.Indexed)
    (hr : state.values.get? value = some registered) (changes : List ValueChange) :
    ∃ deliveries, prepareDeliveries state value registered changes = .ok deliveries := by
  have hall : ∀ id ∈ matchedIds (state.indexes.get? value) changes,
      ∃ prepared, prepareDelivery state value registered changes id = .ok prepared := by
    intro id hid
    refine prepareDelivery_ok fun entry he hm => ?_
    obtain ⟨entry',he',hv⟩ := h.matched hid
    cases he.symm.trans he'
    obtain ⟨root,hroot,hp⟩ := h.registered id entry he
    rw [hv, hr] at hroot
    cases hroot
    exact hp hm
  obtain ⟨prepared,hp⟩ := mapM_ok_of_forall hall
  exact ⟨_,by rw [prepareDeliveries, hp]; rfl⟩

/-- With the subscription invariant the loop over the changed roots returns no error. -/
theorem StoreState.Indexed.prepareRoots_ne_error (h : state.Indexed) (commit : CommitId)
    (canonical : List (ValueId × List ValueChange)) (error : ObservableError) :
    (prepareRoots commit state canonical).2 ≠ .error (.error error) := by
  induction canonical generalizing state with
  | nil => simp [prepareRoots]
  | cons entry rest ih =>
    obtain ⟨value,changes⟩ := entry
    unfold prepareRoots
    cases hr : state.values.get? value with
    | none => simp
    | some registered =>
      have hb : (state.write value registered.bump).Indexed := h.write hr rfl
      have hget : (state.write value registered.bump).values.get? value = some registered.bump := by
        simp
      obtain ⟨deliveries,hd⟩ := hb.prepareDeliveries_ok hget changes
      simp only [RegisteredValue.bump] at hd hb
      simp only [hd]
      intro he
      refine ih hb ?_
      revert he
      generalize (prepareRoots commit _ rest).2 = result
      cases result <;> simp [Except.map]

/-- An error of `finish` is found before anything changes. -/
theorem StoreState.Indexed.finish_same {tx : ObservableTransaction H} (h : tx.state.Indexed)
    {error : ObservableError} (hf : (finish tx).2 = .error (.error error)) :
    (finish tx).1 = tx.state := by
  unfold finish at hf ⊢
  split
  · rfl
  · rfl
  · rename_i canonical hne hc
    simp only [hc] at hf
    have hi : StoreState.Indexed
        { tx.state with nextCommit := saturatingSucc tx.state.nextCommit } :=
      h.of_policies (fun v root hr => ⟨root,hr,rfl⟩) rfl rfl
    exact absurd hf (hi.prepareRoots_ne_error _ _ _)

end PhenixConductor.Observable
