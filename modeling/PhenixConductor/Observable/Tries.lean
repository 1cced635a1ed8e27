import PhenixConductor.Observable.Versions
import PhenixConductor.Observable.Atomicity

/-! # The subscription map and the tries

Every live subscription stands once in the tries, at its own address and under its own scope,
and the tries hold nothing else and no empty node.
-/
namespace PhenixConductor.Observable
open Contract Collections BTreeMap StoreState ObservableStore List
open Nat (zero_le)
variable {H R : Type}

namespace SubscriptionNode

variable {node : SubscriptionNode}

/-- No node below this one is empty. -/
def Pruned (node : SubscriptionNode) : Prop :=
  ∀ s path found, node.descend (s :: path) = some found → found.isEmpty = false

theorem pruned_iff : node.Pruned ↔
    ∀ s child, node.children.get? s = some child → child.isEmpty = false ∧ child.Pruned := by
  constructor
  · intro h s child hchild
    refine ⟨h s [] child (by simp [descend, hchild]),fun u path found hfound => ?_⟩
    exact h s (u :: path) found (by rw [descend, hchild]; exact hfound)
  · intro h s path found hfound
    rw [descend] at hfound
    obtain ⟨child,hchild,hfound⟩ := Option.bind_eq_some_iff.mp hfound
    obtain ⟨hempty,hpruned⟩ := h s child hchild
    cases path with
    | nil =>
      cases hfound
      exact hempty
    | cons u path => exact hpruned u path found hfound

theorem pruned_empty : empty.Pruned := by
  rw [pruned_iff]
  intro s child hchild
  simp [empty, children] at hchild

theorem isEmpty_eq_false_of_mem {path : ValuePath} {id : ObservationId} {scope : ObservationScope}
    (h : id ∈ node.idsAt path scope) : node.isEmpty = false := by
  by_contra hempty
  rw [Bool.not_eq_false] at hempty
  rw [idsAt_eq_nil hempty] at h
  exact not_mem_nil h

theorem isEmpty_insert (node : SubscriptionNode) (path : ValuePath) (id : ObservationId)
    (scope : ObservationScope) : (insert id scope node path).isEmpty = false := by
  have hmem : id ∈ (insert id scope node path).idsAt path scope := by
    rw [idsAt_insert]
    simp
  exact isEmpty_eq_false_of_mem hmem

theorem Pruned.insert (h : node.Pruned) (id : ObservationId) (scope : ObservationScope)
    (path : ValuePath) : (insert id scope node path).Pruned := by
  induction path generalizing node with
  | nil =>
    obtain ⟨exact,recursive,children⟩ := node
    cases scope <;> exact pruned_iff.mpr (pruned_iff.mp h)
  | cons s path ih =>
    obtain ⟨exact,recursive,children⟩ := node
    have hchildren := pruned_iff.mp h
    rw [pruned_iff]
    intro u child hchild
    simp only [SubscriptionNode.insert, SubscriptionNode.children, get?_insert] at hchild hchildren
    split_ifs at hchild with hu
    · cases hchild
      refine ⟨isEmpty_insert _ _ _ _,ih ?_⟩
      cases hget : children.get? s with
      | none => exact pruned_empty
      | some found => exact (hchildren s found hget).2
    · exact hchildren u child hchild

theorem Pruned.remove (h : node.Pruned) (id : ObservationId) (scope : ObservationScope)
    (path : ValuePath) : (remove id scope node path).Pruned := by
  induction path generalizing node with
  | nil =>
    obtain ⟨exact,recursive,children⟩ := node
    cases scope <;> exact pruned_iff.mpr (pruned_iff.mp h)
  | cons s path ih =>
    obtain ⟨exact,recursive,children⟩ := node
    have hchildren := pruned_iff.mp h
    cases hget : children.get? s with
    | none =>
      simp only [SubscriptionNode.remove, hget]
      exact h
    | some found =>
      simp only [SubscriptionNode.remove, hget]
      rw [pruned_iff]
      intro u child hchild
      simp only [SubscriptionNode.children] at hchild hchildren
      split_ifs at hchild with hempty
      · rw [get?_erase] at hchild
        split_ifs at hchild
        exact hchildren u child hchild
      · rw [get?_insert] at hchild
        split_ifs at hchild
        · cases hchild
          exact ⟨Bool.eq_false_iff.mpr hempty,ih (hchildren s found hget).2⟩
        · exact hchildren u child hchild

end SubscriptionNode

namespace StoreState

/-- The ids that stand at a path of a root under a scope. -/
def idsAt (state : StoreState H) (v : ValueId) (path : ValuePath) (scope : ObservationScope) :
    List ObservationId :=
  ((state.indexes.get? v).map fun index => index.idsAt path scope).getD []

/-- A subscription gets the current value when it starts or with every change. -/
def WantsSnapshots (entry : SubscriptionEntry H) : Prop :=
  entry.spec.mode = .full ∨ entry.spec.initial = .full

/-- The map of subscriptions and the tries agree. -/
structure Agrees (state : StoreState H) : Prop where
  once : ∀ id entry, state.subscriptions.get? id = some entry → entry.id = id ∧
    ∀ v path scope, (state.idsAt v path scope).count id =
      if entry.spec.address = ⟨v,path⟩ ∧ entry.spec.scope = scope then 1 else 0
  live : ∀ v path scope, ∀ id ∈ state.idsAt v path scope,
    v ∈ state.values.keys ∧ id ∈ state.subscriptions.keys
  pruned : ∀ v index, state.indexes.get? v = some index → index.isEmpty = false ∧ index.Pruned
  copies : ∀ id entry, state.subscriptions.get? id = some entry → WantsSnapshots entry →
    ∃ root, state.values.get? entry.spec.address.value = some root ∧
      root.snapshotPolicy = .copyOnChange

/-- What the calls keep. -/
structure Kept (state : StoreState H) : Prop where
  indexed : state.Indexed
  distinct : ∀ v path scope, (state.idsAt v path scope).Nodup
  pruned : ∀ v index, state.indexes.get? v = some index → index.isEmpty = false ∧ index.Pruned
  copies : ∀ id entry, state.subscriptions.get? id = some entry → WantsSnapshots entry →
    ∃ root, state.values.get? entry.spec.address.value = some root ∧
      root.snapshotPolicy = .copyOnChange

theorem mem_idsAt {state : StoreState H} {v : ValueId} {path : ValuePath} {id : ObservationId}
    {scope : ObservationScope} :
    id ∈ state.idsAt v path scope ↔ state.SubscribedAt v path id scope := by
  unfold idsAt SubscribedAt
  cases state.indexes.get? v <;> simp [SubscriptionNode.mem_idsAt]

theorem Kept.agrees {state : StoreState H} (h : state.Kept) : state.Agrees where
  once id entry he := by
    refine ⟨h.indexed.entry_id id entry he,fun v path scope => ?_⟩
    split_ifs with hat
    · obtain ⟨haddress,rfl⟩ := hat
      have hmem := mem_idsAt.mpr (h.indexed.indexed id entry he)
      rw [haddress] at hmem
      exact count_eq_one_of_mem (h.distinct v path _) hmem
    · apply count_eq_zero_of_not_mem
      intro hmem
      obtain ⟨entry',he',haddress,hscope⟩ := h.indexed.live v path id scope (mem_idsAt.mp hmem)
      cases he.symm.trans he'
      exact hat ⟨haddress,hscope⟩
  live v path scope id hid := by
    obtain ⟨entry,he,haddress,-⟩ := h.indexed.live v path id scope (mem_idsAt.mp hid)
    obtain ⟨root,hroot,-⟩ := h.indexed.registered id entry he
    rw [haddress] at hroot
    rw [mem_keys_iff, mem_keys_iff, hroot, he]
    exact ⟨rfl,rfl⟩
  pruned := h.pruned
  copies := h.copies

theorem idsAt_admission (state : StoreState H) (spec : ObservationSpec) (handler : H)
    (v : ValueId) (path : ValuePath) (scope : ObservationScope) :
    (admitSubscription spec handler state).idsAt v path scope =
      if spec.address = ⟨v,path⟩ ∧ scope = spec.scope then
        state.idsAt v path scope ++ [state.nextObservation]
      else state.idsAt v path scope := by
  obtain ⟨⟨value,address⟩,specScope,mode,initial⟩ := spec
  simp only [idsAt, admitSubscription, get?_insert, ValueAddress.mk.injEq]
  by_cases hv : v = value
  · subst hv
    simp only [if_true, Option.map_some, Option.getD_some, SubscriptionNode.idsAt_insert, true_and,
      eq_comm (a := address)]
    cases state.indexes.get? v with
    | none => simp [SubscriptionNode.idsAt_eq_nil SubscriptionNode.isEmpty_empty]
    | some index => simp
  · simp [hv, Ne.symm hv]

theorem idsAt_drop (state : StoreState H) (id : ObservationId) (entry : SubscriptionEntry H)
    (v : ValueId) (path : ValuePath) (scope : ObservationScope) :
    (dropSubscription id entry state).idsAt v path scope =
      if entry.spec.address = ⟨v,path⟩ ∧ scope = entry.spec.scope then
        (state.idsAt v path scope).filter (· ≠ id)
      else state.idsAt v path scope := by
  obtain ⟨entryId,⟨⟨value,address⟩,specScope,mode,initial⟩,generation,handler⟩ := entry
  cases hi : state.indexes.get? value with
  | none =>
    simp only [idsAt, dropSubscription, hi, ValueAddress.mk.injEq]
    split_ifs with hat
    · obtain ⟨⟨rfl,-⟩,-⟩ := hat
      simp [hi]
    · rfl
  | some index =>
    have hremove := SubscriptionNode.idsAt_remove index address path id specScope scope
    simp only [idsAt, dropSubscription, hi, ValueAddress.mk.injEq]
    by_cases hv : v = value
    · subst hv
      simp only [eq_comm (a := path)] at hremove
      simp only [hi, Option.map_some, Option.getD_some, true_and]
      rw [← hremove]
      split_ifs with hempty
      · simp [SubscriptionNode.idsAt_eq_nil hempty]
      · simp
    · have hne : ¬((value = v ∧ address = path) ∧ scope = specScope) := by simp [Ne.symm hv]
      rw [if_neg hne]
      split_ifs <;> simp [get?_erase_of_ne, get?_insert_of_ne, hv]

namespace Kept
variable {state state' : StoreState H}

theorem default : (StoreState.default : StoreState H).Kept where
  indexed := .default
  distinct v path scope := by simp [idsAt, StoreState.default]
  pruned v index h := by simp [StoreState.default] at h
  copies id entry h := by simp [StoreState.default] at h

/-- Only the snapshot policies of the registered values matter. -/
theorem of_policies (h : state.Kept)
    (hv : ∀ v root, state.values.get? v = some root → ∃ root', state'.values.get? v = some root' ∧
      root'.snapshotPolicy = root.snapshotPolicy)
    (hs : state'.subscriptions = state.subscriptions) (hi : state'.indexes = state.indexes) :
    state'.Kept where
  indexed := h.indexed.of_policies hv hs hi
  distinct v path scope := by
    rw [idsAt, hi]
    exact h.distinct v path scope
  pruned := hi ▸ h.pruned
  copies id entry he hwants := by
    obtain ⟨root,hroot,hpolicy⟩ := h.copies id entry (hs ▸ he) hwants
    obtain ⟨root',hroot',hsame⟩ := hv _ root hroot
    exact ⟨root',hroot',hsame.trans hpolicy⟩

theorem write (h : state.Kept) {value : ValueId} {registered changed : RegisteredValue}
    (hr : state.values.get? value = some registered)
    (hp : changed.snapshotPolicy = registered.snapshotPolicy) :
    (state.write value changed).Kept := by
  refine h.of_policies (fun v root hv => ?_) rfl rfl
  rw [get?_write]
  split_ifs with he
  · subst he
    cases hr.symm.trans hv
    exact ⟨changed,rfl,hp⟩
  · exact ⟨root,hv,rfl⟩

theorem register (h : state.Kept) {value : ValueId} (registered : RegisteredValue)
    (hk : value ∉ state.values.keys) : (state.write value registered).Kept := by
  refine h.of_policies (fun v root hv => ⟨root,?_,rfl⟩) rfl rfl
  have hne : v ≠ value := by
    rintro rfl
    exact hk ((mem_keys_iff _).mpr (by simp [hv]))
  rw [get?_write, if_neg hne, hv]

/-- An unregistered root takes its own subscriptions with it, and no other. -/
theorem get?_unregister (h : state.Indexed) (value : ValueId) (id : ObservationId)
    (entry : SubscriptionEntry H) :
    ((indexedIds state value).foldl
      (fun subscriptions id => subscriptions.erase id) state.subscriptions).get? id = some entry ↔
      state.subscriptions.get? id = some entry ∧ entry.spec.address.value ≠ value := by
  rw [get?_foldl_erase]
  split_ifs with hid
  · obtain ⟨found,hfound,hvalue⟩ := h.mem_indexedIds.mp hid
    rw [hfound]
    constructor
    · intro hnone
      cases hnone
    · rintro ⟨hsame,hne⟩
      cases hsame
      exact absurd hvalue hne
  · constructor
    · exact fun he => ⟨he,fun hvalue => hid (h.mem_indexedIds.mpr ⟨entry,he,hvalue⟩)⟩
    · exact And.left

theorem unregister (h : state.Kept) (value : ValueId) :
    Kept { state with
      values := state.values.erase value
      indexes := state.indexes.erase value
      subscriptions := (indexedIds state value).foldl
        (fun subscriptions id => subscriptions.erase id) state.subscriptions } where
  indexed := h.indexed.unregister value
  distinct v path scope := by
    have hdistinct := h.distinct v path scope
    unfold idsAt at hdistinct ⊢
    simp only [get?_erase]
    split_ifs
    · exact nodup_nil
    · exact hdistinct
  pruned v index hindex := by
    simp only [get?_erase] at hindex
    split_ifs at hindex
    exact h.pruned v index hindex
  copies id entry he hwants := by
    obtain ⟨he,hne⟩ := (get?_unregister h.indexed value id entry).mp he
    simpa only [get?_erase_of_ne _ hne] using h.copies id entry he hwants

theorem subscribe (h : state.Kept) {spec : ObservationSpec} {root : RegisteredValue} (handler : H)
    (hr : state.values.get? spec.address.value = some root)
    (hp : spec.mode = .full ∨ spec.initial = .full → root.snapshotPolicy = .copyOnChange)
    (hf : state.FreshId) : (admitSubscription spec handler state).Kept where
  indexed := h.indexed.subscribe handler hr (fun hm => hp (.inl hm)) hf
  distinct v path scope := by
    rw [idsAt_admission]
    split_ifs
    · apply nodup_append.mpr
      refine ⟨h.distinct v path scope,nodup_singleton _,?_⟩
      rintro id hid _ hnew rfl
      rw [mem_singleton] at hnew
      subst hnew
      obtain ⟨entry,he,-⟩ := h.indexed.live v path _ scope (mem_idsAt.mp hid)
      cases he.symm.trans hf
    · exact h.distinct v path scope
  pruned v index hindex := by
    simp only [admitSubscription, get?_insert] at hindex
    split_ifs at hindex
    · cases hindex
      refine ⟨SubscriptionNode.isEmpty_insert _ _ _ _,SubscriptionNode.Pruned.insert ?_ _ _ _⟩
      cases hget : state.indexes.get? spec.address.value with
      | none => exact SubscriptionNode.pruned_empty
      | some found => exact (h.pruned _ found hget).2
    · exact h.pruned v index hindex
  copies id entry he hwants := by
    simp only [admitSubscription, get?_insert] at he
    split_ifs at he
    · cases he
      exact ⟨root,hr,hp hwants⟩
    · exact h.copies id entry he hwants

theorem unsubscribe (h : state.Kept) {id : ObservationId} {entry : SubscriptionEntry H}
    (he : state.subscriptions.get? id = some entry) :
    (dropSubscription id entry state).Kept where
  indexed := h.indexed.unsubscribe he
  distinct v path scope := by
    rw [idsAt_drop]
    split_ifs
    · exact (h.distinct v path scope).filter _
    · exact h.distinct v path scope
  pruned v index hindex := by
    unfold dropSubscription at hindex
    dsimp only at hindex
    split at hindex
    · exact h.pruned v index hindex
    · next found hfound =>
      dsimp only at hindex
      split_ifs at hindex with hempty
      · rw [get?_erase] at hindex
        split_ifs at hindex
        exact h.pruned v index hindex
      · rw [get?_insert] at hindex
        split_ifs at hindex
        · cases hindex
          exact ⟨Bool.eq_false_iff.mpr hempty,(h.pruned _ found hfound).2.remove _ _ _⟩
        · exact h.pruned v index hindex
  copies j e hj hwants := by
    rw [dropSubscription_subscriptions, get?_erase] at hj
    split_ifs at hj
    rw [dropSubscription_values]
    exact h.copies j e hj hwants

theorem closed (state : StoreState H) : Kept
    ({ state with closed := true, subscriptions := .empty, indexes := .empty } : StoreState H) where
  indexed := by constructor <;> simp [SubscribedAt]
  distinct v path scope := by simp [idsAt]
  pruned v index hindex := by simp at hindex
  copies id entry he := by simp at he

end Kept
end StoreState

/-! ## Along the calls -/

/-- One call keeps the tries in step with the map if it hands out no live id. -/
theorem ObservableStore.step_kept (store : ObservableStore H) (call : StoreCall H R)
    (h : store.state.Kept) (hf : store.FreshSubscribe call) : (store.step call).state.Kept := by
  have heffect := store.step_effect call
  generalize (store.step call).state = state' at heffect ⊢
  cases heffect with
  | none => exact h
  | register _ hnew => exact h.register _ hnew
  | unregister value => exact h.unregister value
  | subscribe hfound hpolicy haccepted =>
    obtain ⟨result,hresult⟩ := haccepted
    exact h.subscribe _ hfound hpolicy (hf result hresult)
  | unsubscribe hfound => exact h.unsubscribe hfound
  | close => exact .closed _
  | transaction roots apply =>
    exact transactionLocked_invariant (P := StoreState.Kept)
      (fun _ _ _ _ hs hr => hs.write hr rfl) (fun _ _ _ hs hr => hs.write hr rfl)
      (fun _ hs => hs.of_policies (fun _ root hr => ⟨root,hr,rfl⟩) rfl rfl) h roots apply

theorem FreshRun.kept {calls : List (StoreCall H R)} (h : FreshRun calls) :
    (after calls).state.Kept :=
  h.invariant (I := fun store : ObservableStore H => store.state.Kept)
    (fun store call hs hf => store.step_kept call hs hf) .default

/-! ## Handles -/

/-- The handle that a call returns. -/
def ObservableStore.issued (store : ObservableStore H) :
    StoreCall H R → List ObservationSubscription
  | .subscribe spec handler =>
    match (store.subscribe spec handler).2 with
    | .ok (handle,_) => [handle]
    | .error _ => []
  | _ => []

/-- The handle that a call of unsubscribe returned true for. -/
def ObservableStore.released (store : ObservableStore H) :
    StoreCall H R → List ObservationSubscription
  | .unsubscribe subscription =>
    match (store.unsubscribe subscription).2 with
    | .ok found => if found then [subscription] else []
    | .error _ => []
  | _ => []

/-- One if the handle is live. -/
def StoreState.holds (state : StoreState H) (handle : ObservationSubscription) : ℕ :=
  match state.subscriptions.get? handle.id with
  | some entry => if entry.generation = handle.generation then 1 else 0
  | none => 0

theorem StoreState.holds_le_one (state : StoreState H) (handle : ObservationSubscription) :
    state.holds handle ≤ 1 := by
  unfold holds
  split
  · split_ifs <;> omega
  · omega

theorem StoreState.holds_le {state state' : StoreState H}
    (h : ∀ id entry, state'.subscriptions.get? id = some entry →
      state.subscriptions.get? id = some entry) (handle : ObservationSubscription) :
    state'.holds handle ≤ state.holds handle := by
  unfold holds
  cases he : state'.subscriptions.get? handle.id with
  | none => exact zero_le _
  | some entry => rw [h _ entry he]

/-- A call releases a handle only from the live ones and makes live only what it returns. -/
theorem ObservableStore.step_holds (store : ObservableStore H) (call : StoreCall H R)
    (handle : ObservationSubscription) :
    (store.released call).count handle + (store.step call).state.holds handle ≤
      store.state.holds handle + (store.issued call).count handle := by
  have hlocked {R : Type} {body : StoreState H → Except ObservableError (StoreState H × R)}
      (hbody : ∀ state' result, body store.state = .ok (state',result) →
        state'.holds handle ≤ store.state.holds handle) :
      (store.locked body).1.state.holds handle ≤ store.state.holds handle :=
    locked_invariant (P := fun s : ObservableStore H => s.state.holds handle ≤ store.state.holds handle)
      le_rfl fun _ => hbody
  cases call with
  | register registration =>
    simp only [released, issued, count_nil, zero_add, add_zero, step, register]
    split
    · exact le_rfl
    · refine hlocked fun state' result hb => ?_
      obtain ⟨-,rfl⟩ := registerBody_eq_ok hb
      exact holds_le (fun _ _ he => he) handle
  | unregister value =>
    simp only [released, issued, count_nil, zero_add, add_zero]
    refine hlocked fun state' result hb => ?_
    obtain ⟨-,rfl⟩ := unregisterBody_eq_ok hb
    refine holds_le (fun id entry he => ?_) handle
    rw [get?_foldl_erase] at he
    split_ifs at he
    exact he
  | subscribe spec handler =>
    simp only [released, count_nil, zero_add]
    cases hr : (store.subscribe spec handler).2 with
    | error failure =>
      have hsame : (store.subscribe spec handler).1 = store := locked_eq_error hr
      simp only [step, hsame, issued, hr, count_nil, add_zero, le_refl]
    | ok result =>
      obtain ⟨new,initial⟩ := result
      obtain ⟨-,-,-,hafter,rfl,-⟩ := subscribeBody_eq_ok (locked_eq_ok hr)
      have hget : ∀ id, (store.subscribe spec handler).1.state.subscriptions.get? id =
          if id = store.state.nextObservation
          then some ⟨store.state.nextObservation,spec,store.state.nextGeneration,handler⟩
          else store.state.subscriptions.get? id := by
        intro id
        rw [subscribe, hafter]
        exact get?_insert _ _ _ _
      by_cases hnew : handle = ⟨store.state.nextObservation,store.state.nextGeneration⟩
      · have hone := (store.subscribe spec handler).1.state.holds_le_one handle
        simp only [step, issued, hr, hnew, count_singleton_self] at hone ⊢
        omega
      · simp only [step, issued, hr, count_singleton, beq_iff_eq, Ne.symm hnew, if_false,
          add_zero, StoreState.holds, hget]
        by_cases hid : handle.id = store.state.nextObservation
        · have hgeneration : store.state.nextGeneration ≠ handle.generation := by
            intro hsame
            apply hnew
            rw [← hid, hsame]
          simp only [if_pos hid, if_neg hgeneration, zero_le]
        · simp only [if_neg hid, le_refl]
  | unsubscribe subscription =>
    have hle : (store.unsubscribe subscription).1.state.holds handle ≤ store.state.holds handle := by
      refine hlocked fun state' result hb => ?_
      rcases unsubscribeBody_eq_ok hb with rfl | ⟨entry,-,rfl⟩
      · exact le_rfl
      · refine holds_le (fun id e he => ?_) handle
        rw [dropSubscription_subscriptions, get?_erase] at he
        split_ifs at he
        exact he
    cases hr : (store.unsubscribe subscription).2 with
    | error failure =>
      simp only [released, hr, count_nil, zero_add]
      exact hle
    | ok found =>
      cases found with
      | false =>
        simp only [released, hr, Bool.false_eq_true, if_false, count_nil, zero_add]
        exact hle
      | true =>
        obtain ⟨entry,hentry,hgeneration,hafter⟩ := unsubscribeBody_eq_true (locked_eq_ok hr)
        simp only [released, hr, if_true, count_singleton]
        split_ifs with hsame
        · rw [beq_iff_eq] at hsame
          subst hsame
          have hgone : (store.unsubscribe subscription).1.state.holds subscription = 0 := by
            simp only [StoreState.holds, unsubscribe, hafter,
              dropSubscription_subscriptions, get?_erase, if_true]
          have hwas : store.state.holds subscription = 1 := by
            simp only [StoreState.holds, hentry, if_pos hgeneration]
          simp only [step]
          omega
        · rw [zero_add]
          exact hle
  | close =>
    simp only [released, issued, count_nil, zero_add, add_zero]
    refine hlocked fun state' result hb => ?_
    cases hb
    exact holds_le (fun id entry he => by simp at he) handle
  | transaction roots apply =>
    simp only [released, issued, count_nil, zero_add, add_zero]
    have hsubs : (store.transactionLocked roots apply).1.state.subscriptions =
        store.state.subscriptions :=
      transactionLocked_invariant
        (P := fun state : StoreState H => state.subscriptions = store.state.subscriptions)
        (fun _ _ _ _ hs _ => hs) (fun _ _ _ hs _ => hs) (fun _ hs => hs) rfl roots apply
    exact holds_le (fun id entry he => hsubs ▸ he) handle

/-- Over a run, a handle is released at most as often as it was returned. -/
theorem outputs_released_le (calls : List (StoreCall H R)) (store : ObservableStore H)
    (handle : ObservationSubscription) :
    (outputs step released store calls).count handle ≤
      store.state.holds handle +
        (outputs step issued store calls).count handle := by
  induction calls generalizing store with
  | nil => exact zero_le _
  | cons call calls ih =>
    have hstep := store.step_holds call handle
    have hrest := ih (store.step call)
    simp only [outputs, count_append]
    omega

/-! ## The map and the tries -/

/-- If no accepted subscription takes over a live id, then the map and the tries agree, a
root that is unregistered takes away its own subscriptions and no other, and no handle is
released more often than it was returned. -/
theorem subscriptions_agree (calls : List (StoreCall H R)) (hfresh : FreshRun calls) :
    (after calls).state.Agrees ∧
    (∀ value, ((after calls).unregister value).2 = .ok () → ∀ id entry,
      ((after calls).unregister value).1.state.subscriptions.get? id = some entry ↔
        (after calls).state.subscriptions.get? id = some entry ∧
          entry.spec.address.value ≠ value) ∧
    ∀ handle, (outputs ObservableStore.step ObservableStore.released .default calls).count handle ≤
      (outputs ObservableStore.step ObservableStore.issued .default calls).count handle := by
  have hkept := hfresh.kept
  refine ⟨hkept.agrees,fun value hok id entry => ?_,fun handle => ?_⟩
  · obtain ⟨-,hafter⟩ := ObservableStore.unregisterBody_eq_ok (locked_eq_ok hok)
    rw [unregister, hafter]
    exact StoreState.Kept.get?_unregister hkept.indexed value id entry
  · have hle := outputs_released_le calls .default handle
    have hnone : (default : ObservableStore H).state.holds handle = 0 := rfl
    omega

/-- One subscription to a member of a list. -/
theorem subscriptions_agree_watchFirst : (after watchFirst).state.Agrees :=
  (subscriptions_agree watchFirst watchFirst_fresh).1

/-- The trie of `a` keeps the id that the other subscription took over. -/
theorem taken_over_id :
    let state := (after collision).state
    (state.idsAt rootA [] .exact).count u64Max = 1 ∧
      (state.subscriptions.get? u64Max).map (fun entry => entry.spec.address) = some ⟨rootB,[]⟩ ∧
      ¬ state.Agrees := by
  have hcount : (((after collision).state).idsAt rootA [] .exact).count u64Max = 1 := by
    rw [after_collision]
    rfl
  obtain ⟨entry,hentry,haddress⟩ : ∃ entry,
      (after collision).state.subscriptions.get? u64Max = some entry ∧
        entry.spec.address = ⟨rootB,[]⟩ := by
    rw [after_collision]
    exact ⟨_,rfl,rfl⟩
  refine ⟨hcount,?_,fun hagrees => ?_⟩
  · rw [hentry, Option.map_some, haddress]
  · have hone := (hagrees.once u64Max entry hentry).2 rootA [] .exact
    have hne : entry.spec.address ≠ ⟨rootA,[]⟩ := by
      rw [haddress]
      decide
    rw [hcount, if_neg fun hat => hne hat.1] at hone
    exact absurd hone one_ne_zero

end PhenixConductor.Observable
