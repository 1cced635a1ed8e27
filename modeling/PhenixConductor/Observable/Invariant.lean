import PhenixConductor.Observable.Run

/-! # The subscription invariant

Live subscriptions and the tries of their roots describe the same observations, every live
subscription addresses a registered root, and one that wants snapshots addresses a root that
copies them.
-/
namespace PhenixConductor.Observable
open Contract Collections BTreeMap ObservableStore SubscriptionNode

variable {H R : Type}

/-- Observation `id` stands in the trie of root `v` at `path` under `scope`. -/
def StoreState.SubscribedAt (state : StoreState H) (v : ValueId) (path : ValuePath)
    (id : ObservationId) (scope : ObservationScope) : Prop :=
  ∃ index, state.indexes.get? v = some index ∧ index.Subscribed path id scope

/-- Subscriptions and indexes agree, and snapshots are available where wanted. -/
structure StoreState.Indexed (state : StoreState H) : Prop where
  entry_id : ∀ id entry, state.subscriptions.get? id = some entry → entry.id = id
  registered : ∀ id entry, state.subscriptions.get? id = some entry →
    ∃ root, state.values.get? entry.spec.address.value = some root ∧
      (entry.spec.mode = .full → root.snapshotPolicy = .copyOnChange)
  indexed : ∀ id entry, state.subscriptions.get? id = some entry →
    state.SubscribedAt entry.spec.address.value entry.spec.address.path id entry.spec.scope
  live : ∀ v path id scope, state.SubscribedAt v path id scope →
    ∃ entry, state.subscriptions.get? id = some entry ∧ entry.spec.address = ⟨v,path⟩ ∧
      entry.spec.scope = scope

/-- The id that `subscribe` would hand out is not live. -/
def StoreState.FreshId (state : StoreState H) : Prop :=
  state.subscriptions.get? state.nextObservation = none

/-- An accepted `subscribe` hands out an id that is not live. -/
def ObservableStore.FreshSubscribe (store : ObservableStore H) : StoreCall H R → Prop
  | .subscribe spec handler =>
    ∀ result, (store.subscribe spec handler).2 = .ok result → store.state.FreshId
  | _ => True

namespace StoreState

theorem subscribedAt_admission (state : StoreState H) (spec : ObservationSpec) (handler : H)
    (v : ValueId) (path : ValuePath) (id : ObservationId) (scope : ObservationScope) :
    (admitSubscription spec handler state).SubscribedAt v path id scope ↔
      state.SubscribedAt v path id scope ∨
        (spec.address = ⟨v,path⟩ ∧ id = state.nextObservation ∧ scope = spec.scope) := by
  obtain ⟨⟨value,address⟩,specScope,mode,initial⟩ := spec
  simp only [SubscribedAt, admitSubscription, get?_insert,
    ValueAddress.mk.injEq]
  split_ifs with hv
  · subst hv
    simp only [Option.some.injEq, exists_eq_left', subscribed_insert, true_and]
    cases state.indexes.get? v with
    | none => simp [not_subscribed_empty, eq_comm]
    | some index => simp [eq_comm]
  · simp [Ne.symm hv]

theorem subscribedAt_drop (state : StoreState H) (id : ObservationId) (entry : SubscriptionEntry H)
    (v : ValueId) (path : ValuePath) (j : ObservationId) (scope : ObservationScope) :
    (dropSubscription id entry state).SubscribedAt v path j scope ↔
      state.SubscribedAt v path j scope ∧
        ¬ (entry.spec.address = ⟨v,path⟩ ∧ j = id ∧ scope = entry.spec.scope) := by
  obtain ⟨entryId,⟨⟨value,address⟩,specScope,mode,initial⟩,generation,handler⟩ := entry
  cases hi : state.indexes.get? value with
  | none =>
    simp only [SubscribedAt, dropSubscription, hi, ValueAddress.mk.injEq]
    constructor
    · rintro ⟨index,hv,hs⟩
      refine ⟨⟨index,hv,hs⟩,?_⟩
      rintro ⟨⟨rfl,-⟩,-⟩
      simp [hi] at hv
    · exact And.left
  | some index =>
    have hrm := subscribed_remove index address path id j specScope scope
    simp only [SubscribedAt, dropSubscription, hi, ValueAddress.mk.injEq]
    by_cases hv : v = value
    · subst hv
      split_ifs with he
      · simp only [get?_erase_self, reduceCtorEq, false_and, exists_false, hi,
          Option.some.injEq, exists_eq_left', true_and, false_iff, eq_comm (a := address)]
        exact hrm.not.mp (not_subscribed_of_isEmpty he _ _ _)
      · simp [hi, hrm, eq_comm (a := address)]
    · split_ifs <;> simp [get?_erase_of_ne, get?_insert_of_ne, hv, Ne.symm hv]

theorem dropSubscription_subscriptions (state : StoreState H) (id : ObservationId)
    (entry : SubscriptionEntry H) :
    (dropSubscription id entry state).subscriptions =
      state.subscriptions.erase id := by
  unfold dropSubscription
  dsimp only
  split <;> rfl

namespace Indexed
variable {state state' : StoreState H}

theorem default : (StoreState.default : StoreState H).Indexed where
  entry_id id entry h := by simp [StoreState.default] at h
  registered id entry h := by simp [StoreState.default] at h
  indexed id entry h := by simp [StoreState.default] at h
  live v path id scope h := by simp [SubscribedAt, StoreState.default] at h

/-- Only the snapshot policies of the registered values matter. -/
theorem of_policies (h : state.Indexed)
    (hv : ∀ v root, state.values.get? v = some root → ∃ root', state'.values.get? v = some root' ∧
      root'.snapshotPolicy = root.snapshotPolicy)
    (hs : state'.subscriptions = state.subscriptions) (hi : state'.indexes = state.indexes) :
    state'.Indexed where
  entry_id := hs ▸ h.entry_id
  registered id entry he := by
    obtain ⟨root,hr,hp⟩ := h.registered id entry (hs ▸ he)
    obtain ⟨root',hr',hp'⟩ := hv _ root hr
    exact ⟨root',hr',fun hm => hp'.trans (hp hm)⟩
  indexed id entry he := by
    unfold SubscribedAt
    rw [hi]
    exact h.indexed id entry (hs ▸ he)
  live v path id scope hsub := by
    unfold SubscribedAt at hsub
    rw [hi] at hsub
    rw [hs]
    exact h.live v path id scope hsub

theorem of_contents_eq (h : state.Indexed) (hc : state'.contents = state.contents) :
    state'.Indexed := by
  have hs : state'.contents.subscriptions = state.contents.subscriptions := by rw [hc]
  have hi : state'.contents.indexes = state.contents.indexes := by rw [hc]
  refine h.of_policies (fun v root hr => ?_) hs hi
  have hv : (state'.values.get? v).map RegisteredValue.contents =
      (state.values.get? v).map RegisteredValue.contents := by
    rw [← get?_mapVal, ← get?_mapVal]
    exact congrArg (fun s : StoreState H => s.values.get? v) hc
  rw [hr] at hv
  obtain ⟨root',hr',he⟩ := Option.map_eq_some_iff.mp hv
  have hp : root'.contents.snapshotPolicy = root.contents.snapshotPolicy := by rw [he]
  exact ⟨root',hr',hp⟩

theorem write (h : state.Indexed) {value : ValueId} {registered changed : RegisteredValue}
    (hr : state.values.get? value = some registered)
    (hp : changed.snapshotPolicy = registered.snapshotPolicy) :
    (state.write value changed).Indexed := by
  refine h.of_policies (fun v root hv => ?_) rfl rfl
  rw [get?_write]
  split_ifs with he
  · subst he
    cases hr.symm.trans hv
    exact ⟨changed,rfl,hp⟩
  · exact ⟨root,hv,rfl⟩

theorem performs {tx tx' : ObservableTransaction H} {calls : List MutationCall}
    (h : tx.state.Indexed) (hp : Performs tx calls tx') : tx'.state.Indexed := by
  refine hp.invariant (P := StoreState.Indexed) ?_ h
  intro state value registered path kind undo new hs hr hm
  exact hs.write hr rfl

theorem register (h : state.Indexed) {value : ValueId} (registered : RegisteredValue)
    (hk : value ∉ state.values.keys) : (state.write value registered).Indexed := by
  refine h.of_policies (fun v root hv => ⟨root,?_,rfl⟩) rfl rfl
  have hne : v ≠ value := by
    rintro rfl
    exact hk ((mem_keys_iff _).mpr (by simp [hv]))
  rw [get?_write, if_neg hne, hv]

/-- The observations that an unregistered root takes with it are its own. -/
theorem mem_indexedIds (h : state.Indexed) {v : ValueId} {id : ObservationId} :
    id ∈ indexedIds state v ↔
      ∃ entry, state.subscriptions.get? id = some entry ∧ entry.spec.address.value = v := by
  unfold indexedIds
  constructor
  · intro hid
    cases hi : state.indexes.get? v with
    | none => simp [hi] at hid
    | some index =>
      simp only [hi, mem_collectAll, List.not_mem_nil, false_or] at hid
      obtain ⟨path,scope,hs⟩ := hid
      obtain ⟨entry,he,ha,-⟩ := h.live v path id scope ⟨index,hi,hs⟩
      exact ⟨entry,he,by rw [ha]⟩
  · rintro ⟨entry,he,rfl⟩
    obtain ⟨index,hi,hs⟩ := h.indexed id entry he
    simp only [hi, mem_collectAll]
    exact .inr ⟨_,_,hs⟩

theorem unregister (h : state.Indexed) (value : ValueId) :
    StoreState.Indexed { state with
      values := state.values.erase value
      indexes := state.indexes.erase value
      subscriptions := (indexedIds state value).foldl
        (fun subscriptions id => subscriptions.erase id) state.subscriptions } := by
  have hsub : ∀ id entry, ((indexedIds state value).foldl
      (fun subscriptions id => subscriptions.erase id) state.subscriptions).get? id = some entry →
      state.subscriptions.get? id = some entry ∧ entry.spec.address.value ≠ value := by
    intro id entry he
    rw [get?_foldl_erase] at he
    split_ifs at he with hid
    exact ⟨he,fun hv => hid (h.mem_indexedIds.mpr ⟨entry,he,hv⟩)⟩
  constructor
  · intro id entry he
    exact h.entry_id id entry (hsub id entry he).1
  · intro id entry he
    obtain ⟨he,hne⟩ := hsub id entry he
    simpa only [get?_erase_of_ne _ hne] using h.registered id entry he
  · intro id entry he
    obtain ⟨he,hne⟩ := hsub id entry he
    obtain ⟨index,hi,hs⟩ := h.indexed id entry he
    exact ⟨index,by simp only [get?_erase_of_ne _ hne, hi],hs⟩
  · rintro v path id scope ⟨index,hi,hs⟩
    simp only [get?_erase] at hi
    split_ifs at hi with hv
    obtain ⟨entry,he,ha,hsc⟩ := h.live v path id scope ⟨index,hi,hs⟩
    refine ⟨entry,?_,ha,hsc⟩
    rw [get?_foldl_erase, if_neg, he]
    intro hid
    obtain ⟨entry',he',hv'⟩ := h.mem_indexedIds.mp hid
    cases he.symm.trans he'
    rw [ha] at hv'
    exact hv hv'

theorem subscribe (h : state.Indexed) {spec : ObservationSpec} {root : RegisteredValue}
    (handler : H) (hr : state.values.get? spec.address.value = some root)
    (hp : spec.mode = .full → root.snapshotPolicy = .copyOnChange) (hf : state.FreshId) :
    (admitSubscription spec handler state).Indexed := by
  have hne : ∀ id entry, state.subscriptions.get? id = some entry → id ≠ state.nextObservation := by
    rintro id entry he rfl
    rw [hf] at he
    cases he
  have hget : ∀ id, (admitSubscription spec handler state).subscriptions.get? id =
      if id = state.nextObservation
      then some ⟨state.nextObservation,spec,state.nextGeneration,handler⟩
      else state.subscriptions.get? id := fun id => get?_insert _ _ _ _
  constructor
  · intro id entry he
    rw [hget] at he
    split_ifs at he with hid
    · cases he
      exact hid.symm
    · exact h.entry_id id entry he
  · intro id entry he
    rw [hget] at he
    split_ifs at he
    · cases he
      exact ⟨root,hr,hp⟩
    · exact h.registered id entry he
  · intro id entry he
    rw [hget] at he
    rw [subscribedAt_admission]
    split_ifs at he with hid
    · cases he
      exact .inr ⟨rfl,hid,rfl⟩
    · exact .inl (h.indexed id entry he)
  · intro v path id scope hs
    rw [hget]
    rcases (subscribedAt_admission _ _ _ _ _ _ _).mp hs with hs | ⟨ha,rfl,rfl⟩
    · obtain ⟨entry,he,ha,hsc⟩ := h.live v path id scope hs
      exact ⟨entry,by rw [if_neg (hne id entry he), he],ha,hsc⟩
    · exact ⟨_,if_pos rfl,ha,rfl⟩

theorem unsubscribe (h : state.Indexed) {id : ObservationId} {entry : SubscriptionEntry H}
    (he : state.subscriptions.get? id = some entry) :
    (dropSubscription id entry state).Indexed := by
  have hsub : ∀ j e, (dropSubscription id entry state).subscriptions.get? j = some e →
      j ≠ id ∧ state.subscriptions.get? j = some e := by
    intro j e hj
    rw [dropSubscription_subscriptions, get?_erase] at hj
    split_ifs at hj with hid
    exact ⟨hid,hj⟩
  constructor
  · intro j e hj
    exact h.entry_id j e (hsub j e hj).2
  · intro j e hj
    rw [ObservableStore.dropSubscription_values]
    exact h.registered j e (hsub j e hj).2
  · intro j e hj
    obtain ⟨hne,hj⟩ := hsub j e hj
    rw [subscribedAt_drop]
    exact ⟨h.indexed j e hj,fun hn => hne hn.2.1⟩
  · intro v path j scope hs
    obtain ⟨hs,hn⟩ := (subscribedAt_drop _ _ _ _ _ _ _).mp hs
    obtain ⟨e,hj,ha,hsc⟩ := h.live v path j scope hs
    refine ⟨e,?_,ha,hsc⟩
    rw [dropSubscription_subscriptions, get?_erase, if_neg, hj]
    rintro rfl
    cases he.symm.trans hj
    exact hn ⟨ha,rfl,hsc.symm⟩

theorem transactionLocked {store : ObservableStore H} (h : store.state.Indexed)
    (roots : List ValueId) (apply : TransactionScript R) :
    (store.transactionLocked roots apply).1.state.Indexed :=
  transactionLocked_keeps (fun _ _ _ _ _ _ _ hs hr _ => hs.write hr rfl) of_contents_eq h roots
    apply

end Indexed
end StoreState

/-- One call keeps the invariant if it hands out no live id. -/
theorem ObservableStore.step_indexed (store : ObservableStore H) (call : StoreCall H R)
    (h : store.state.Indexed) (hf : store.FreshSubscribe call) :
    (store.step call).state.Indexed := by
  have heffect := store.step_effect call
  generalize (store.step call).state = state' at heffect ⊢
  cases heffect with
  | none => exact h
  | register _ hnew => exact h.register _ hnew
  | unregister value => exact h.unregister value
  | subscribe hfound hpolicy haccepted =>
    obtain ⟨result,hresult⟩ := haccepted
    exact h.subscribe _ hfound (fun hm => hpolicy (.inl hm)) (hf result hresult)
  | unsubscribe hfound => exact h.unsubscribe hfound
  | close => constructor <;> simp [StoreState.SubscribedAt]
  | transaction roots apply => exact h.transactionLocked roots apply

/-- A run of the store in which every accepted subscription gets an id of its own. -/
def FreshRun (calls : List (StoreCall H R)) : Prop :=
  Along ObservableStore.step ObservableStore.FreshSubscribe .default calls

theorem FreshRun.indexed {calls : List (StoreCall H R)} (h : FreshRun calls) :
    (after calls).state.Indexed :=
  h.invariant (I := fun store : ObservableStore H => store.state.Indexed)
    (fun store call hs hf => store.step_indexed call hs hf) .default

end PhenixConductor.Observable

/-! ## Registered values stay well formed

Writes are checked only against the schema at their path. Every mutator
nevertheless keeps the whole value well formed, rollback returns to well-formed
values, and so does every reachable store hold them.
-/
namespace PhenixConductor.Observable
open Contract Collections BTreeMap ObservableStore

variable {H R : Type}

/-- Every registered value satisfies its schema. -/
def StoreState.WellFormed (state : StoreState H) : Prop :=
  ∀ v registered, state.values.get? v = some registered →
    registered.schema.parse registered.current = .ok ()

namespace StoreState.WellFormed

theorem default : (StoreState.default : StoreState H).WellFormed := by
  intro v registered h
  simp [StoreState.default] at h

theorem write {state : StoreState H} (h : state.WellFormed) (value : ValueId)
    {registered : RegisteredValue} (hr : registered.schema.parse registered.current = .ok ()) :
    (state.write value registered).WellFormed := by
  intro v found hf
  rw [get?_write] at hf
  split_ifs at hf
  · cases hf
    exact hr
  · exact h v found hf

/-- Versions do not matter. -/
theorem contents_iff (state : StoreState H) : state.contents.WellFormed ↔ state.WellFormed := by
  constructor
  · intro h v registered hr
    exact h v registered.contents (by simp [contents, hr])
  · intro h v registered hr
    obtain ⟨found,hf,rfl⟩ : ∃ found, state.values.get? v = some found ∧
        found.contents = registered := by simpa [contents] using hr
    exact h v found hf

theorem of_contents_eq {state state' : StoreState H} (h : state.WellFormed)
    (hc : state'.contents = state.contents) : state'.WellFormed := by
  rw [← contents_iff, hc, contents_iff]
  exact h

theorem transactionLocked {store : ObservableStore H} (h : store.state.WellFormed)
    (roots : List ValueId) (apply : TransactionScript R) :
    (store.transactionLocked roots apply).1.state.WellFormed := by
  refine transactionLocked_keeps (fun state value registered path kind undo new hs hr hm => ?_)
    of_contents_eq h roots apply
  exact hs.write value (hm.parse (hs value registered hr))

end StoreState.WellFormed

theorem ObservableStore.step_wellFormed (store : ObservableStore H) (call : StoreCall H R)
    (h : store.state.WellFormed) : (store.step call).state.WellFormed := by
  have heffect := store.step_effect call
  generalize (store.step call).state = state' at heffect ⊢
  cases heffect with
  | none => exact h
  | register hvalid => exact h.write _ hvalid
  | unregister value =>
    intro v registered hv
    simp only [get?_erase] at hv
    split_ifs at hv
    exact h v registered hv
  | subscribe => exact h
  | unsubscribe =>
    intro v registered hv
    rw [dropSubscription_values] at hv
    exact h v registered hv
  | close => exact h
  | transaction roots apply => exact h.transactionLocked roots apply

/-- In every reachable store every registered value satisfies its schema. -/
theorem registered_values_parse (calls : List (StoreCall H R)) (v : ValueId)
    (registered : RegisteredValue)
    (h : (after calls).state.values.get? v = some registered) :
    registered.schema.parse registered.current = .ok () :=
  runAll_invariant (I := fun store : ObservableStore H => store.state.WellFormed)
    (fun store call hs => store.step_wellFormed call hs) calls .default v registered h

def listRoot : ValueId := ⟨"list",by decide⟩
def listOwner : PluginId := ⟨"list-owner",by decide⟩

/-- A root holding a list of numbers, and a committed splice at its front. -/
def spliceHistory : List (StoreCall Unit Unit) :=
  [.register ⟨listRoot,listOwner,.list .u64,.currentOnly,.list [.u64 1]⟩,
    .transaction [listRoot]
      (.call (.splice listRoot [] 0 0 [.u64 9]) fun result => .done result)]

theorem registered_values_parse_splice :
    PhenixSchema.parse (.list .u64) (.list [.u64 9,.u64 1]) = .ok () :=
  registered_values_parse spliceHistory listRoot
    ⟨listOwner,.list .u64,1,.currentOnly,.list [.u64 9,.u64 1]⟩ (by rfl)

end PhenixConductor.Observable
