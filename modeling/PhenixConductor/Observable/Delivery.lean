import PhenixConductor.Observable.Faithful

/-! # Who gets a delivery

A commit calls the handler of a subscription at most once.
-/
namespace PhenixConductor.Observable
open Contract Collections Branching PhenixValue SubscriptionNode List

variable {H R : Type}

/-- The number of deliveries of a commit to an observation. -/
def deliveryCount (prepared : List (PreparedRoot H)) (id : ObservationId) : ℕ :=
  ((handlerCalls prepared).map fun call => call.2.observation).count id

theorem handlerCalls_observations (prepared : List (PreparedRoot H)) :
    ((handlerCalls prepared).map fun call => call.2.observation) =
      prepared.flatMap fun root => root.deliveries.map (·.entry.id) := by
  simp only [handlerCalls, map_flatMap, map_map]
  rfl

namespace Commits
variable {store store' : ObservableStore H} {roots : List ValueId} {apply : TransactionScript R}
  {prepared : List (PreparedRoot H)} {canonical : List (ValueId × List ValueChange)}

theorem indexed_run (store : ObservableStore H) (roots : List ValueId)
    (apply : TransactionScript R) (hi : store.state.Indexed) :
    (apply.run (store.start roots)).1.state.Indexed :=
  StoreState.Indexed.performs (show (store.start roots).state.Indexed from hi)
    (apply.run_performs _)

section
variable (h : Commits store roots apply store' prepared canonical)
include h

/-- Every root of the commit delivers to observations of its own value. -/
theorem delivered_value
    (hi : store.state.Indexed) {root : PreparedRoot H} (hroot : root ∈ prepared)
    {id : ObservationId} (hid : id ∈ root.deliveries.map (·.entry.id)) :
    ∃ entry, store.state.subscriptions.get? id = some entry ∧
      entry.spec.address.value = root.value := by
  obtain ⟨entry,_,registered,hp⟩ := Forall₂.exists_left h.prepares hroot
  have htx := indexed_run store roots apply hi
  have hsub := (htx.delivered_sublist hp.deliveries_eq).subset hid
  obtain ⟨entry',he,hv⟩ := htx.matched hsub
  rw [(apply.run_performs (store.start roots)).keeps.1] at he
  exact ⟨entry',he,hv.trans hp.value_eq.symm⟩

/-- No observation is delivered to twice. -/
theorem nodup_observations
    (hi : store.state.Indexed) :
    ((handlerCalls prepared).map fun call => call.2.observation).Nodup := by
  rw [handlerCalls_observations, nodup_flatMap]
  have htx := indexed_run store roots apply hi
  constructor
  · intro root hroot
    obtain ⟨entry,_,registered,hp⟩ := Forall₂.exists_left h.prepares hroot
    exact (nodup_matchedIds _ _).sublist (htx.delivered_sublist hp.deliveries_eq)
  · have hvalues : prepared.map PreparedRoot.value = canonical.map Prod.fst := by
      have hall := h.prepares
      clear h
      induction hall with
      | nil => rfl
      | cons hp _ ih =>
        obtain ⟨registered,hp⟩ := hp
        rw [map_cons, map_cons, ih, hp.value_eq]
    have hnodup : (prepared.map PreparedRoot.value).Nodup := hvalues ▸ h.canonical_eq.nodup
    refine (pairwise_map.mp hnodup).imp_of_mem fun {a b} ha hb hne id hida hidb => ?_
    obtain ⟨entry,he,hv⟩ := h.delivered_value hi ha hida
    obtain ⟨entry',he',hv'⟩ := h.delivered_value hi hb hidb
    cases he.symm.trans he'
    exact hne (hv.symm.trans hv')

theorem deliveryCount_le_one
    (hi : store.state.Indexed) (id : ObservationId) : deliveryCount prepared id ≤ 1 :=
  nodup_iff_count_le_one.mp (h.nodup_observations hi) id

/-- A live subscription gets a delivery when a canonical change of its root reaches
it and something remains for it to see. -/
theorem deliveryCount_pos_iff
    (hi : store.state.Indexed) {id : ObservationId} {entry : SubscriptionEntry H}
    (he : store.state.subscriptions.get? id = some entry) {registered : RegisteredValue}
    (hr : (apply.run (store.start roots)).1.state.values.get? entry.spec.address.value =
      some registered) :
    0 < deliveryCount prepared id ↔ ∃ changes, (entry.spec.address.value,changes) ∈ canonical ∧
      (∃ change ∈ changes, change.Reaches entry.spec.address.path entry.spec.scope) ∧
      changesForSubscription entry.spec changes registered.current ≠ [] := by
  obtain ⟨hsubs,hindexes,-⟩ := (apply.run_performs (store.start roots)).keeps
  have htx := indexed_run store roots apply hi
  rw [deliveryCount, count_pos_iff, handlerCalls_observations, mem_flatMap]
  constructor
  · rintro ⟨root,hroot,hid⟩
    obtain ⟨delivery,hd,rfl⟩ := mem_map.mp hid
    obtain ⟨⟨value,changes⟩,hentry,registered',hp⟩ := Forall₂.exists_left h.prepares hroot
    obtain ⟨id',hmatched,hget,hne,hdc⟩ := mem_prepareDeliveries hp.deliveries_eq hd
    have hide := htx.entry_id id' _ hget
    subst hide
    rw [hsubs] at hget
    obtain rfl : delivery.entry = entry := Option.some.inj (hget.symm.trans he)
    obtain ⟨entry',he',hv⟩ := htx.matched hmatched
    rw [hsubs, show (store.start roots).state.subscriptions = store.state.subscriptions from rfl,
      he] at he'
    cases he'
    subst hv
    obtain rfl : registered = registered' := Option.some.inj (hr.symm.trans hp.registered_eq)
    refine ⟨changes,hentry,?_,?_⟩
    · cases hidx : (apply.run (store.start roots)).1.state.indexes.get?
          delivery.entry.spec.address.value with
      | none =>
        rw [hidx] at hmatched
        simp [matchedIds] at hmatched
      | some index =>
        rw [hidx, mem_matchedIds] at hmatched
        obtain ⟨change,hc,address,scope,hreach,hsub⟩ := hmatched
        obtain ⟨entry',he',ha,hsc⟩ := htx.live _ _ _ _ ⟨index,hidx,hsub⟩
        rw [hsubs] at he'
        cases he.symm.trans he'
        refine ⟨change,hc,?_⟩
        rw [hsc, ha]
        exact hreach
    · rw [← show changesForSubscription delivery.entry.spec changes registered.bump.current =
        changesForSubscription delivery.entry.spec changes registered.current from rfl, ← hdc]
      exact hne
  · rintro ⟨changes,hentry,⟨change,hc,hreach⟩,hne⟩
    obtain ⟨root,hroot,registered',hp⟩ := Forall₂.exists_right h.prepares hentry
    obtain rfl : registered = registered' := Option.some.inj (hr.symm.trans hp.registered_eq)
    refine ⟨root,hroot,?_⟩
    have hetx : (apply.run (store.start roots)).1.state.subscriptions.get? id = some entry := by
      rw [hsubs]
      exact he
    obtain ⟨index,hidx,hsub⟩ := htx.indexed id entry hetx
    have hmatched : id ∈ matchedIds ((apply.run (store.start roots)).1.state.indexes.get?
        entry.spec.address.value) changes := by
      rw [hidx, mem_matchedIds]
      exact ⟨change,hc,_,_,hreach,hsub⟩
    obtain ⟨deliveries,hd,hall⟩ := prepareDeliveries_eq_ok hp.deliveries_eq
    obtain ⟨delivery,hdel,hone⟩ := Forall₂.exists_right hall hmatched
    have hsome := prepareDelivery_of_ne_nil hone hetx hne
    refine mem_map.mpr
      ⟨⟨entry,changesForSubscription entry.spec changes registered.bump.current⟩,?_,
        htx.entry_id id entry hetx⟩
    rw [hd, reduceOption_mem_iff]
    exact hsome ▸ hdel

end

end Commits
/-! ## Splices and the addresses below them -/

/-- The counts of the splice mean as 32-bit numbers what they mean as lengths. -/
def TouchedMutation.Fits (touched : TouchedMutation) : Prop :=
  match touched.kind with
  | .splice start deleteCount inserted => UInt32.ofNat inserted.length = deleteCount →
      inserted.length = deleteCount.toNat ∧ start.toNat + deleteCount.toNat < 2 ^ 32
  | _ => True

/-- The index takes the mutation, made strictly above the address, to touch it. -/
def TouchedMutation.Affects (touched : TouchedMutation) (address : ValuePath) : Prop :=
  match touched.kind with
  | .splice start deleteCount inserted =>
    ∃ s rest, affectedSegment start deleteCount (UInt32.ofNat inserted.length) s =
      true ∧ address = touched.path ++ s :: rest
  | _ => StrictlyBelow touched.path address

instance : DecidablePred TouchedMutation.Fits
  | ⟨_,_,.splice _ _ _⟩ => inferInstanceAs (Decidable (_ → _ ∧ _))
  | ⟨_,_,.replace⟩ | ⟨_,_,.remove⟩ => inferInstanceAs (Decidable True)

variable {t : TouchedMutation}

theorem TouchedMutation.Affects.below {address : ValuePath} (h : t.Affects address) :
    StrictlyBelow t.path address := by
  obtain ⟨value,path,kind⟩ := t
  cases kind with
  | replace | remove => exact h
  | splice start deleteCount inserted =>
    obtain ⟨s,rest,-,rfl⟩ := h
    exact ⟨prefix_append _ _,by simp⟩

variable {items inserted : List PhenixValue}

theorem getElem?_spliced_of_lt {start deleteCount i : ℕ} (hs : start ≤ items.length)
    (hi : i < start) : (spliced items start deleteCount inserted)[i]? = items[i]? := by
  have hlen : i < (items.take start).length := by
    rw [length_take]
    omega
  rw [spliced, append_assoc, getElem?_append_left hlen, getElem?_take_of_lt hi]

theorem getElem?_spliced_of_ge {start deleteCount i : ℕ} (hs : start ≤ items.length)
    (hlen : inserted.length = deleteCount) (hi : start + deleteCount ≤ i) :
    (spliced items start deleteCount inserted)[i]? = items[i]? := by
  have hpre : (items.take start ++ inserted).length = start + deleteCount := by
    rw [length_append, length_take, hlen]
    omega
  rw [spliced, getElem?_append_right (by omega), hpre, getElem?_drop,
    Nat.add_sub_cancel' hi]

/-- A splice keeps the members that it is not taken to affect. -/
theorem child_spliced {start deleteCount : UInt32} {s : ValuePathSegment}
    (hr : start.toNat + deleteCount.toNat ≤ items.length)
    (hfits : UInt32.ofNat inserted.length = deleteCount → inserted.length = deleteCount.toNat ∧ start.toNat + deleteCount.toNat < 2 ^ 32)
    (ha : affectedSegment start deleteCount (UInt32.ofNat inserted.length) s = false) :
    child (PhenixValue.list (spliced items start.toNat deleteCount.toNat inserted)) s =
      child (PhenixValue.list items) s := by
  cases s with
  | index i =>
    change (spliced items start.toNat deleteCount.toNat inserted)[i.toNat]? = items[i.toNat]?
    unfold affectedSegment affectedIndex at ha
    have hs : start.toNat ≤ items.length := by omega
    by_cases hlt : i.toNat < start.toNat
    · exact getElem?_spliced_of_lt hs hlt
    · have hle : start ≤ i := UInt32.le_iff_toNat_le.mpr (by omega)
      split_ifs at ha with heq
      · obtain ⟨hlen,hend⟩ := hfits heq
        refine getElem?_spliced_of_ge hs hlen ?_
        simp only [hle, decide_true, Bool.true_and, decide_eq_false_iff_not] at ha
        have hi := i.toNat_lt
        omega
      · simp [hle] at ha
  | _ => rfl

variable {new : PhenixValue} {change : ValueChange}

/-- A change reaches an observation that it is in the scope of, or that it affects
from above. -/
theorem exactChange_reaches_iff {old : PhenixValue} (h : exactChange old new t = some change)
    (address : ValuePath) (scope : ObservationScope) :
    change.Reaches address scope ↔ (address <+: t.path ∧ scope = .recursive) ∨
      (address = t.path ∧ scope = .exact) ∨ t.Affects address := by
  have hwhole : ∀ path : ValuePath, ((address <+: path ∧ scope = .recursive) ∨ path <+: address) ↔
      (address <+: path ∧ scope = .recursive) ∨ (address = path ∧ scope = .exact) ∨
        StrictlyBelow path address := by
    intro path
    unfold StrictlyBelow
    by_cases he : path = address
    · subst he
      cases scope <;> simp
    · simp [he, Ne.symm he]
  obtain ⟨value,path,kind⟩ := t
  unfold exactChange canonicalChange at h
  dsimp only at h
  split_ifs at h
  cases kind with
  | splice start deleteCount inserted =>
    cases h
    rfl
  | replace | remove =>
    cases hn : valueAtOptional new path with
    | none =>
      rw [hn] at h
      cases h
      exact hwhole path
    | some now =>
      rw [hn] at h
      cases h
      exact hwhole path

theorem exactChange_eq_some {old : PhenixValue} (h : exactChange old new t = some change) :
    ¬ Unchanged old new t.path ∧ change.edit = ⟨t.path,t.act new⟩ := by
  by_cases hu : Unchanged old new t.path
  · rw [exactChange_of_unchanged hu] at h
    cases h
  · obtain ⟨change',hc,he⟩ := exactChange_of_changed hu
    cases hc.symm.trans h
    exact ⟨hu,he⟩

/-- An edit that does not reach an address leaves the content there alone. -/
theorem getAt_of_not_affects {address : ValuePath} (hfits : t.Fits) (hbelow : ¬ address <+: t.path)
    (ha : ¬ t.Affects address) {o o' : Option PhenixValue} (h : Edit.Takes ⟨t.path,t.act new⟩ o o') :
    getAt o' address = getAt o address := by
  by_cases hp : t.path <+: address
  · obtain ⟨r,rfl⟩ := hp
    have hr : r ≠ [] := by
      rintro rfl
      exact hbelow (by simp)
    obtain ⟨s,rest,rfl⟩ := exists_cons_of_ne_nil hr
    obtain ⟨value,path,kind⟩ := t
    cases kind with
    | replace | remove =>
      exact absurd (show StrictlyBelow path (path ++ s :: rest) from
        ⟨prefix_append _ _,by simp⟩) ha
    | splice start deleteCount inserted =>
      obtain ⟨x,hx,hadm,rfl⟩ := h
      obtain ⟨items,items',hg,rfl,hs⟩ := spliceContent_eq_some hx
      obtain ⟨⟨-,hrange⟩,rfl⟩ : (start.toNat ≤ start.toNat + deleteCount.toNat ∧
          start.toNat + deleteCount.toNat ≤ items.length) ∧
          spliced items start.toNat deleteCount.toNat inserted = items' := by
        unfold spliceRange at hs
        split_ifs at hs with hr
        exact ⟨hr,Option.some.inj hs⟩
      have hseg : affectedSegment start deleteCount
          (UInt32.ofNat inserted.length) s = false := by
        rw [Bool.eq_false_iff]
        exact fun haff => ha ⟨s,rest,haff,rfl⟩
      dsimp only at hg hadm ⊢
      rw [getAt_append, getAt_append, getAt_putAt_self hadm, hg,
        getAt_some_cons, getAt_some_cons, child_spliced hrange hfits hseg]
  · exact h.getAt_of_incomparable ⟨hbelow,hp⟩

/-! ## Exactly one delivery, or none -/

namespace RootCommit
variable {store : ObservableStore H} {roots : List ValueId} {apply : TransactionScript R}
  {canonical : List (ValueId × List ValueChange)} {value : ValueId} {before : RegisteredValue}
  {current : PhenixValue} {changes : List ValueChange}

theorem selects (store : ObservableStore H) (roots : List ValueId) (apply : TransactionScript R)
    (value : ValueId) : Selects (apply.touchedOn store roots value)
      ((apply.touchedOn store roots value).foldl selectTouched []) :=
  selects_foldl _

section
variable (h : RootCommit store roots apply canonical value before current changes)
include h

/-- Changes come from selected mutations. -/
theorem mem_changes_iff
    {change : ValueChange} : change ∈ changes ↔
      ∃ t ∈ (apply.touchedOn store roots value).foldl selectTouched [],
        exactChange before.current current t = some change := by
  rw [h.changes_eq, mem_filterMap, TransactionScript.touchedOn, ← apply.run_touched store roots]
  simp only [mem_selectedTouched]

/-- An address that no change reaches has the content that it had. -/
theorem same_of_not_reached
    (hfits : ∀ t ∈ apply.touchedOn store roots value, t.Fits) {address : ValuePath}
    (hno : ∀ change ∈ changes, ¬ change.Reaches address .recursive) :
    compareOption F64.same (getAt (some current) address)
      (getAt (some before.current) address) = true := by
  obtain ⟨applied,happly,hsame⟩ := h.yields
  have hkeep := (applyChanges_eq_ok.mp happly).getAt_eq (p := address) fun e he a b htakes => by
    obtain ⟨change,hc,rfl⟩ := mem_map.mp he
    obtain ⟨t,ht,hexact⟩ := h.mem_changes_iff.mp hc
    have hmem := (selects store roots apply value).sublist.subset ht
    have hn := (exactChange_reaches_iff hexact address .recursive).not.mp (hno change hc)
    simp only [and_true, not_or] at hn
    rw [(exactChange_eq_some hexact).2] at htakes
    exact getAt_of_not_affects (hfits t hmem) hn.1 hn.2.2 htakes
  rw [← hkeep]
  exact compareOption_getAt hsame address

/-- A changed path strictly above an address that it affects has a selected one. -/
theorem exists_affecting
    {address : ValuePath} {t : TouchedMutation} (ht : t ∈ apply.touchedOn store roots value)
    (ha : t.Affects address) (hu : ¬ Unchanged before.current current t.path) :
    ∃ change ∈ changes, StrictlyBelow change.path address ∧
      ∀ scope, change.Reaches address scope := by
  have hfrom : ∀ w ∈ (apply.touchedOn store roots value).foldl selectTouched [],
      w.Affects address → ¬ Unchanged before.current current w.path →
      ∃ change ∈ changes, StrictlyBelow change.path address ∧
        ∀ scope, change.Reaches address scope := by
    intro w hw hwa hwu
    obtain ⟨change,hc,he⟩ := exactChange_of_changed hwu
    refine ⟨change,h.mem_changes_iff.mpr ⟨w,hw,hc⟩,?_,fun scope => ?_⟩
    · rw [show change.path = w.path from congrArg Edit.path he]
      exact hwa.below
    · exact (exactChange_reaches_iff hc address scope).mpr (.inr (.inr hwa))
  rcases (selects store roots apply value).kept t ht with hs | hs
  · exact hfrom t hs ha hu
  · obtain ⟨w,hw,hwhole,hp⟩ := (coveredBy_iff _ _).mp hs
    obtain ⟨r,hr⟩ := hp
    have hbelow := ha.below
    have hwbelow : StrictlyBelow w.path address := by
      refine ⟨(hr ▸ prefix_append _ _ : w.path <+: t.path).trans hbelow.1,?_⟩
      rintro hwe
      have hl := hbelow.1.length_le
      rw [← hwe, ← hr, length_append] at hl
      have hr0 : r = [] := length_eq_zero_iff.mp (by omega)
      rw [hr0, append_nil] at hr
      exact hbelow.2 (hr ▸ hwe)
    refine hfrom w hw ?_ fun hwu => hu ?_
    · obtain ⟨v,path,kind⟩ := w
      cases kind with
      | splice => cases hwhole
      | replace | remove => exact hwbelow
    · unfold Unchanged at hwu ⊢
      rw [← hr, getAt_append, getAt_append]
      exact compareOption_getAt hwu r

end

end RootCommit

/-- A change strictly above the address always leaves something to see. -/
theorem changesForSubscription_of_above {spec : ObservationSpec} {changes : List ValueChange}
    (hc : change ∈ changes) (hbelow : StrictlyBelow change.path spec.address.path)
    (current : PhenixValue) : changesForSubscription spec changes current ≠ [] := by
  have hany : (changes.any fun change => spec.above change.path) = true :=
    any_eq_true.mpr ⟨change,hc,(spec.above_iff _).mpr hbelow⟩
  rw [changesForSubscription, if_pos hany]
  cases valueAtOptional current spec.address.path <;> simp

/-- In a store whose subscriptions got ids of their own, no observation gets two
deliveries for one commit; and a recursive subscription whose observed value has
changed gets one, if no write of its root lies strictly below a surviving splice
and the splices fit into 32 bits. -/
theorem delivered_exactly_once (calls : List (StoreCall H R)) (hfresh : FreshRun calls)
    (roots : List ValueId) (apply : TransactionScript R) (store' : ObservableStore H) (output : R)
    (prepared : List (PreparedRoot H))
    (h : (ObservableStore.after calls).transactionLocked roots apply =
      (store',.ok (output,prepared))) :
    (∀ id, deliveryCount prepared id ≤ 1) ∧
    ∀ id entry before after,
      (ObservableStore.after calls).state.subscriptions.get? id = some entry →
      entry.spec.scope = .recursive →
      (ObservableStore.after calls).state.values.get? entry.spec.address.value = some before →
      store'.state.values.get? entry.spec.address.value = some after →
      SplicesApart (apply.touchedOn (.after calls) roots entry.spec.address.value) →
      (∀ t ∈ apply.touchedOn (.after calls) roots entry.spec.address.value, t.Fits) →
      compareOption F64.same (valueAtOptional after.current entry.spec.address.path)
        (valueAtOptional before.current entry.spec.address.path) = false →
      deliveryCount prepared id = 1 := by
  have hi := hfresh.indexed
  generalize ObservableStore.after calls = store at h hi ⊢
  obtain ⟨canonical,hc⟩ := ObservableStore.transactionLocked_eq_ok h
  refine ⟨hc.deliveryCount_le_one hi,?_⟩
  intro id entry before after he hscope hbefore hafter hapart hfits hdiff
  obtain ⟨current,changes,hroot,hget⟩ := hc.exists_rootCommit hbefore hapart
  have hcur : after.current = current := by
    rw [hget] at hafter
    obtain rfl := Option.some.inj hafter
    split_ifs <;> rfl
  rw [hcur, valueAtOptional_eq, valueAtOptional_eq] at hdiff
  have hpos : 0 < deliveryCount prepared id := by
    rw [hc.deliveryCount_pos_iff hi he hroot.run_eq]
    have hrel : changesForSubscription entry.spec changes current ≠ [] := by
      intro hnil
      have hy := changesForSubscription_yields hroot.yields hscope
      rw [hnil, valueAtOptional_eq, valueAtOptional_eq] at hy
      obtain ⟨applied,happly,hsame⟩ := hy
      cases happly
      rw [hdiff] at hsame
      cases hsame
    have hne : changes ≠ [] := by
      rintro rfl
      exact hrel rfl
    refine ⟨changes,(hroot.mem_iff _).mpr ⟨rfl,hne⟩,?_,hrel⟩
    by_contra hno
    push Not at hno
    rw [hscope] at hno
    rw [hroot.same_of_not_reached hfits hno] at hdiff
    cases hdiff
  have hle := hc.deliveryCount_le_one hi id
  omega

/-- A list of two numbers with a recursive subscription to the first. -/
def watchFirst : List (StoreCall Unit Unit) :=
  [.register ⟨itemsRoot,itemsOwner,.list .u64,.copyOnChange,.list [.u64 1,.u64 2]⟩,
    .subscribe ⟨⟨itemsRoot,[.index 0]⟩,.recursive,.diff,.none⟩ ()]

theorem watchFirst_fresh : FreshRun watchFirst := ⟨trivial,fun _ _ => rfl,trivial⟩

theorem delivered_exactly_once_replace : ∃ prepared,
    ((ObservableStore.after watchFirst).transactionLocked [itemsRoot] replaceFirst).2 =
      .ok ((),prepared) ∧ deliveryCount prepared 1 = 1 :=
  ⟨_,rfl,(delivered_exactly_once watchFirst watchFirst_fresh [itemsRoot] replaceFirst _ () _ rfl).2
    1 _ _ _ rfl rfl rfl rfl (by decide) (by decide) rfl⟩

/-- Append to the list, then replace its first member. -/
def appendThenReplace : TransactionScript Unit :=
  performAll [.splice itemsRoot [] 2 0 [.u64 3],.replace itemsRoot [.index 0] (.u64 7)]

/-- The first member goes from 1 to 7, and its subscription hears nothing. -/
theorem update_lost :
    let store := ObservableStore.after watchFirst
    let outcome := store.transaction [itemsRoot] appendThenReplace
    outcome.2.1 = .ok () ∧
    (store.state.values.get? itemsRoot).bind
      (fun root => valueAtOptional root.current [.index 0]) = some (.u64 1) ∧
    (outcome.1.state.values.get? itemsRoot).bind
      (fun root => valueAtOptional root.current [.index 0]) = some (.u64 7) ∧
    outcome.2.2 = [] := by
  refine ⟨?_,?_,?_,?_⟩
  · rfl
  · rfl
  · rfl
  · rfl

/-- The content of a path equals itself, so it holds no NaN. -/
def EqualsItself (value : PhenixValue) (path : ValuePath) : Prop := Unchanged value value path

instance (value : PhenixValue) (path : ValuePath) : Decidable (EqualsItself value path) :=
  inferInstanceAs (Decidable (Unchanged value value path))

/-- A subscription whose observed value has not changed is left alone if and only
if nothing changed strictly above its address where the index takes it to matter,
provided that no write of its root lies strictly below a surviving splice and that
no write in its scope replaced a NaN. -/
theorem unchanged_not_delivered (calls : List (StoreCall H R)) (hfresh : FreshRun calls)
    (roots : List ValueId) (apply : TransactionScript R) (store' : ObservableStore H) (output : R)
    (prepared : List (PreparedRoot H))
    (h : (ObservableStore.after calls).transactionLocked roots apply =
      (store',.ok (output,prepared)))
    (id : ObservationId) (entry : SubscriptionEntry H) (before after : RegisteredValue)
    (he : (ObservableStore.after calls).state.subscriptions.get? id = some entry)
    (hbefore : (ObservableStore.after calls).state.values.get? entry.spec.address.value = some before)
    (hafter : store'.state.values.get? entry.spec.address.value = some after)
    (hapart : SplicesApart (apply.touchedOn (.after calls) roots entry.spec.address.value))
    (hnumbers : ∀ t ∈ apply.touchedOn (.after calls) roots entry.spec.address.value,
      entry.spec.address.path <+: t.path → EqualsItself before.current t.path)
    (hsame : compareOption F64.same (valueAtOptional after.current entry.spec.address.path)
      (valueAtOptional before.current entry.spec.address.path) = true) :
    deliveryCount prepared id = 0 ↔
      ∀ t ∈ apply.touchedOn (.after calls) roots entry.spec.address.value,
        t.Affects entry.spec.address.path → Unchanged before.current after.current t.path := by
  have hi := hfresh.indexed
  generalize ObservableStore.after calls = store at h hi he hbefore hapart hnumbers ⊢
  obtain ⟨canonical,hc⟩ := ObservableStore.transactionLocked_eq_ok h
  obtain ⟨current,changes,hroot,hget⟩ := hc.exists_rootCommit hbefore hapart
  have hcur : after.current = current := by
    rw [hget] at hafter
    obtain rfl := Option.some.inj hafter
    split_ifs <;> rfl
  rw [hcur, valueAtOptional_eq, valueAtOptional_eq] at hsame
  rw [hcur]
  have hpos := hc.deliveryCount_pos_iff hi he hroot.run_eq
  constructor
  · intro hzero t ht ha
    by_contra hu
    obtain ⟨change,hchange,hbelow,hreach⟩ := hroot.exists_affecting ht ha hu
    have hdelivered : 0 < deliveryCount prepared id :=
      hpos.mpr ⟨changes,(hroot.mem_iff _).mpr ⟨rfl,ne_nil_of_mem hchange⟩,
        ⟨change,hchange,hreach _⟩,changesForSubscription_of_above hchange hbelow _⟩
    omega
  · intro hall
    by_contra hzero
    obtain ⟨changes',hmem,⟨change,hchange,hreach⟩,-⟩ := hpos.mp (Nat.pos_of_ne_zero hzero)
    obtain ⟨rfl,-⟩ := (hroot.mem_iff _).mp hmem
    obtain ⟨t,ht,hexact⟩ := hroot.mem_changes_iff.mp hchange
    have htouched := (RootCommit.selects store roots apply _).sublist.subset ht
    have hchanged := (exactChange_eq_some hexact).1
    have hinside : ¬ entry.spec.address.path <+: t.path := by
      intro hp
      have hself := hnumbers t htouched hp
      obtain ⟨r,hr⟩ := hp
      have hbelow := compareOption_getAt hsame r
      rw [← getAt_append, ← getAt_append, hr] at hbelow
      exact hchanged (compareOption_partialEq_of_same hbelow hself)
    rcases (exactChange_reaches_iff hexact _ _).mp hreach with ⟨hp,-⟩ | ⟨hp,-⟩ | ha
    · exact hinside hp
    · exact hinside (hp ▸ prefix_rfl)
    · exact hchanged (hall t htouched ha)

def replaceSecond : TransactionScript Unit := performAll [.replace itemsRoot [.index 1] (.u64 5)]

theorem unchanged_not_delivered_sibling : ∃ prepared,
    ((ObservableStore.after watchFirst).transactionLocked [itemsRoot] replaceSecond).2 =
      .ok ((),prepared) ∧ deliveryCount prepared 1 = 0 := by
  refine ⟨_,rfl,(unchanged_not_delivered watchFirst watchFirst_fresh [itemsRoot] replaceSecond _ ()
    _ rfl 1 _ _ _ rfl rfl rfl (by decide) ?_ rfl).mpr ?_⟩
  · intro t ht hp
    obtain rfl := mem_singleton.mp ht
    exact absurd hp (by decide)
  · intro t ht ha
    obtain rfl := mem_singleton.mp ht
    exact absurd ha.below (by decide)

/-- A table of two numbers with subscriptions of both scopes to the first one. -/
def watchField : List (StoreCall Unit Unit) :=
  [.register ⟨itemsRoot,itemsOwner,.table (.ofList [(⟨"a",by decide⟩,.u64),(⟨"b",by decide⟩,.u64)]),
      .copyOnChange,.table (.ofList [(⟨"a",by decide⟩,.u64 1),(⟨"b",by decide⟩,.u64 1)])⟩,
    .subscribe ⟨⟨itemsRoot,[.field ⟨"a",by decide⟩]⟩,.exact,.diff,.none⟩ (),
    .subscribe ⟨⟨itemsRoot,[.field ⟨"a",by decide⟩]⟩,.recursive,.diff,.none⟩ ()]

/-- Replace the table by one that differs in the other field. -/
def replaceTable : TransactionScript Unit :=
  performAll [.replace itemsRoot []
    (.table (.ofList [(⟨"a",by decide⟩,.u64 1),(⟨"b",by decide⟩,.u64 2)]))]

/-- The observed field stays 1, and both subscriptions get a delivery. -/
theorem unchanged_delivered :
    let store := ObservableStore.after watchField
    let outcome := store.transaction [itemsRoot] replaceTable
    (store.state.values.get? itemsRoot).bind
      (fun root => valueAtOptional root.current [.field ⟨"a",by decide⟩]) = some (.u64 1) ∧
    (outcome.1.state.values.get? itemsRoot).bind
      (fun root => valueAtOptional root.current [.field ⟨"a",by decide⟩]) = some (.u64 1) ∧
    outcome.2.2.map (fun call => call.2.observation) = [1,2] := by
  refine ⟨?_,?_,?_⟩
  · rfl
  · rfl
  · rfl

end PhenixConductor.Observable
