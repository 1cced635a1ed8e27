import PhenixConductor.Context.ProjectionState

/-! # Compaction in two phases

A prepared proposal is ready as long as its transitions still fit the items.
-/
namespace PhenixConductor.Context
open Collections

/-- Of two transitions of one item the first leaves what the second one starts from. -/
def CompactionProposal.Chained (self : CompactionProposal) : Prop :=
  self.transitions.Pairwise fun first second =>
    first.itemId = second.itemId → first.toRetention = second.fromRetention

/-- What transitions that pass their checks make of an item. -/
structure Reduced (item item' : AdmittedContextItem) : Prop where
  lowered : item.retention.rank ≤ item'.retention.rank
  pinned : item.retention = .pinned → item'.retention = .pinned ∧ item'.form = .full
  recovery : item'.retention.NeedsRecovery → item'.recovery.isSome

/-- Only the items that are named change, and each is reduced. -/
structure Compacts (transitions : List RetentionTransition)
    (admitted admitted' : BTreeMap String AdmittedContextItem) : Prop where
  untouched : ∀ id, (∀ transition ∈ transitions, transition.itemId ≠ id) →
    admitted'.get? id = admitted.get? id
  touched : ∀ transition ∈ transitions, ∃ item item',
    admitted.get? transition.itemId = some item ∧
      admitted'.get? transition.itemId = some item' ∧ Reduced item item'

section Transitions
variable {transition : RetentionTransition} {item : AdmittedContextItem}

theorem Reduced.trans {item₁ item₂ item₃ : AdmittedContextItem} (h : Reduced item₁ item₂)
    (h' : Reduced item₂ item₃) : Reduced item₁ item₃ where
  lowered := h.lowered.trans h'.lowered
  pinned hpinned := h'.pinned (h.pinned hpinned).1
  recovery := h'.recovery

theorem RetentionTransition.validate_eq_ok :
    transition.validate = .ok () ↔
      (transition.fromRetention = .pinned → transition.toRetention = .pinned) ∧
      transition.fromRetention.rank ≤ transition.toRetention.rank ∧
      (transition.toRetention.NeedsRecovery → transition.recovery.isSome) := by
  unfold validate
  split_ifs with hpinned hrank hrecovery
  · simp [hpinned]
  · simp [hrank.not_ge]
  · simp [hrecovery]
  · simp only [not_and, not_not, not_lt] at hpinned hrank hrecovery
    simp only [true_iff]
    exact ⟨hpinned,hrank,fun h => Option.isSome_iff_ne_none.mpr (hrecovery h)⟩

theorem reduced_of_validate (hvalid : transition.validate = .ok ())
    (hfrom : item.retention = transition.fromRetention) :
    Reduced item (item.reduced transition) := by
  obtain ⟨hpinned,hrank,hrecovery⟩ := RetentionTransition.validate_eq_ok.mp hvalid
  constructor
  · rw [hfrom]
    exact hrank
  · intro h
    have hto : transition.toRetention = .pinned := hpinned (hfrom ▸ h)
    exact ⟨hto,by rw [AdmittedContextItem.reduced, hto]; rfl⟩
  · intro h
    simp [AdmittedContextItem.reduced, hrecovery h]

theorem Compacts.cons {transitions : List RetentionTransition}
    {admitted admitted' : BTreeMap String AdmittedContextItem}
    (hget : admitted.get? transition.itemId = some item)
    (hreduced : Reduced item (item.reduced transition))
    (h : Compacts transitions (admitted.insert transition.itemId (item.reduced transition))
      admitted') : Compacts (transition :: transitions) admitted admitted' := by
  constructor
  · intro id hid
    rw [h.untouched id fun t ht => hid t (by simp [ht]), BTreeMap.get?_insert_of_ne]
    exact (hid transition (by simp)).symm
  · intro t ht
    by_cases hsame : ∃ t' ∈ transitions, t'.itemId = t.itemId
    · obtain ⟨t',ht',hsame⟩ := hsame
      obtain ⟨item₁,item₂,hget₁,hget₂,hlater⟩ := h.touched t' ht'
      rw [hsame] at hget₁ hget₂
      rw [BTreeMap.get?_insert] at hget₁
      split_ifs at hget₁ with hid
      · cases hget₁
        exact ⟨item,item₂,hid ▸ hget,hget₂,hreduced.trans hlater⟩
      · exact ⟨item₁,item₂,hget₁,hget₂,hlater⟩
    · have hid : t.itemId = transition.itemId := by
        rcases List.mem_cons.mp ht with rfl | ht
        · rfl
        · exact absurd ⟨t,ht,rfl⟩ hsame
      refine ⟨item,item.reduced transition,hid ▸ hget,?_,hreduced⟩
      rw [h.untouched _ fun t' ht' h' => hsame ⟨t',ht',h'⟩, hid, BTreeMap.get?_insert_self]

end Transitions

namespace ContextProjectionState
variable {self next : ContextProjectionState} {transition : RetentionTransition}
  {item : AdmittedContextItem}

theorem itemFor_eq_ok : self.itemFor transition = .ok item ↔
    self.admitted.get? transition.itemId = some item ∧
      item.retention = transition.fromRetention := by
  unfold itemFor
  cases self.admitted.get? transition.itemId with
  | none => simp
  | some item' =>
    by_cases hfrom : item'.retention = transition.fromRetention
    · simp only [hfrom, ne_eq, not_true_eq_false, if_false, Except.ok.injEq, Option.some.injEq]
      exact (and_iff_left_of_imp fun h => h ▸ hfrom).symm
    · simp only [ne_eq, hfrom, not_false_eq_true, if_true, reduceCtorEq, Option.some.injEq,
        false_iff, not_and]
      rintro rfl
      exact hfrom

/-- The state after a transition of an item. -/
def reduce (self : ContextProjectionState) (transition : RetentionTransition)
    (item : AdmittedContextItem) : ContextProjectionState :=
  { self with admitted := self.admitted.insert transition.itemId (item.reduced transition) }

theorem applyTransition_eq_ok : applyTransition transition self = .ok ⟨⟩ next ↔
    ∃ item, self.itemFor transition = .ok item ∧ next = self.reduce transition item := by
  rw [applyTransition, checked_eq]
  cases self.itemFor transition with
  | ok item => simp [reduce, eq_comm]
  | error e => simp

variable {transitions : List RetentionTransition}

/-- Transitions change nothing but the items. -/
theorem applyTransitions_eq_ok (hvalid : ∀ transition ∈ transitions, transition.validate = .ok ())
    (h : transitions.forM applyTransition self = .ok ⟨⟩ next) :
    next = { self with admitted := next.admitted } ∧
      Compacts transitions self.admitted next.admitted := by
  induction transitions generalizing self with
  | nil =>
    cases h
    exact ⟨rfl,fun _ _ => rfl,fun transition h => absurd h List.not_mem_nil⟩
  | cons transition transitions ih =>
    obtain ⟨⟨⟩,middle,hfirst,h⟩ := stateful_bind_eq_ok.mp h
    obtain ⟨item,hitem,rfl⟩ := applyTransition_eq_ok.mp hfirst
    obtain ⟨hget,hfrom⟩ := itemFor_eq_ok.mp hitem
    obtain ⟨hnext,hcompacts⟩ := ih (fun t ht => hvalid t (by simp [ht])) h
    exact ⟨hnext,.cons hget (reduced_of_validate (hvalid transition (by simp)) hfrom) hcompacts⟩

theorem itemFor_reduce_of_ne {other : RetentionTransition}
    (h : other.itemId ≠ transition.itemId) :
    (self.reduce transition item).itemFor other = self.itemFor other := by
  rw [itemFor, itemFor, reduce, BTreeMap.get?_insert_of_ne _ _ h]

theorem itemFor_reduce_of_eq {other : RetentionTransition}
    (h : other.itemId = transition.itemId) (hto : transition.toRetention = other.fromRetention) :
    (self.reduce transition item).itemFor other = .ok (item.reduced transition) := by
  rw [itemFor_eq_ok, h]
  exact ⟨BTreeMap.get?_insert_self ..,hto⟩

/-- Of the transitions of an item that all start from one retention the first one fits. -/
theorem exists_itemFor (ht : transition ∈ transitions)
    (hsame : ∀ other ∈ transitions, other.itemId = transition.itemId → other.fromRetention = transition.fromRetention)
    (h : transitions.forM applyTransition self = .ok ⟨⟩ next) :
    ∃ item, self.itemFor transition = .ok item := by
  induction transitions generalizing self with
  | nil => cases ht
  | cons other transitions ih =>
    obtain ⟨⟨⟩,middle,hfirst,h⟩ := stateful_bind_eq_ok.mp h
    obtain ⟨item,hitem,rfl⟩ := applyTransition_eq_ok.mp hfirst
    by_cases hid : other.itemId = transition.itemId
    · obtain ⟨hget,hfrom⟩ := itemFor_eq_ok.mp hitem
      rw [hid] at hget
      rw [hsame other (by simp) hid] at hfrom
      exact ⟨item,itemFor_eq_ok.mpr ⟨hget,hfrom⟩⟩
    · have ht' : transition ∈ transitions := by
        rcases List.mem_cons.mp ht with rfl | ht
        · exact absurd rfl hid
        · exact ht
      have hkept : (self.reduce other item).itemFor transition = self.itemFor transition :=
        itemFor_reduce_of_ne (Ne.symm hid)
      rw [← hkept]
      exact ih ht' (fun t ht => hsame t (by simp [ht])) h

/-- Transitions that all fit the items before them can be applied one after another if
and only if they are chained. -/
theorem exists_applyTransitions_iff
    (hfit : ∀ transition ∈ transitions, ∃ item, self.itemFor transition = .ok item) :
    (∃ next, transitions.forM applyTransition self = .ok ⟨⟩ next) ↔
      transitions.Pairwise fun first second =>
        first.itemId = second.itemId → first.toRetention = second.fromRetention := by
  induction transitions generalizing self with
  | nil => exact iff_of_true ⟨self,rfl⟩ .nil
  | cons transition transitions ih =>
    obtain ⟨item,hitem⟩ := hfit transition (by simp)
    have hstep : applyTransition transition self = .ok ⟨⟩ (self.reduce transition item) :=
      applyTransition_eq_ok.mpr ⟨item,hitem,rfl⟩
    have hrest : ∀ next, (transition :: transitions).forM applyTransition self = .ok ⟨⟩ next ↔
        transitions.forM applyTransition (self.reduce transition item) = .ok ⟨⟩ next :=
      fun next => iff_of_eq (congrArg (· = _) (stateful_bind_ok hstep))
    simp only [hrest, List.pairwise_cons]
    by_cases hchained : ∀ other ∈ transitions, transition.itemId = other.itemId →
        transition.toRetention = other.fromRetention
    · rw [ih, and_iff_right hchained]
      intro other ho
      by_cases hid : other.itemId = transition.itemId
      · exact ⟨_,itemFor_reduce_of_eq hid (hchained other ho hid.symm)⟩
      · rw [itemFor_reduce_of_ne hid]
        exact hfit other (by simp [ho])
    · apply iff_of_false _ fun h => hchained h.1
      rintro ⟨next,h⟩
      push Not at hchained
      obtain ⟨other,ho,hid,hto⟩ := hchained
      have hfrom : ∀ t ∈ transition :: transitions, t.itemId = other.itemId →
          t.fromRetention = item.retention := by
        intro t ht htid
        obtain ⟨item',hitem'⟩ := hfit t ht
        have hget' := (itemFor_eq_ok.mp hitem').1
        rw [htid, ← hid, (itemFor_eq_ok.mp hitem).1, Option.some.injEq] at hget'
        rw [hget', (itemFor_eq_ok.mp hitem').2]
      obtain ⟨item',hitem'⟩ := exists_itemFor ho (fun t ht htid => (hfrom t (by simp [ht]) htid).trans
        (hfrom other (by simp [ho]) rfl).symm) h
      obtain ⟨hget',hfrom'⟩ := itemFor_eq_ok.mp hitem'
      rw [reduce, ← hid, BTreeMap.get?_insert_self, Option.some.injEq] at hget'
      apply hto
      rw [← hfrom', ← hget']
      rfl

end ContextProjectionState

end PhenixConductor.Context
