import PhenixConductor.Context.AdmissionBudget
import PhenixConductor.Context.ProjectionRuns

/-! # What an admission leaves in a projection

Under an id that was admitted stands the last item with that id.
-/
namespace PhenixConductor.Context
open Collections

namespace ContextProjectionState
variable {self next : ContextProjectionState} {result : ContextAdmissionResult}
  {admitted : List AdmittedContextItem}

theorem admittedItems_concat (items : List AdmittedContextItem) (item : AdmittedContextItem) :
    admittedItems (items ++ [item]) = (admittedItems items).insert item.id item :=
  List.foldl_concat ..

theorem admittedItems_eq_none {id : String} :
    (admittedItems admitted).get? id = none ↔ ∀ item ∈ admitted, item.id ≠ id := by
  induction admitted using List.reverseRecOn with
  | nil => simp [admittedItems]
  | append_singleton items last ih =>
    rw [admittedItems_concat, BTreeMap.get?_insert]
    split_ifs with hid
    · simp [hid]
    · rw [ih]
      simp [or_imp, forall_and, Ne.symm hid]

/-- The item under an id is the last one that was admitted with it. -/
theorem get?_admittedItems {id : String} {item : AdmittedContextItem} :
    (admittedItems admitted).get? id = some item ↔ item.id = id ∧ ∃ before after,
      admitted = before ++ item :: after ∧ ∀ later ∈ after, later.id ≠ id := by
  induction admitted using List.reverseRecOn with
  | nil => simp [admittedItems]
  | append_singleton items last ih =>
    rw [admittedItems_concat, BTreeMap.get?_insert]
    split_ifs with hid
    · subst hid
      constructor
      · rintro ⟨⟩
        exact ⟨rfl,items,[],rfl,fun _ h => absurd h List.not_mem_nil⟩
      · rintro ⟨hid,before,after,hsplit,hlater⟩
        rcases concat_eq_append_cons.mp hsplit with ⟨rest,rfl,-⟩ | ⟨-,-,rfl⟩
        · exact absurd rfl (hlater last (by simp))
        · rfl
    · rw [ih]
      refine and_congr_right fun hitem => ⟨?_,?_⟩
      · rintro ⟨before,after,hsplit,hlater⟩
        refine ⟨before,after ++ [last],?_,?_⟩
        · rw [hsplit, List.append_assoc, List.cons_append]
        · intro later hl
          rcases List.mem_append.mp hl with hl | hl
          · exact hlater later hl
          · rw [List.mem_singleton.mp hl]
            exact Ne.symm hid
      · rintro ⟨before,after,hsplit,hlater⟩
        rcases concat_eq_append_cons.mp hsplit with ⟨rest,rfl,hitems⟩ | ⟨-,-,rfl⟩
        · exact ⟨before,rest,hitems,fun later hl => hlater later (by simp [hl])⟩
        · exact absurd hitem.symm hid

theorem get?_withAdmission (id : String) : (self.withAdmission result).admitted.get? id =
    ((admittedItems result.admitted).get? id).or
      ((self.admitted.get? id).filter (·.preservesWithoutReadmission)) :=
  BTreeMap.get?_foldl_keep ..

/-- Every item stands under its id, and a reference says where it leads. -/
structure Recoverable (state : ContextProjectionState) : Prop where
  ids : ∀ id item, state.admitted.get? id = some item → item.id = id
  references : ∀ id item, state.admitted.get? id = some item → item.form = .reference →
    item.recovery.isSome

theorem Recoverable.of_eq (h : self.Recoverable) (hadmitted : next.admitted = self.admitted) :
    next.Recoverable where
  ids := hadmitted ▸ h.ids
  references := hadmitted ▸ h.references

theorem Recoverable.after_withAdmission (h : self.Recoverable) {request : ContextAdmissionRequest}
    (hresult : request.admission = .ok result) : (self.withAdmission result).Recoverable := by
  constructor
  · intro id item hget
    rw [get?_withAdmission, Option.or_eq_some_iff] at hget
    rcases hget with hget | ⟨-,hget⟩
    · exact (get?_admittedItems.mp hget).1
    · exact h.ids id item (Option.filter_eq_some_iff.mp hget).1
  · intro id item hget
    rw [get?_withAdmission, Option.or_eq_some_iff] at hget
    rcases hget with hget | ⟨-,hget⟩
    · obtain ⟨-,before,after,hsplit,-⟩ := get?_admittedItems.mp hget
      exact request.recovery_of_reference hresult (by simp [hsplit])
    · exact h.references id item (Option.filter_eq_some_iff.mp hget).1

theorem Recoverable.after_applyTransition (h : self.Recoverable) {transition : RetentionTransition}
    (hvalid : transition.validate = .ok ()) :
    (after (applyTransition transition) self).Recoverable := by
  have hstep : (∃ item, self.itemFor transition = .ok item ∧
      after (applyTransition transition) self = self.reduce transition item) ∨
        after (applyTransition transition) self = self :=
    after_checked (fun state => itemFor state transition)
      (fun state item => reduce state transition item) self
  rcases hstep with ⟨item,hitem,hafter⟩ | hafter
  · have hget := (itemFor_eq_ok.mp hitem).1
    rw [hafter]
    constructor
    · intro id item' hget'
      rw [reduce, BTreeMap.get?_insert] at hget'
      split_ifs at hget' with hid
      · cases hget'
        exact hid ▸ h.ids _ item hget
      · exact h.ids id item' hget'
    · intro id item' hget' hform
      rw [reduce, BTreeMap.get?_insert] at hget'
      split_ifs at hget' with hid
      · cases hget'
        have hto : transition.toRetention = .reference := by
          change transition.toRetention.form = .reference at hform
          cases hretention : transition.toRetention <;> simp [hretention, ContextRetention.form] at hform
          rfl
        have hrecovery := (RetentionTransition.validate_eq_ok.mp hvalid).2.2 (.inr hto)
        simp [AdmittedContextItem.reduced, hrecovery]
      · exact h.references id item' hget' hform
  · rwa [hafter]

/-- A commit that stops half-way leaves items that can be recovered as well. -/
theorem Recoverable.after_commitProposal (h : self.Recoverable) (proposal : CompactionProposal) :
    (after (commitProposal proposal) self).Recoverable := by
  apply after_bind_invariant (x := get) h
  rintro state same ⟨⟩ -
  apply after_bind_invariant (by rwa [after_check])
  intro _ checkedState hcheck hchecked
  obtain ⟨hvalid,-⟩ := check_eq_ok.mp hcheck
  obtain ⟨-,-,htransitions⟩ := CompactionProposal.validateAgainst_eq_ok (mapError_eq_ok.mp hvalid)
  apply after_bind_invariant
  · exact after_forM_invariant (fun transition ht s hs =>
      hs.after_applyTransition (htransitions transition ht)) hchecked
  · intro _ applied _ happlied
    exact happlied.of_eq rfl

theorem Recoverable.after_commitCompaction (h : self.Recoverable) (id : String) :
    (after (commitCompaction id) self).Recoverable := by
  apply after_bind_invariant (x := get) h
  rintro state same ⟨⟩ -
  cases self.prepared.get? id with
  | none => exact h
  | some proposal =>
    have herased : ({ self with prepared := self.prepared.erase id } :
      ContextProjectionState).Recoverable := h.of_eq rfl
    exact herased.after_commitProposal proposal

/-- The operation applies what some request was answered with. -/
def Honest (operation : ProjectionOperation) : Prop :=
  ∀ result, operation = .applyAdmission result → ∃ request : ContextAdmissionRequest,
    request.admission = .ok result

theorem Recoverable.step (h : self.Recoverable) {operation : ProjectionOperation}
    (honest : Honest operation) : (self.step operation).Recoverable := by
  cases operation with
  | applyAdmission result =>
    obtain ⟨request,hresult⟩ := honest result rfl
    have hstep : (∃ u, self.admissible result = .ok u ∧
        after (applyAdmission result) self = self.withAdmission result) ∨
          after (applyAdmission result) self = self :=
      after_checked (fun state => admissible state result)
        (fun state _ => withAdmission state result) self
    rcases hstep with ⟨-,-,hafter⟩ | hafter
    · exact (h.after_withAdmission hresult).of_eq (congrArg (·.admitted) hafter)
    · exact h.of_eq (congrArg (·.admitted) hafter)
  | prepareCompaction proposal =>
    have hstep : (∃ u, self.preparable proposal = .ok u ∧
        after (prepareCompaction proposal) self = { self with
          prepared := self.prepared.insert proposal.checkpoint.checkpointId proposal }) ∨
          after (prepareCompaction proposal) self = self :=
      after_checked (fun state => preparable state proposal) _ self
    rcases hstep with ⟨-,-,hafter⟩ | hafter
    · exact h.of_eq (congrArg (·.admitted) hafter)
    · exact h.of_eq (congrArg (·.admitted) hafter)
  | commitCompaction id =>
    exact after_bind_invariant (h.after_commitCompaction id) fun _ _ _ hnext => hnext
  | invalidateForContextMutation => exact h.of_eq rfl

/-- A projection that some operations lead to. -/
def Reachable (state : ContextProjectionState) : Prop :=
  ∃ executionId operations, (∀ operation ∈ operations, Honest operation) ∧
    state = runAll ContextProjectionState.step (.new executionId) operations

theorem Reachable.recoverable (h : self.Reachable) : self.Recoverable := by
  obtain ⟨executionId,operations,honest,rfl⟩ := h
  have hnew : (ContextProjectionState.new executionId).Recoverable := by
    constructor <;> intro id item hget <;> cases hget
  exact (along_of_forall ContextProjectionState.step (fun operation ho _ => honest operation ho)
    _).invariant (fun state operation hstate ho => hstate.step ho) hnew

end ContextProjectionState

end PhenixConductor.Context
