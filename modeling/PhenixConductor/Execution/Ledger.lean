import PhenixConductor.Execution.Measures
import PhenixConductor.Collections.Fallible

/-! # The operations of a ledger

Each operation checks the ledger and then puts one record: a new one under an
identity that is free, or the same reservation in another state.
-/
namespace PhenixConductor.Execution
open Collections BudgetReservationRecord

namespace RootBudgetLedger
variable (self : RootBudgetLedger)

def IsActive (reservationId : String) : Prop :=
  ∃ record, self.reservations.get? reservationId = some record ∧ record.state = .reserved

def IsSettled (reservationId : String) : Prop :=
  ∃ record actual, self.reservations.get? reservationId = some record ∧
    record.state = .settled actual

variable {self} {measure : Measure}

theorem chargeOf_of_get {id : String} {record : BudgetReservationRecord}
    (h : self.reservations.get? id = some record) :
    self.chargeOf measure id = record.charge measure := valueAt_of_get h

theorem IsActive.not_isSettled {id : String} (h : self.IsActive id) : ¬ self.IsSettled id := by
  obtain ⟨record,hrecord,hstate⟩ := h
  rintro ⟨record',actual,hrecord',hstate'⟩
  cases hrecord.symm.trans hrecord'
  cases hstate.symm.trans hstate'

theorem mem_level {id : String} {x : Option String} :
    id ∈ self.level x ↔ id ∈ self.nodes ∧ self.parent id = x := Finset.mem_filter

section Checks
variable {id : String} {record : BudgetReservationRecord}

theorem closable_eq_ok :
    self.closable id = .ok record ↔ self.reservations.get? id = some record ∧
      record.state = .reserved ∧ self.hasActiveChildren id = false := by
  unfold closable
  cases hget : self.reservations.get? id with
  | none => simp
  | some found =>
    by_cases hstate : found.state = .reserved
    · cases hactive : self.hasActiveChildren id
      · simp only [hstate, ne_eq, not_true_eq_false, if_false, Bool.false_eq_true,
          Except.ok.injEq, Option.some.injEq, and_true]
        constructor
        · rintro rfl
          exact ⟨rfl,hstate⟩
        · exact And.left
      · simp [hstate]
    · simp only [ne_eq, hstate, not_false_eq_true, if_true, reduceCtorEq, Option.some.injEq,
        false_iff, not_and]
      rintro rfl hreserved
      exact absurd hreserved hstate

theorem settleable_eq_ok {actual : BudgetActual} (h : self.settleable id actual = .ok record) :
    self.closable id = .ok record ∧ actualExceedsRequest actual record.request = false ∧
      ∀ measure, (self.settledDirectChildUsage id).amount measure ≤
        actual.used record.request measure := by
  obtain ⟨found,hfound,h⟩ := bind_eq_ok.mp h
  split_ifs at h with hexceeds
  dsimp only at h
  split_ifs at h with hbelow
  cases h
  refine ⟨hfound,by simpa using hexceeds,?_⟩
  simp only [Bool.or_eq_true, decide_eq_true_eq, not_or, not_lt] at hbelow
  obtain ⟨⟨⟨hinput,houtput⟩,hattempts⟩,hcost⟩ := hbelow
  intro measure
  cases measure with
  | freshInputTokens => exact hinput
  | outputTokens => exact houtput
  | costMicrounits => exact hcost
  | attempts => exact hattempts

/-- What is left where a reservation is made is what the reservations there have not taken. -/
theorem reservable_eq_ok {request : BudgetReservationRequest}
    (h : self.reservable request = .ok ()) :
    request.reservationId ∉ self.nodes ∧
      (∀ parentId ∈ request.parentReservationId, self.IsActive parentId) ∧
      ∀ measure, ∀ requested ∈ request.amount measure, ∀ available,
        (request.parentReservationId = none → self.limits.amount measure = some available) →
        (∀ parentId ∈ request.parentReservationId, ∀ parent,
          self.reservations.get? parentId = some parent →
          parent.request.amount measure = some available) →
        requested ≤ available -
          ∑ id ∈ self.level request.parentReservationId, self.chargeOf measure id := by
  unfold reservable at h
  split_ifs at h with hfresh
  obtain ⟨remaining,hremaining,hfits⟩ := bind_eq_ok.mp h
  rw [validateFits_eq_ok] at hfits
  refine ⟨by simpa [nodes] using hfresh,?_⟩
  unfold remainingFor at hremaining
  cases hparent : request.parentReservationId with
  | none =>
    rw [hparent] at hremaining
    cases hremaining
    refine ⟨by simp,fun measure requested hrequested available havailable _ => ?_⟩
    apply hfits measure requested hrequested
    rw [self.remaining_amount, havailable rfl]
    rfl
  | some parentId =>
    rw [hparent] at hremaining
    cases hget : self.reservations.get? parentId with
    | none => simp [hget] at hremaining
    | some parent =>
      simp only [hget] at hremaining
      split_ifs at hremaining with hstate
      have hactive : self.IsActive parentId := ⟨parent,hget,not_not.mp hstate⟩
      refine ⟨fun _ h => Option.mem_some_iff.mp h ▸ hactive,
        fun measure requested hrequested available _ havailable => ?_⟩
      obtain ⟨within,hwithin,hamount⟩ := self.remainingWithin_amount hget measure
      cases hremaining.symm.trans hwithin
      apply hfits measure requested hrequested
      rw [hamount, havailable parentId rfl parent hget]
      rfl

theorem not_isActive_of_mem_level {child : String} (h : self.hasActiveChildren id = false)
    (hchild : child ∈ self.level (some id)) : ¬ self.IsActive child := by
  rintro ⟨record,hrecord,hstate⟩
  have hparent := (mem_level.mp hchild).2
  rw [parent_eq_of_get hrecord] at hparent
  have hmem : record ∈ self.childrenOf (some id) := by
    apply List.mem_filter.mpr
    exact ⟨self.reservations.mem_values.mpr ⟨child,hrecord⟩,by simpa using hparent⟩
  have hnone := List.any_eq_false.mp h record hmem
  simp [hstate] at hnone

/-- With no active child, the children take what they have used. -/
theorem sum_charge_eq_settledUse (h : self.hasActiveChildren id = false) :
    ∑ child ∈ self.level (some id), self.chargeOf measure child =
      ∑ child ∈ self.level (some id), self.valueAt (·.settledUse measure) child := by
  apply Finset.sum_congr rfl
  intro child hchild
  obtain ⟨record,hrecord⟩ :=
    Option.isSome_iff_exists.mp (mem_nodes.mp (mem_level.mp hchild).1)
  have hactive := not_isActive_of_mem_level h hchild
  rw [chargeOf_of_get hrecord, valueAt_of_get hrecord]
  cases hstate : record.state with
  | reserved => exact absurd ⟨record,hrecord,hstate⟩ hactive
  | settled actual => simp [charge, settledUse, hstate]
  | released => simp [charge, settledUse, hstate]

end Checks

section Put
variable {id : String} {record : BudgetReservationRecord}

theorem get?_put (j : String) :
    (self.put record id).reservations.get? j =
      if j = id then some record else self.reservations.get? j :=
  BTreeMap.get?_insert _ _ _ _

theorem get?_put_self : (self.put record id).reservations.get? id = some record := by
  rw [get?_put, if_pos rfl]

theorem chargeOf_put (j : String) :
    (self.put record id).chargeOf measure j =
      if j = id then record.charge measure else self.chargeOf measure j := by
  unfold chargeOf valueAt
  rw [get?_put]
  split <;> rfl

theorem chargeOf_put_self : (self.put record id).chargeOf measure id = record.charge measure := by
  rw [chargeOf_put, if_pos rfl]

theorem chargeOf_put_of_ne {j : String} (h : j ≠ id) :
    (self.put record id).chargeOf measure j = self.chargeOf measure j := by
  rw [chargeOf_put, if_neg h]

theorem chargeOf_put_le {new : BudgetReservationRecord}
    (hget : self.reservations.get? id = some record)
    (hcharge : new.charge measure ≤ record.charge measure) (j : String) :
    (self.put new id).chargeOf measure j ≤ self.chargeOf measure j := by
  rw [chargeOf_put]
  split_ifs with hj
  · rw [hj, chargeOf_of_get hget]
    exact hcharge
  · rfl

theorem isSettled_put_of_ne {j : String} (h : j ≠ id) :
    (self.put record id).IsSettled j ↔ self.IsSettled j := by
  unfold IsSettled
  rw [get?_put, if_neg h]

theorem nodes_put : (self.put record id).nodes = insert id self.nodes := by
  ext j
  rw [mem_nodes, get?_put, Finset.mem_insert, mem_nodes]
  split_ifs with hj <;> simp [hj]

theorem parent_put (j : String) :
    (self.put record id).parent j =
      if j = id then record.request.parentReservationId else self.parent j := by
  unfold parent
  rw [get?_put]
  split <;> rfl

/-- A record of the same reservation leaves the tree as it is. -/
theorem level_put_of_get {new : BudgetReservationRecord}
    (hget : self.reservations.get? id = some record) (hrequest : new.request = record.request)
    (x : Option String) :
    (self.put new id).parent = self.parent ∧ (self.put new id).level x = self.level x := by
  have hparent : (self.put new id).parent = self.parent := by
    funext j
    rw [parent_put]
    split_ifs with hj
    · rw [hj, hrequest, parent_eq_of_get hget]
    · rfl
  have hmem : id ∈ self.nodes := mem_nodes.mpr (by simp [hget])
  refine ⟨hparent,?_⟩
  unfold level
  rw [hparent, nodes_put, Finset.insert_eq_of_mem hmem]

/-- A new record joins the level that it is made in. -/
theorem level_put_of_notMem (hfresh : id ∉ self.nodes) (x : Option String) :
    (self.put record id).level x =
      if record.request.parentReservationId = x then insert id (self.level x)
      else self.level x := by
  ext j
  rw [mem_level, nodes_put, Finset.mem_insert, parent_put]
  by_cases hid : j = id
  · subst hid
    have hnone : j ∉ self.level x := fun hmem => hfresh (mem_level.mp hmem).1
    rw [if_pos rfl]
    split_ifs with hx
    · exact iff_of_true ⟨.inl rfl,hx⟩ (Finset.mem_insert_self _ _)
    · exact iff_of_false (fun h => hx h.2) hnone
  · split_ifs with hx <;> simp [hid, mem_level]

theorem sum_level_put_of_notMem (hfresh : id ∉ self.nodes) (x : Option String) :
    ∑ j ∈ (self.put record id).level x, (self.put record id).chargeOf measure j =
      (if record.request.parentReservationId = x then record.charge measure else 0) +
        ∑ j ∈ self.level x, self.chargeOf measure j := by
  have hnone : id ∉ self.level x := fun hmem => hfresh (mem_level.mp hmem).1
  have hsum : ∑ j ∈ self.level x, (self.put record id).chargeOf measure j =
      ∑ j ∈ self.level x, self.chargeOf measure j := by
    apply Finset.sum_congr rfl
    intro j hj
    exact chargeOf_put_of_ne fun hid => hnone (hid ▸ hj)
  rw [level_put_of_notMem hfresh]
  split_ifs
  · rw [Finset.sum_insert hnone, chargeOf_put_self, hsum]
  · rw [hsum, zero_add]

end Put

/-- What a call can do. -/
inductive Effect (before : RootBudgetLedger) : LedgerCall → RootBudgetLedger → Prop
  | reserve {request : BudgetReservationRequest} (h : before.reservable request = .ok ()) :
      Effect before (.reserve request) (before.put ⟨request,.reserved⟩ request.reservationId)
  | settle {id : String} {actual : BudgetActual} {record : BudgetReservationRecord}
      (h : before.settleable id actual = .ok record) :
      Effect before (.settle id actual) (before.put { record with state := .settled actual } id)
  | release {id : String} {record : BudgetReservationRecord}
      (h : before.closable id = .ok record) :
      Effect before (.release id) (before.put { record with state := .released } id)
  | failed {call : LedgerCall} : Effect before call before

theorem effect_step (self : RootBudgetLedger) (call : LedgerCall) :
    Effect self call (self.step call) := by
  have hstep : ∀ {α : Type} {f : RootBudgetLedger → Except BudgetLedgerError α}
      {g : RootBudgetLedger → α → RootBudgetLedger},
      (∀ a, f self = .ok a → Effect self call (g self a)) →
        Effect self call (after (checked f g) self) := by
    intro α f g h
    rcases after_checked f g self with ⟨a,hok,hafter⟩ | hafter
    · rw [hafter]
      exact h a hok
    · rw [hafter]
      exact .failed
  cases call with
  | reserve request => exact hstep fun _ h => .reserve h
  | settle id actual => exact hstep fun _ h => .settle h
  | release id => exact hstep fun _ h => .release h

theorem perform_eq_error {call : LedgerCall} {error : BudgetLedgerError}
    {next : RootBudgetLedger} (h : call.perform self = .error error next) : next = self := by
  cases call with
  | reserve request => exact checked_eq_error h
  | settle id actual => exact checked_eq_error h
  | release id => exact checked_eq_error h

end RootBudgetLedger

end PhenixConductor.Execution
