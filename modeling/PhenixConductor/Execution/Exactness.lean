import PhenixConductor.Execution.Conservation

/-! # Exact arithmetic of the budget

What is left of a budget and what has been taken from it add up, in every measure that is
limited, and what is open can be closed.
-/
namespace PhenixConductor.Execution
open Collections Relation RootBudgetLedger BudgetReservationRecord

/-- Nothing is clipped anywhere, and nothing that is reserved is stranded. -/
structure Exact (ledger : RootBudgetLedger) : Prop where
  parents : ∀ id above, IsParent ledger.parent id above → above ∈ ledger.nodes
  acyclic : ∀ id, ¬ TransGen (IsParent ledger.parent) id id
  root : ∀ measure, ∀ limit ∈ ledger.limits.amount measure,
    ∃ left ∈ ledger.remaining.amount measure,
      left + ∑ id ∈ ledger.level none, ledger.chargeOf measure id = limit
  within : ∀ id record, ledger.reservations.get? id = some record → record.state = .reserved →
    ∃ remaining, ledger.remainingWithin id = .ok remaining ∧
      ∀ measure, ∀ reserved ∈ record.request.amount measure, ∃ left ∈ remaining.amount measure,
        left + ∑ child ∈ ledger.level (some id), ledger.chargeOf measure child = reserved
  closable : ∀ id record, ledger.reservations.get? id = some record → record.state = .reserved →
    (∀ child ∈ ledger.level (some id), ¬ ledger.IsActive child) →
    ∃ actual next, actualExceedsRequest actual record.request = false ∧
      settle id actual ledger = .ok () next

/-- A reservation without a cost, if it is settled, costs no more than is left above it. -/
def LedgerCall.Affordable (self : RootBudgetLedger) : LedgerCall → Prop
  | .reserve _ => True
  | .settle reservationId actual => ∀ record, self.settleable reservationId actual = .ok record →
    record.request.budget.costMicrounits = none →
    ∀ remaining, self.remainingFor record.request = .ok remaining →
    ∀ left ∈ remaining.costMicrounits, actualCostForRequest actual record.request ≤ left
  | .release _ => True

namespace RootBudgetLedger
variable {self : RootBudgetLedger} {measure : Measure}

/-- What a level is taken from: the limits, or the request of an active reservation. -/
def available (self : RootBudgetLedger) (measure : Measure) : Option String → Option ℕ
  | none => self.limits.amount measure
  | some id => (self.reservations.get? id).bind fun record =>
    if record.state = .reserved then record.request.amount measure else none

/-- No level takes more than there is. -/
def Levelled (now : RootBudgetLedger) : Prop :=
  ∀ measure level, ∀ amount ∈ now.available measure level,
    ∑ id ∈ now.level level, now.chargeOf measure id ≤ amount

theorem available_of_active {id : String} {record : BudgetReservationRecord}
    (hget : self.reservations.get? id = some record) (hstate : record.state = .reserved) :
    self.available measure (some id) = record.request.amount measure := by
  rw [available, hget, Option.bind_some, if_pos hstate]

theorem active_of_available {id : String} {amount : ℕ}
    (h : amount ∈ self.available measure (some id)) :
    ∃ record, self.reservations.get? id = some record ∧ record.state = .reserved ∧
      record.request.amount measure = some amount := by
  obtain ⟨record,hget,h⟩ := Option.bind_eq_some_iff.mp h
  split_ifs at h with hstate
  exact ⟨record,hget,hstate,h⟩

variable {request : BudgetReservationRequest}

/-- What is left where a reservation is made. -/
theorem remainingFor_of_available {amount : ℕ}
    (h : amount ∈ self.available measure request.parentReservationId) :
    ∃ remaining, self.remainingFor request = .ok remaining ∧ remaining.amount measure =
      some (amount - ∑ id ∈ self.level request.parentReservationId, self.chargeOf measure id) := by
  unfold remainingFor
  cases hparent : request.parentReservationId with
  | none =>
    rw [hparent] at h
    have hlimit : self.limits.amount measure = some amount := h
    refine ⟨self.remaining,rfl,?_⟩
    rw [self.remaining_amount, hlimit, Option.map_some]
  | some parentId =>
    rw [hparent] at h
    obtain ⟨parent,hget,hstate,hreserved⟩ := active_of_available h
    obtain ⟨remaining,hremaining,hamount⟩ := self.remainingWithin_amount hget measure
    rw [hreserved] at hamount
    refine ⟨remaining,?_,hamount⟩
    simp only [hget, hstate, ne_eq, not_true_eq_false, if_false]
    exact hremaining

/-- Only a cost can be left open. -/
theorem amount_eq_none (h : request.amount measure = none) :
    measure = .costMicrounits ∧ request.budget.costMicrounits = none := by
  cases measure with
  | costMicrounits => exact ⟨rfl,Option.map_eq_none_iff.mp h⟩
  | freshInputTokens => cases h
  | outputTokens => cases h
  | attempts => cases h

section Put
variable {id : String} {record : BudgetReservationRecord}

theorem available_put (level : Option String) :
    (self.put record id).available measure level =
      if level = some id then
        if record.state = .reserved then record.request.amount measure else none
      else self.available measure level := by
  cases level with
  | none => rfl
  | some j =>
    simp only [available, get?_put, Option.some.injEq]
    by_cases hj : j = id <;> simp [hj]

variable (measure) in
/-- A record in the place of another one changes a sum by the change of its charge. -/
theorem sum_level_put_of_get {new : BudgetReservationRecord}
    (hget : self.reservations.get? id = some record) (hrequest : new.request = record.request)
    (level : Option String) :
    ∑ j ∈ (self.put new id).level level, (self.put new id).chargeOf measure j +
        (if record.request.parentReservationId = level then record.charge measure else 0) =
      ∑ j ∈ self.level level, self.chargeOf measure j +
        if record.request.parentReservationId = level then new.charge measure else 0 := by
  have hmem : id ∈ self.level level ↔ record.request.parentReservationId = level := by
    rw [mem_level, parent_eq_of_get hget]
    exact and_iff_right (mem_nodes.mpr (by simp [hget]))
  have hothers : ∑ j ∈ (self.level level).erase id, (self.put new id).chargeOf measure j =
      ∑ j ∈ (self.level level).erase id, self.chargeOf measure j := by
    apply Finset.sum_congr rfl
    intro j hj
    exact chargeOf_put_of_ne (Finset.ne_of_mem_erase hj)
  rw [(level_put_of_get hget hrequest level).2]
  split_ifs with hlevel
  · have hin := hmem.mpr hlevel
    rw [← Finset.sum_erase_add _ _ hin, ← Finset.sum_erase_add _ (self.chargeOf measure) hin,
      hothers, chargeOf_put_self, chargeOf_of_get hget]
    omega
  · rw [← Finset.erase_eq_of_notMem (mt hmem.mp hlevel), hothers]

end Put

theorem levelled_new (rootExecutionId : String) (limits : RootBudgetLimits) :
    (new rootExecutionId limits).Levelled := fun _ _ _ _ => Nat.zero_le _

section Steps
variable {id : String} {record : BudgetReservationRecord}

/-- A level from which a closed reservation takes no more than it may. -/
theorem Levelled.close (h : self.Levelled) {new : BudgetReservationRecord}
    (hget : self.reservations.get? id = some record) (hrequest : new.request = record.request)
    (hclosed : new.state ≠ .reserved)
    (hcharge : ∀ measure, new.charge measure ≤ record.charge measure ∨
      ∀ amount ∈ self.available measure record.request.parentReservationId,
        new.charge measure +
          ∑ j ∈ self.level record.request.parentReservationId, self.chargeOf measure j ≤ amount) :
    (self.put new id).Levelled := by
  intro measure level amount hamount
  rw [available_put] at hamount
  split_ifs at hamount
  · cases hamount
  have hsum := sum_level_put_of_get measure hget hrequest level
  have hle := h measure level amount hamount
  split_ifs at hsum with hlevel
  · subst hlevel
    rcases hcharge measure with hcharge | hcharge
    · omega
    · have hnew := hcharge amount hamount
      omega
  · omega

theorem Levelled.reserve (h : self.Levelled) (hranked : self.Ranked)
    {request : BudgetReservationRequest} (hreservable : self.reservable request = .ok ()) :
    (self.put ⟨request,.reserved⟩ request.reservationId).Levelled := by
  obtain ⟨hfresh,hactive,hfits⟩ := reservable_eq_ok hreservable
  obtain ⟨rank,hrank⟩ := hranked
  intro measure level amount hamount
  rw [available_put, if_pos rfl] at hamount
  rw [sum_level_put_of_notMem hfresh]
  split_ifs at hamount with hnew
  · subst hnew
    have hempty : self.level (some request.reservationId) = ∅ := by
      apply Finset.eq_empty_of_forall_notMem
      intro child hchild
      exact hfresh (hrank child _ (mem_level.mp hchild).2).1
    have hself : request.parentReservationId ≠ some request.reservationId := by
      intro hself
      obtain ⟨parent,hget,-⟩ := hactive _ hself
      exact hfresh (mem_nodes.mpr (by simp [hget]))
    rw [hempty, if_neg hself]
    exact Nat.zero_le _
  · have hle := h measure level amount hamount
    split_ifs with hlevel
    · dsimp only at hlevel
      subst hlevel
      -- an amount that is known fits into what is left, and an unknown one counts for nothing
      cases hrequested : request.amount measure with
      | none => simpa [charge, hrequested] using hle
      | some requested =>
        have hrequest : requested ≤ amount -
            ∑ j ∈ self.level request.parentReservationId, self.chargeOf measure j := by
          apply hfits measure requested hrequested amount
          · intro hroot
            rwa [hroot] at hamount
          · intro parentId hparent parent hget
            rw [Option.mem_def.mp hparent] at hamount
            obtain ⟨found,hfound,-,hreserved⟩ := active_of_available hamount
            cases hget.symm.trans hfound
            exact hreserved
        simp only [charge, hrequested, Option.getD_some]
        omega
    · rwa [zero_add]

/-- What is settled without a cost, if it is affordable, stays within the level above. -/
theorem Levelled.settle (h : self.Levelled) {actual : BudgetActual}
    (hsettleable : self.settleable id actual = .ok record)
    (haffordable : (LedgerCall.settle id actual).Affordable self) :
    (self.put { record with state := .settled actual } id).Levelled := by
  obtain ⟨hclosable,hexceeds,-⟩ := settleable_eq_ok hsettleable
  obtain ⟨hget,hstate,-⟩ := closable_eq_ok.mp hclosable
  apply h.close hget
  · rfl
  · nofun
  intro measure
  simp only [charge, hstate]
  cases hreserved : record.request.amount measure with
  | some reserved => exact .inl (used_le_of_not_exceeds hexceeds hreserved)
  | none =>
    right
    intro amount hamount
    have hle := h measure _ amount hamount
    obtain ⟨rfl,hcost⟩ := amount_eq_none hreserved
    obtain ⟨remaining,hremaining,hleft⟩ := remainingFor_of_available hamount
    obtain ⟨left,hleft,hvalue⟩ := Option.map_eq_some_iff.mp hleft
    have hused : (actualCostForRequest actual record.request : ℕ) ≤ left :=
      haffordable record hsettleable hcost remaining hremaining left hleft
    simp only [BudgetActual.used]
    omega

theorem Levelled.step (h : self.Levelled) (hranked : self.Ranked) {call : LedgerCall}
    (haffordable : call.Affordable self) : (self.step call).Levelled := by
  have heffect := effect_step self call
  generalize self.step call = next at heffect ⊢
  cases heffect with
  | reserve hreservable => exact h.reserve hranked hreservable
  | settle hsettleable => exact h.settle hsettleable haffordable
  | @release id record hclosable =>
    obtain ⟨hget,-⟩ := closable_eq_ok.mp hclosable
    apply h.close hget
    · rfl
    · nofun
    · exact fun measure => .inl (Nat.zero_le _)
  | failed => exact h

theorem ranked_step (h : self.Ranked) (call : LedgerCall) : (self.step call).Ranked := by
  have heffect := effect_step self call
  generalize self.step call = next at heffect ⊢
  cases heffect with
  | reserve hreservable => exact ranked_reserve h hreservable
  | settle hsettleable =>
    apply ranked_close h (closable_eq_ok.mp (settleable_eq_ok hsettleable).1).1
    rfl
  | release hclosable =>
    apply ranked_close h (closable_eq_ok.mp hclosable).1
    rfl
  | failed => exact h

end Steps

section Closing
variable {id : String} {record : BudgetReservationRecord}

/-- All that was reserved, and of a cost that was not reserved what the children have used. -/
def fullUse (request : BudgetReservationRequest) (children : BudgetActual) : BudgetActual where
  freshInputTokens := request.budget.inputTokens
  outputTokens := request.budget.outputTokens
  costMicrounits := request.budget.costMicrounits <|> children.costMicrounits
  attempts := request.attempts

theorem fullUse_not_exceeds (request : BudgetReservationRequest) (children : BudgetActual) :
    actualExceedsRequest (fullUse request children) request = false := by
  cases hcost : request.budget.costMicrounits <;> cases hused : children.costMicrounits <;>
    simp [actualExceedsRequest, fullUse, costExceeded, hcost, hused]

theorem used_fullUse (request : BudgetReservationRequest) (children : BudgetActual) :
    (fullUse request children).used request measure =
      (request.amount measure).getD (children.amount measure) := by
  cases measure with
  | costMicrounits =>
    cases hcost : request.budget.costMicrounits <;> cases hused : children.costMicrounits <;>
      simp [BudgetActual.used, actualCostForRequest, fullUse, BudgetReservationRequest.amount,
        BudgetActual.amount, hcost, hused]
  | freshInputTokens | outputTokens | attempts => rfl

theorem hasActiveChildren_eq_false (h : ∀ child ∈ self.level (some id), ¬ self.IsActive child) :
    self.hasActiveChildren id = false := by
  apply List.any_eq_false.mpr
  intro record hrecord
  obtain ⟨hmem,hparent⟩ := List.mem_filter.mp hrecord
  obtain ⟨child,hget⟩ := self.reservations.mem_values.mp hmem
  have hlevel : child ∈ self.level (some id) := by
    apply mem_level.mpr
    refine ⟨mem_nodes.mpr (by simp [hget]),?_⟩
    rw [parent_eq_of_get hget]
    exact of_decide_eq_true hparent
  intro hstate
  exact h child hlevel ⟨record,hget,of_decide_eq_true hstate⟩

theorem settle_of_fits {actual : BudgetActual} (hclosable : self.closable id = .ok record)
    (hexceeds : actualExceedsRequest actual record.request = false)
    (hchildren : ∀ measure, (self.settledDirectChildUsage id).amount measure ≤
      actual.used record.request measure) :
    settle id actual self = .ok () (self.put { record with state := .settled actual } id) := by
  have hinput : ¬ actual.freshInputTokens < (self.settledDirectChildUsage id).freshInputTokens :=
    not_lt.mpr (hchildren .freshInputTokens)
  have houtput : ¬ actual.outputTokens < (self.settledDirectChildUsage id).outputTokens :=
    not_lt.mpr (hchildren .outputTokens)
  have hattempts : ¬ actual.attempts < (self.settledDirectChildUsage id).attempts :=
    not_lt.mpr (hchildren .attempts)
  have hcost : ¬ actualCostForRequest actual record.request <
      (self.settledDirectChildUsage id).costMicrounits.getD 0 :=
    not_lt.mpr (hchildren .costMicrounits)
  have hsettleable : self.settleable id actual = .ok record := by
    simp [settleable, hclosable, hexceeds, hinput, houtput, hattempts, hcost]
  rw [settle, checked_eq, hsettleable]

/-- A reservation with nothing active in it can be settled with all that was reserved. -/
theorem Levelled.closable (h : self.Levelled) (hget : self.reservations.get? id = some record)
    (hstate : record.state = .reserved)
    (hchildren : ∀ child ∈ self.level (some id), ¬ self.IsActive child) :
    ∃ actual next, actualExceedsRequest actual record.request = false ∧
      Execution.settle id actual self = .ok () next := by
  have hactive := hasActiveChildren_eq_false hchildren
  refine ⟨fullUse record.request (self.settledDirectChildUsage id),_,fullUse_not_exceeds _ _,
    settle_of_fits (closable_eq_ok.mpr ⟨hget,hstate,hactive⟩) (fullUse_not_exceeds _ _) ?_⟩
  intro measure
  rw [used_fullUse]
  cases hreserved : record.request.amount measure with
  | none => exact le_rfl
  | some reserved =>
    have hle := h measure (some id) reserved
      ((available_of_active hget hstate).trans hreserved)
    rw [settledDirectChildUsage_amount, ← sum_charge_eq_settledUse hactive]
    exact (min_le_left _ _).trans hle

end Closing

/-- Where no level takes more than there is, nothing is clipped. -/
theorem Levelled.exact (h : self.Levelled) (hranked : self.Ranked) : Exact self := by
  obtain ⟨rank,hrank⟩ := hranked
  constructor
  · exact fun id above hparent => (hrank id above hparent).1
  · exact fun id hpath => absurd (rank_lt_of_transGen hrank hpath) (lt_irrefl _)
  · intro measure limit hlimit
    have hle := h measure none limit hlimit
    refine ⟨_,by rw [self.remaining_amount, Option.mem_def.mp hlimit]; rfl,?_⟩
    exact Nat.sub_add_cancel hle
  · intro id record hget hstate
    obtain ⟨remaining,hremaining,-⟩ := self.remainingWithin_amount hget .attempts
    refine ⟨remaining,hremaining,fun measure reserved hreserved => ?_⟩
    obtain ⟨found,hfound,hamount⟩ := self.remainingWithin_amount hget measure
    cases hremaining.symm.trans hfound
    have hle := h measure (some id) reserved ((available_of_active hget hstate).trans hreserved)
    refine ⟨_,by rw [hamount, Option.mem_def.mp hreserved]; rfl,?_⟩
    exact Nat.sub_add_cancel hle
  · exact fun id record hget hstate hchildren => h.closable hget hstate hchildren

/-- Where nothing is clipped, no level takes more than there is. -/
theorem levelled_of_exact (h : Exact self) : self.Levelled := by
  intro measure level amount hamount
  cases level with
  | none =>
    obtain ⟨left,-,hsum⟩ := h.root measure amount hamount
    exact hsum ▸ Nat.le_add_left _ _
  | some id =>
    obtain ⟨record,hget,hstate,hreserved⟩ := active_of_available hamount
    obtain ⟨remaining,-,hexact⟩ := h.within id record hget hstate
    obtain ⟨left,-,hsum⟩ := hexact measure amount hreserved
    exact hsum ▸ Nat.le_add_left _ _

variable (measure) in
theorem available_of_remainingFor {request : BudgetReservationRequest}
    {remaining : RemainingBudget} {left : ℕ} (h : self.remainingFor request = .ok remaining)
    (hleft : left ∈ remaining.amount measure) :
    ∃ amount ∈ self.available measure request.parentReservationId, left =
      amount - ∑ id ∈ self.level request.parentReservationId, self.chargeOf measure id := by
  unfold remainingFor at h
  cases hparent : request.parentReservationId with
  | none =>
    rw [hparent] at h
    cases h
    rw [self.remaining_amount] at hleft
    obtain ⟨limit,hlimit,rfl⟩ := Option.map_eq_some_iff.mp hleft
    exact ⟨limit,hlimit,rfl⟩
  | some parentId =>
    rw [hparent] at h
    cases hget : self.reservations.get? parentId with
    | none => simp [hget] at h
    | some parent =>
      simp only [hget] at h
      split_ifs at h with hstate
      obtain ⟨found,hfound,hamount⟩ := self.remainingWithin_amount hget measure
      cases h.symm.trans hfound
      rw [hamount] at hleft
      obtain ⟨amount,hreserved,rfl⟩ := Option.map_eq_some_iff.mp hleft
      exact ⟨amount,(available_of_active hget (not_not.mp hstate)).trans hreserved,rfl⟩

/-- A settlement that is not affordable takes more from the level above than there is. -/
theorem affordable_of_levelled (hranked : self.Ranked) {call : LedgerCall}
    (h : (self.step call).Levelled) : call.Affordable self := by
  cases call with
  | reserve request => trivial
  | release id => trivial
  | settle id actual =>
    intro record hsettleable hcost remaining hremaining left hleft
    obtain ⟨hclosable,-⟩ := settleable_eq_ok hsettleable
    obtain ⟨hget,hstate,-⟩ := closable_eq_ok.mp hclosable
    obtain ⟨rank,hrank⟩ := hranked
    set new : BudgetReservationRecord := { record with state := .settled actual } with hnew
    have hstep : self.step (.settle id actual) = self.put new id := by
      apply after_ok
      change settle id actual self = .ok () _
      rw [settle, checked_eq, hsettleable]
    obtain ⟨amount,hamount,hvalue⟩ := available_of_remainingFor .costMicrounits
      hremaining (Option.map_eq_some_iff.mpr ⟨left,hleft,rfl⟩)
    have hself : record.request.parentReservationId ≠ some id := by
      intro hparent
      rw [← parent_eq_of_get hget] at hparent
      exact lt_irrefl _ (hrank id id hparent).2
    rw [hstep] at h
    have hle := h .costMicrounits record.request.parentReservationId amount
      (by rwa [available_put, if_neg hself])
    have hsum := sum_level_put_of_get .costMicrounits hget
      (rfl : new.request = record.request) record.request.parentReservationId
    have hbefore : record.charge .costMicrounits = 0 := by
      simp [charge, hstate, BudgetReservationRequest.amount, hcost]
    have hafter : new.charge .costMicrounits = actualCostForRequest actual record.request := rfl
    rw [if_pos rfl, if_pos rfl] at hsum
    rw [Fin.le_def]
    omega

end RootBudgetLedger

/-- A ledger is exact in every state of a run if and only if nothing that was reserved without
a cost is settled with more than is left above it. -/
theorem budget_exact_iff (rootExecutionId : String) (limits : RootBudgetLimits)
    (calls : List LedgerCall) :
    (∀ before, before <+: calls → Exact ((new rootExecutionId limits).run before)) ↔
      Along step (fun self call => call.Affordable self)
        (.new rootExecutionId limits) calls := by
  have hranked : ∀ before,
      ((new rootExecutionId limits).run before).Ranked := by
    intro before
    have hnew : (new rootExecutionId limits).Ranked := ⟨fun _ => 0,nofun⟩
    exact runAll_invariant (I := RootBudgetLedger.Ranked)
      (fun _ call h => ranked_step h call) before hnew
  constructor
  · intro h
    apply along_iff.mpr
    intro before call hcalls
    apply affordable_of_levelled (hranked before)
    have hexact := h _ hcalls
    rw [run, runAll_append] at hexact
    exact levelled_of_exact hexact
  · rintro h before ⟨later,rfl⟩
    apply RootBudgetLedger.Levelled.exact _ (hranked before)
    have hinvariant := (along_append.mp h).1.invariant
      (I := fun self => self.Ranked ∧ self.Levelled) (fun _ call hs hcall =>
        ⟨ranked_step hs.1 call,hs.2.step hs.1 hcall⟩)
      ⟨hranked [],levelled_new rootExecutionId limits⟩
    exact hinvariant.2

/-- A reservation of a cost, or of none. -/
def costRequest (reservationId : String) (parentReservationId : Option String)
    (costMicrounits : Option U64) : BudgetReservationRequest where
  reservationId := reservationId
  parentReservationId := parentReservationId
  policyRevision := "policy-1"
  purpose := .rootStep
  budget := ⟨0,0,costMicrounits⟩
  attempts := 0

/-- A child that has reserved no cost is settled with more than its parent has. -/
def stranded : List LedgerCall :=
  [.reserve (costRequest "parent" none (some 100)),
    .reserve (costRequest "child" (some "parent") none),.settle "child" ⟨0,0,some 1000,0⟩]

theorem parent_stranded :
    ¬ Exact ((new "root" ⟨0,0,some 100,0⟩).run stranded) ∧
      ∀ actual next, settle "parent" actual
        ((new "root" ⟨0,0,some 100,0⟩).run stranded) ≠ .ok () next := by
  set ledger := (new "root" ⟨0,0,some 100,0⟩).run stranded with hledger
  have havailable : ledger.available .costMicrounits (some "parent") = some 100 := by decide +kernel
  have hcharge : ∑ id ∈ ledger.level (some "parent"), ledger.chargeOf .costMicrounits id = 1000 := by
    decide +kernel
  have hused : (ledger.settledDirectChildUsage "parent").amount .costMicrounits = 1000 := by
    decide +kernel
  constructor
  · intro h
    have hle := levelled_of_exact h .costMicrounits (some "parent") 100 havailable
    omega
  · intro actual next hsettle
    obtain ⟨record,hsettleable⟩ : ∃ record, ledger.settleable "parent" actual = .ok record := by
      rw [settle, checked_eq] at hsettle
      cases hcheck : ledger.settleable "parent" actual with
      | ok record => exact ⟨record,rfl⟩
      | error error => simp [hcheck] at hsettle
    obtain ⟨hclosable,hexceeds,hchildren⟩ := settleable_eq_ok hsettleable
    obtain ⟨found,hfound,-,hreserved⟩ := active_of_available havailable
    cases (closable_eq_ok.mp hclosable).1.symm.trans hfound
    have hle := used_le_of_not_exceeds hexceeds hreserved
    have hge := hchildren .costMicrounits
    omega

end PhenixConductor.Execution
