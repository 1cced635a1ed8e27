import PhenixConductor.Execution.Budget
import PhenixConductor.Collections.Frontier

/-! # The measures of a budget

The code treats four measures side by side.
-/
namespace PhenixConductor.Execution
open Collections BudgetReservationRequest BudgetReservationRecord

inductive Measure
  | freshInputTokens
  | outputTokens
  | costMicrounits
  | attempts
deriving DecidableEq

/-- The largest value of the measure. -/
def Measure.bound : Measure → ℕ
  | .freshInputTokens | .outputTokens | .costMicrounits => 2 ^ 64 - 1
  | .attempts => 2 ^ 32 - 1

def RootBudgetLimits.amount (self : RootBudgetLimits) : Measure → Option ℕ
  | .freshInputTokens => some self.freshInputTokens
  | .outputTokens => some self.outputTokens
  | .costMicrounits => self.costMicrounits.map Fin.val
  | .attempts => some self.attempts

def RemainingBudget.amount (self : RemainingBudget) : Measure → Option ℕ
  | .freshInputTokens => some self.freshInputTokens
  | .outputTokens => some self.outputTokens
  | .costMicrounits => self.costMicrounits.map Fin.val
  | .attempts => some self.attempts

def BudgetReservationRequest.amount (self : BudgetReservationRequest) : Measure → Option ℕ
  | .freshInputTokens => some self.budget.inputTokens
  | .outputTokens => some self.budget.outputTokens
  | .costMicrounits => self.budget.costMicrounits.map Fin.val
  | .attempts => some self.attempts

def BudgetActual.amount (self : BudgetActual) : Measure → ℕ
  | .freshInputTokens => self.freshInputTokens
  | .outputTokens => self.outputTokens
  | .costMicrounits => self.costMicrounits.getD 0
  | .attempts => self.attempts

/-- What a settlement counts for: an unknown cost is the reserved one. -/
def BudgetActual.used (self : BudgetActual) (request : BudgetReservationRequest) : Measure → ℕ
  | .freshInputTokens => self.freshInputTokens
  | .outputTokens => self.outputTokens
  | .costMicrounits => actualCostForRequest self request
  | .attempts => self.attempts

namespace BudgetReservationRecord
variable (self : BudgetReservationRecord) (measure : Measure)

/-- What the record takes from the reservation it is made in. -/
def charge : ℕ :=
  match self.state with
  | .reserved => (self.request.amount measure).getD 0
  | .settled actual => actual.used self.request measure
  | .released => 0

def settledUse : ℕ :=
  match self.state with
  | .settled actual => actual.used self.request measure
  | .reserved => 0
  | .released => 0

end BudgetReservationRecord

variable {measure : Measure}

variable {request : BudgetReservationRequest}

theorem BudgetReservationRequest.amount_le {n : ℕ} (h : request.amount measure = some n) :
    n ≤ measure.bound := by
  cases measure <;> simp only [amount, Option.some.injEq, Option.map_eq_some_iff] at h <;>
    simp only [Measure.bound]
  case costMicrounits =>
    omega
  all_goals omega

open BudgetActual (used)
theorem subtractRecord_amount (remaining : RemainingBudget) (record : BudgetReservationRecord) :
    (subtractRecord remaining record).amount measure =
      (remaining.amount measure).map (· - record.charge measure) := by
  obtain ⟨request,state⟩ := record
  cases state with
  | reserved =>
    cases measure <;> try rfl
    cases hleft : remaining.costMicrounits <;> cases hcost : request.budget.costMicrounits <;>
      simp [subtractRecord, subtractReserved, RemainingBudget.amount, hleft, hcost,
        charge, amount]
  | settled actual =>
    cases measure <;> try rfl
    cases hleft : remaining.costMicrounits <;>
      simp [subtractRecord, RemainingBudget.amount, hleft, charge,
        used]
  | released =>
    cases hleft : remaining.amount measure <;>
      simp [subtractRecord, charge, hleft]

theorem validateCost_eq_ok {requested remaining : Option U64} :
    validateCost requested remaining = .ok () ↔
      ∀ r ∈ requested.map Fin.val, ∀ l ∈ remaining.map Fin.val, r ≤ l := by
  cases requested <;> cases remaining <;> simp [validateCost]

/-- A reservation fits if every amount that both sides know does. -/
theorem validateFits_eq_ok {remaining : RemainingBudget} : validateFits request remaining = .ok () ↔
      ∀ measure, ∀ requested ∈ request.amount measure, ∀ left ∈ remaining.amount measure,
        requested ≤ left := by
  constructor
  · intro h
    unfold validateFits at h
    split_ifs at h with hinput houtput hattempts
    intro measure
    cases measure with
    | freshInputTokens =>
      simpa [amount, RemainingBudget.amount] using hinput
    | outputTokens =>
      simpa [amount, RemainingBudget.amount] using houtput
    | costMicrounits => exact validateCost_eq_ok.mp h
    | attempts =>
      simpa [amount, RemainingBudget.amount] using hattempts
  · intro h
    have hinput : request.budget.inputTokens ≤ remaining.freshInputTokens :=
      h .freshInputTokens _ rfl _ rfl
    have houtput : request.budget.outputTokens ≤ remaining.outputTokens :=
      h .outputTokens _ rfl _ rfl
    have hattempts : request.attempts ≤ remaining.attempts := h .attempts _ rfl _ rfl
    unfold validateFits
    rw [if_neg (not_lt.mpr hinput), if_neg (not_lt.mpr houtput), if_neg (not_lt.mpr hattempts)]
    exact validateCost_eq_ok.mpr (h .costMicrounits)

/-- An actual that is accepted stays within every amount that was reserved. -/
theorem used_le_of_not_exceeds {actual : BudgetActual}
    (h : actualExceedsRequest actual request = false) {reserved : ℕ}
    (hreserved : request.amount measure = some reserved) :
    actual.used request measure ≤ reserved := by
  simp only [actualExceedsRequest, Bool.or_eq_false_iff, decide_eq_false_iff_not, not_lt,
    gt_iff_lt] at h
  obtain ⟨⟨⟨hinput,houtput⟩,hattempts⟩,hcost⟩ := h
  cases measure <;> simp only [amount, Option.some.injEq,
    Option.map_eq_some_iff] at hreserved
  case freshInputTokens => exact hreserved ▸ hinput
  case outputTokens => exact hreserved ▸ houtput
  case attempts => exact hreserved ▸ hattempts
  case costMicrounits =>
    obtain ⟨cost,hrequest,rfl⟩ := hreserved
    cases hactual : actual.costMicrounits with
    | none => simp [used, actualCostForRequest, hactual, hrequest]
    | some known =>
      simp only [costExceeded, hactual, hrequest, decide_eq_false_iff_not, gt_iff_lt,
        not_lt] at hcost
      simpa [used, actualCostForRequest, hactual] using hcost

theorem foldl_subtractRecord_amount (records : List BudgetReservationRecord)
    (remaining : RemainingBudget) :
    (records.foldl subtractRecord remaining).amount measure =
      (remaining.amount measure).map (· - (records.map (·.charge measure)).sum) :=
  @foldl_sub _ _ subtractRecord (·.charge measure) (·.amount measure)
    (fun remaining record => subtractRecord_amount remaining record) records remaining

theorem BudgetActual.amount_le (actual : BudgetActual) :
    actual.amount measure ≤ measure.bound := by
  cases measure <;> simp only [amount, Measure.bound] <;> omega

theorem addSettled_amount {total : BudgetActual} (htotal : total.costMicrounits.isSome)
    (record : BudgetReservationRecord) :
    (addSettled total record).costMicrounits.isSome ∧
      (addSettled total record).amount measure =
        min (total.amount measure + record.settledUse measure) measure.bound := by
  obtain ⟨cost,hcost⟩ := Option.isSome_iff_exists.mp htotal
  obtain ⟨request,state⟩ := record
  cases state with
  | settled actual =>
    constructor
    · simp [addSettled, hcost]
    · cases measure <;> try rfl
      simp only [addSettled, BudgetActual.amount, hcost, Option.map_some, Option.getD_some,
        settledUse, used]
      rfl
  | reserved => exact ⟨htotal,(min_eq_left total.amount_le).symm⟩
  | released => exact ⟨htotal,(min_eq_left total.amount_le).symm⟩

theorem foldl_addSettled_amount (records : List BudgetReservationRecord) {total : BudgetActual}
    (htotal : total.costMicrounits.isSome) :
    (records.foldl addSettled total).amount measure =
      min (total.amount measure + (records.map (·.settledUse measure)).sum) measure.bound :=
  @foldl_min _ _ addSettled (·.settledUse measure) (·.amount measure) measure.bound
    (·.costMicrounits.isSome) (fun total _ => total.amount_le)
    (fun _ record h => addSettled_amount h record) records total htotal

namespace RootBudgetLedger
variable (self : RootBudgetLedger)

def nodes : Finset String := self.reservations.keys.toFinset

def parent (reservationId : String) : Option String :=
  (self.reservations.get? reservationId).bind (·.request.parentReservationId)

/-- The reservations made directly in one, or in the budget itself. -/
def level (reservationId : Option String) : Finset String :=
  self.nodes.filter (self.parent · = reservationId)

def valueAt (f : BudgetReservationRecord → ℕ) (reservationId : String) : ℕ :=
  ((self.reservations.get? reservationId).map f).getD 0

/-- What the reservation takes from the one it is made in. -/
def chargeOf (measure : Measure) (reservationId : String) : ℕ :=
  self.valueAt (·.charge measure) reservationId

variable {self}

variable {reservationId : String}

theorem mem_nodes : reservationId ∈ self.nodes ↔ (self.reservations.get? reservationId).isSome := by
  rw [nodes, List.mem_toFinset, BTreeMap.mem_keys_iff]

variable {record : BudgetReservationRecord}

theorem parent_eq_of_get (h : self.reservations.get? reservationId = some record) :
    self.parent reservationId = record.request.parentReservationId := by
  rw [parent, h, Option.bind_some]

theorem valueAt_of_get {f : BudgetReservationRecord → ℕ}
    (h : self.reservations.get? reservationId = some record) :
    self.valueAt f reservationId = f record := by
  rw [valueAt, h, Option.map_some, Option.getD_some]

variable (self)

theorem sum_childrenOf (f : BudgetReservationRecord → ℕ) (reservationId : Option String) :
    ((self.childrenOf reservationId).map f).sum = ∑ id ∈ self.level reservationId, self.valueAt f id := by
  rw [childrenOf, sum_values]
  apply Finset.sum_congr
  · apply Finset.filter_congr
    intro id hid
    obtain ⟨record,hrecord⟩ := Option.isSome_iff_exists.mp (mem_nodes.mp hid)
    simp [hrecord, parent_eq_of_get hrecord]
  · intro id _
    rfl

theorem remaining_amount (measure : Measure) :
    self.remaining.amount measure =
      (self.limits.amount measure).map (· - ∑ id ∈ self.level none, self.chargeOf measure id) := by
  rw [remaining, foldl_subtractRecord_amount, sum_childrenOf]
  cases measure <;> rfl

theorem remainingWithin_amount (hrecord : self.reservations.get? reservationId = some record)
    (measure : Measure) : ∃ remaining, self.remainingWithin reservationId = .ok remaining ∧
      remaining.amount measure = (record.request.amount measure).map
        (· - ∑ id ∈ self.level (some reservationId), self.chargeOf measure id) := by
  unfold remainingWithin
  rw [hrecord]
  refine ⟨_,rfl,?_⟩
  rw [foldl_subtractRecord_amount, sum_childrenOf]
  cases measure <;> rfl

theorem settledDirectChildUsage_amount (reservationId : String) (measure : Measure) :
    (self.settledDirectChildUsage reservationId).amount measure =
      min (∑ id ∈ self.level (some reservationId), self.valueAt (·.settledUse measure) id)
        measure.bound := by
  rw [settledDirectChildUsage, foldl_addSettled_amount _ rfl, sum_childrenOf]
  cases measure <;> simp [BudgetActual.amount]

end RootBudgetLedger

end PhenixConductor.Execution
