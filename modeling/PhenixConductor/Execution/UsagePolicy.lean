import PhenixConductor.Execution.Delegation
import PhenixConductor.Execution.Ledger

/-! # The plan of a step

A policy of usage plans one step: what it may spend is bounded by the policy and by what the
root execution has left.
-/
namespace PhenixConductor.Execution
open Collections

structure ContextDemand where
  mandatoryInputTokens : U64
  reducibleInputTokens : U64
  outputReserveTokens : U64
  requiredCapabilities : BTreeSet String
deriving DecidableEq

def ContextDemand.totalInputTokens (self : ContextDemand) : U64 :=
  saturatingAdd self.mandatoryInputTokens self.reducibleInputTokens

structure RoutingRequirements where
  context : ContextDemand
  requiredCapabilities : BTreeSet String
  requireKnownCapacity : Bool
deriving DecidableEq

structure UsagePolicy where
  revision : String
  maxFreshInputTokens : U64
  maxOutputTokens : U64
  maxCostMicrounits : Option U64
  maxRetries : U32
  maxToolResultBytes : U64
  maxToolSchemas : U32
  maxSkills : U32
  requireKnownCapacity : Bool
  delegation : DelegationResourcePolicy
deriving DecidableEq

structure TaskRequirements where
  requestInputTokens : U64
  context : ContextDemand
  requiredCapabilities : BTreeSet String
  requiredTools : BTreeSet String
  optionalTools : BTreeSet String
  requiredSkills : BTreeSet String
  optionalSkills : BTreeSet String
  requestedReasoning : Option String
  deadlineAtMs : Option U64
deriving DecidableEq

structure UsagePlanningInput where
  task : TaskRequirements
  executionState : ExecutionState
  remaining : RemainingBudget
  nowMs : U64

inductive ReasoningBudget
  | backendDefault
  | requested (level : String)
deriving DecidableEq

structure ToolProvisionBudget where
  initial : BTreeSet String
  expandable : BTreeSet String
  maxSchemas : U32
  maxResultBytes : U64
deriving DecidableEq

structure SkillProvisionBudget where
  initial : BTreeSet String
  expandable : BTreeSet String
  maxLoaded : U32
deriving DecidableEq

structure RetryBudget where
  maxAttempts : U32
  reservedAttempts : U32
deriving DecidableEq

structure StepPlan where
  policyRevision : String
  routing : RoutingRequirements
  context : ContextDemand
  reasoning : ReasoningBudget
  tools : ToolProvisionBudget
  skills : SkillProvisionBudget
  delegation : DelegationResourcePolicy
  retry : RetryBudget
  reservation : BudgetReservation
  deadlineAtMs : Option U64
  reducibleInputDroppedTokens : U64
deriving DecidableEq

inductive UsagePlanError
  | executionNotActive
  | deadlineExceeded (deadlineAtMs nowMs : U64)
  | noAttemptsRemaining
  | mandatoryInputExceedsBudget (requested allowed : U64)
  | outputReserveExceedsBudget (requested allowed : U64)
  | requiredToolSetExceedsBudget (requested allowed : U32)
  | requiredSkillSetExceedsBudget (requested allowed : U32)
deriving DecidableEq

/-- A size as a number of 32 bits, or the largest one. -/
def countU32 (n : ℕ) : U32 := ⟨min n (2 ^ 32 - 1),by omega⟩

/-- The cost that both a policy and a budget allow; each may leave it open. -/
def costBudget : Option U64 → Option U64 → Option U64
  | some policy,some remaining => some (min policy remaining)
  | some policy,none => some policy
  | none,remaining => remaining

namespace UsagePolicy
variable (self : UsagePolicy)

def maxAttempts : U32 := saturatingAdd self.maxRetries 1

/-- The checks of a plan, in order. -/
def plannable (input : UsagePlanningInput) (freshInputBudget outputBudget
    mandatoryInputTokens : U64) : Except UsagePlanError Unit := do
  ensure (input.executionState = .active) .executionNotActive
  input.task.deadlineAtMs.toList.forM fun deadlineAtMs =>
    ensure (input.nowMs < deadlineAtMs) (.deadlineExceeded deadlineAtMs input.nowMs)
  ensure (input.remaining.attempts ≠ 0) .noAttemptsRemaining
  ensure (mandatoryInputTokens ≤ freshInputBudget)
    (.mandatoryInputExceedsBudget mandatoryInputTokens freshInputBudget)
  ensure (input.task.context.outputReserveTokens ≤ outputBudget)
    (.outputReserveExceedsBudget input.task.context.outputReserveTokens outputBudget)
  let requiredTools := countU32 input.task.requiredTools.keys.length
  ensure (requiredTools ≤ self.maxToolSchemas)
    (.requiredToolSetExceedsBudget requiredTools self.maxToolSchemas)
  let requiredSkills := countU32 input.task.requiredSkills.keys.length
  ensure (requiredSkills ≤ self.maxSkills)
    (.requiredSkillSetExceedsBudget requiredSkills self.maxSkills)

/-- The plan that is made when the checks pass. -/
def planned (input : UsagePlanningInput) (freshInputBudget mandatoryInputTokens : U64) :
    StepPlan :=
  let reducibleBudget := saturatingSub freshInputBudget mandatoryInputTokens
  let plannedReducible := min input.task.context.reducibleInputTokens reducibleBudget
  let plannedContext := { input.task.context with reducibleInputTokens := plannedReducible }
  { policyRevision := self.revision
    routing :=
      { context := { plannedContext with mandatoryInputTokens }
        requiredCapabilities := input.task.requiredCapabilities
        requireKnownCapacity := self.requireKnownCapacity }
    context := plannedContext
    reasoning := (input.task.requestedReasoning.map .requested).getD .backendDefault
    tools :=
      { initial := input.task.requiredTools
        expandable := input.task.optionalTools
        maxSchemas := self.maxToolSchemas
        maxResultBytes := self.maxToolResultBytes }
    skills :=
      { initial := input.task.requiredSkills
        expandable := input.task.optionalSkills
        maxLoaded := self.maxSkills }
    delegation := self.delegation
    retry :=
      { maxAttempts := self.maxAttempts
        reservedAttempts := min self.maxAttempts input.remaining.attempts }
    reservation :=
      { inputTokens := saturatingAdd input.task.requestInputTokens plannedContext.totalInputTokens
        outputTokens := plannedContext.outputReserveTokens
        costMicrounits := costBudget self.maxCostMicrounits input.remaining.costMicrounits }
    deadlineAtMs := input.task.deadlineAtMs
    reducibleInputDroppedTokens :=
      saturatingSub input.task.context.reducibleInputTokens plannedReducible }

def plan (input : UsagePlanningInput) : Except UsagePlanError StepPlan := do
  let freshInputBudget := min self.maxFreshInputTokens input.remaining.freshInputTokens
  let outputBudget := min self.maxOutputTokens input.remaining.outputTokens
  let mandatoryInputTokens :=
    saturatingAdd input.task.requestInputTokens input.task.context.mandatoryInputTokens
  self.plannable input freshInputBudget outputBudget mandatoryInputTokens
  return self.planned input freshInputBudget mandatoryInputTokens

variable {self} {input : UsagePlanningInput} {plan : StepPlan}

theorem plan_eq_ok (h : self.plan input = .ok plan) :
    plan.policyRevision = self.revision ∧ plan.retry.maxAttempts = self.maxAttempts := by
  obtain ⟨⟨⟩,-,h⟩ := bind_eq_ok.mp h
  cases h
  exact ⟨rfl,rfl⟩

theorem one_le_maxAttempts : 1 ≤ self.maxAttempts.val := by
  rw [maxAttempts, val_saturatingAdd]
  have hone : ((1 : U32) : ℕ) = 1 := rfl
  omega

end UsagePolicy

/-- The plan fails on its input or its output. -/
def UsagePlanError.IsBudget : UsagePlanError → Prop
  | .mandatoryInputExceedsBudget _ _ | .outputReserveExceedsBudget _ _ => True
  | _ => False

namespace UsagePolicy

/-- The reservation stays within the smaller of what the policy and the budget allow. -/
structure Fits (policy : UsagePolicy) (input : UsagePlanningInput)
    (reservation : BudgetReservation) : Prop where
  freshInput : reservation.inputTokens ≤
    min policy.maxFreshInputTokens input.remaining.freshInputTokens
  outputs : reservation.outputTokens ≤ min policy.maxOutputTokens input.remaining.outputTokens
  cost : ∀ limit, limit ∈ policy.maxCostMicrounits ∨ limit ∈ input.remaining.costMicrounits →
    ∃ cost ∈ reservation.costMicrounits, cost ≤ limit

/-- Nothing that the task cannot do without is cut. -/
structure Keeps (input : UsagePlanningInput) (reservation : BudgetReservation) : Prop where
  freshInput : (input.task.requestInputTokens : ℕ) + input.task.context.mandatoryInputTokens ≤
    reservation.inputTokens
  outputs : input.task.context.outputReserveTokens ≤ reservation.outputTokens

structure Reservable (policy : UsagePolicy) (input : UsagePlanningInput) (plan : StepPlan) : Prop where
  fits : policy.Fits input plan.reservation
  attempts : 1 ≤ plan.retry.reservedAttempts ∧
    plan.retry.reservedAttempts ≤ input.remaining.attempts
  mandatory : plan.context.mandatoryInputTokens = input.task.context.mandatoryInputTokens
  routed : plan.routing.context.mandatoryInputTokens =
    saturatingAdd input.task.requestInputTokens input.task.context.mandatoryInputTokens
  outputReserve : plan.reservation.outputTokens = input.task.context.outputReserveTokens
  reducible : (plan.context.reducibleInputTokens : ℕ) + plan.reducibleInputDroppedTokens =
    input.task.context.reducibleInputTokens
  usedUp : plan.reducibleInputDroppedTokens ≠ 0 → plan.reservation.inputTokens =
    min policy.maxFreshInputTokens input.remaining.freshInputTokens
  demanded : plan.routing.context.totalInputTokens = plan.reservation.inputTokens
  reserved : ∀ ledger : RootBudgetLedger, ledger.remaining = input.remaining →
    ∀ request : BudgetReservationRequest, request.reservationId ∉ ledger.reservations.keys →
      request.parentReservationId = none → request.budget = plan.reservation →
      request.attempts = plan.retry.reservedAttempts →
      reserve request ledger = .ok () (ledger.put ⟨request,.reserved⟩ request.reservationId)

variable {self : UsagePolicy} {input : UsagePlanningInput} {plan : StepPlan}

theorem costBudget_le {policy remaining : Option U64} {limit : U64}
    (h : limit ∈ policy ∨ limit ∈ remaining) : ∃ cost ∈ costBudget policy remaining, cost ≤ limit := by
  cases policy with
  | none =>
    have hlimit : limit ∈ remaining := h.resolve_left (by simp)
    exact ⟨limit,hlimit,le_rfl⟩
  | some maximum =>
    cases remaining with
    | none =>
      have hlimit : limit ∈ some maximum := h.resolve_right (by simp)
      exact ⟨limit,hlimit,le_rfl⟩
    | some left =>
      refine ⟨min maximum left,rfl,?_⟩
      rcases h with h | h
      · exact Option.mem_some_iff.mp h ▸ min_le_left _ _
      · exact Option.mem_some_iff.mp h ▸ min_le_right _ _

variable {freshInputBudget mandatoryInputTokens : U64}

/-- The checks that the amounts of a plan rest on. -/
theorem plannable_eq_ok {outputBudget : U64}
    (h : self.plannable input freshInputBudget outputBudget mandatoryInputTokens = .ok ()) :
    input.remaining.attempts ≠ 0 ∧ mandatoryInputTokens ≤ freshInputBudget ∧
      input.task.context.outputReserveTokens ≤ outputBudget := by
  obtain ⟨-,h⟩ := seq_eq_ok.mp h
  obtain ⟨-,h⟩ := seq_eq_ok.mp h
  obtain ⟨hattempts,h⟩ := seq_eq_ok.mp h
  obtain ⟨hmandatory,h⟩ := seq_eq_ok.mp h
  obtain ⟨houtput,-⟩ := seq_eq_ok.mp h
  exact ⟨by simpa using ensure_eq_ok.mp hattempts,by simpa using ensure_eq_ok.mp hmandatory,
    by simpa using ensure_eq_ok.mp houtput⟩

/-- A refusal for want of input or output names what does not fit. -/
theorem plannable_eq_error {outputBudget : U64} {error : UsagePlanError}
    (h : self.plannable input freshInputBudget outputBudget mandatoryInputTokens = .error error)
    (hbudget : error.IsBudget) : freshInputBudget < mandatoryInputTokens ∨
      outputBudget < input.task.context.outputReserveTokens := by
  rcases bind_eq_error.mp h with hactive | ⟨-,-,h⟩
  · obtain ⟨-,rfl⟩ := ensure_eq_error.mp hactive
    exact hbudget.elim
  rcases bind_eq_error.mp h with hdeadline | ⟨-,-,h⟩
  · obtain ⟨deadline,-,hpassed⟩ := forM_eq_error hdeadline
    obtain ⟨-,rfl⟩ := ensure_eq_error.mp hpassed
    exact hbudget.elim
  rcases bind_eq_error.mp h with hattempts | ⟨-,-,h⟩
  · obtain ⟨-,rfl⟩ := ensure_eq_error.mp hattempts
    exact hbudget.elim
  rcases bind_eq_error.mp h with hmandatory | ⟨-,-,h⟩
  · exact .inl (not_le.mp (ensure_eq_error.mp hmandatory).1)
  rcases bind_eq_error.mp h with houtput | ⟨-,-,h⟩
  · exact .inr (not_le.mp (ensure_eq_error.mp houtput).1)
  rcases bind_eq_error.mp h with htools | ⟨-,-,hskills⟩
  · obtain ⟨-,rfl⟩ := ensure_eq_error.mp htools
    exact hbudget.elim
  · obtain ⟨-,rfl⟩ := ensure_eq_error.mp hskills
    exact hbudget.elim

/-- A request that fits what is left of a budget can be made in the budget itself. -/
theorem reserve_of_fits {ledger : RootBudgetLedger} {request : BudgetReservationRequest}
    (hfresh : request.reservationId ∉ ledger.reservations.keys)
    (hroot : request.parentReservationId = none)
    (hfits : validateFits request ledger.remaining = .ok ()) :
    reserve request ledger = .ok () (ledger.put ⟨request,.reserved⟩ request.reservationId) := by
  have hremaining : ledger.remainingFor request = .ok ledger.remaining := by
    rw [RootBudgetLedger.remainingFor, hroot]
  have hreservable : ledger.reservable request = .ok () := by
    rw [RootBudgetLedger.reservable, if_neg hfresh, hremaining, ok_bind, hfits]
  rw [reserve, checked_eq, hreservable]

theorem planned_input
    (hmandatory : saturatingAdd input.task.requestInputTokens
      input.task.context.mandatoryInputTokens ≤
        min self.maxFreshInputTokens input.remaining.freshInputTokens) :
    let mandatory :=
      saturatingAdd input.task.requestInputTokens input.task.context.mandatoryInputTokens
    let budget := min self.maxFreshInputTokens input.remaining.freshInputTokens
    let planned := self.planned input budget mandatory
    planned.reservation.inputTokens ≤ budget ∧
      (planned.context.reducibleInputTokens : ℕ) + planned.reducibleInputDroppedTokens =
        input.task.context.reducibleInputTokens ∧
      (planned.reducibleInputDroppedTokens ≠ 0 → planned.reservation.inputTokens = budget) ∧
      planned.routing.context.totalInputTokens = planned.reservation.inputTokens := by
  intro mandatory budget planned
  have hsum : (mandatory : ℕ) = min (input.task.requestInputTokens +
    input.task.context.mandatoryInputTokens : ℕ) (2 ^ 64 - 1) := rfl
  have hreducible : (planned.context.reducibleInputTokens : ℕ) =
      min (input.task.context.reducibleInputTokens : ℕ) (budget - mandatory) := rfl
  have hdropped : (planned.reducibleInputDroppedTokens : ℕ) =
      input.task.context.reducibleInputTokens - planned.context.reducibleInputTokens := rfl
  have hreserved : (planned.reservation.inputTokens : ℕ) =
      min (input.task.requestInputTokens + min (input.task.context.mandatoryInputTokens +
        planned.context.reducibleInputTokens : ℕ) (2 ^ 64 - 1)) (2 ^ 64 - 1) := rfl
  have hrouted : (planned.routing.context.totalInputTokens : ℕ) =
      min (mandatory + planned.context.reducibleInputTokens : ℕ) (2 ^ 64 - 1) := rfl
  refine ⟨?_,?_,?_,?_⟩
  · rw [Fin.le_def]
    omega
  · omega
  · intro hne
    have hne' : (planned.reducibleInputDroppedTokens : ℕ) ≠ 0 := fun h => hne (Fin.ext h)
    apply Fin.ext
    omega
  · apply Fin.ext
    omega

theorem reservable_of_plan (h : self.plan input = .ok plan) : self.Reservable input plan := by
  obtain ⟨_,hplannable,h⟩ := bind_eq_ok.mp h
  cases h
  obtain ⟨hattempts,hmandatory,houtput⟩ := plannable_eq_ok hplannable
  obtain ⟨hinput,hreducible,husedUp,hdemanded⟩ := planned_input hmandatory
  have hpositive : 1 ≤ min self.maxAttempts input.remaining.attempts :=
    le_min one_le_maxAttempts (Fin.one_le_of_ne_zero hattempts)
  have hfits : self.Fits input (self.planned input _ _).reservation :=
    ⟨hinput,houtput,fun _ hlimit => costBudget_le hlimit⟩
  constructor
  · exact hfits
  · exact ⟨hpositive,min_le_right _ _⟩
  · rfl
  · rfl
  · rfl
  · exact hreducible
  · exact husedUp
  · exact hdemanded
  · intro ledger hledger request hfresh hroot hbudget hrequested
    apply reserve_of_fits hfresh hroot
    rw [validateFits_eq_ok, hledger]
    intro measure requested hrequest left hleft
    cases measure with
    | freshInputTokens =>
      cases hrequest
      cases hleft
      rw [hbudget]
      exact (hfits.freshInput.trans (min_le_right _ _) : _ ≤ input.remaining.freshInputTokens)
    | outputTokens =>
      cases hrequest
      cases hleft
      rw [hbudget]
      exact (hfits.outputs.trans (min_le_right _ _) : _ ≤ input.remaining.outputTokens)
    | costMicrounits =>
      obtain ⟨cost,hcost,rfl⟩ := Option.map_eq_some_iff.mp hrequest
      obtain ⟨limit,hlimit,rfl⟩ := Option.map_eq_some_iff.mp hleft
      obtain ⟨cost',hcost',hle⟩ := hfits.cost limit (.inr hlimit)
      rw [hbudget] at hcost
      cases hcost.symm.trans hcost'
      exact hle
    | attempts =>
      cases hrequest
      cases hleft
      rw [hrequested]
      exact (min_le_right _ _ : min self.maxAttempts _ ≤ input.remaining.attempts)

theorem not_fits_of_plan_error {error : UsagePlanError} (h : self.plan input = .error error)
    (hbudget : error.IsBudget) {reservation : BudgetReservation}
    (hkeeps : Keeps input reservation) : ¬ self.Fits input reservation := by
  intro hfits
  have hplannable : self.plannable input _ _ _ = .error error :=
    (bind_eq_error.mp h).resolve_right fun ⟨_,_,hok⟩ => nomatch hok
  rcases plannable_eq_error hplannable hbudget with hinput | houtput
  · have hmandatory : (saturatingAdd input.task.requestInputTokens
        input.task.context.mandatoryInputTokens : ℕ) ≤
          input.task.requestInputTokens + input.task.context.mandatoryInputTokens := min_le_left _ _
    have hle : reservation.inputTokens.val <
        (saturatingAdd input.task.requestInputTokens input.task.context.mandatoryInputTokens).val :=
      lt_of_le_of_lt hfits.freshInput hinput
    have hkept := hkeeps.freshInput
    omega
  · exact absurd (hkeeps.outputs.trans hfits.outputs) (not_le.mpr houtput)

end UsagePolicy

/-- A plan can be reserved as it stands, and one is refused for want of input or output only if
nothing that keeps what is mandatory fits. -/
theorem plan_reservable (policy : UsagePolicy) (input : UsagePlanningInput) :
    (∀ plan, policy.plan input = .ok plan → policy.Reservable input plan) ∧
      ∀ error, policy.plan input = .error error → error.IsBudget →
        ∀ reservation, UsagePolicy.Keeps input reservation → ¬ policy.Fits input reservation :=
  ⟨fun _ h => UsagePolicy.reservable_of_plan h,
    fun _ h hbudget _ hkeeps => UsagePolicy.not_fits_of_plan_error h hbudget hkeeps⟩

end PhenixConductor.Execution
