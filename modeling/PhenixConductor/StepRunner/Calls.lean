import PhenixConductor.StepRunner.Runner

/-! # What the calls of a run can come to

A call that fails leaves the services as they were.
-/
namespace PhenixConductor.StepRunner
open Collections Execution
variable {Route Output : Type} {world : World Route Output} {state : RunnerState Route}

theorem callAttempts_outcome (command : StepAttemptCommand Route) :
    Outcome (callAttempts world command) state
      (fun response after => ∃ next,
        state.services.attempts.answer command = .ok (response,next) ∧
          (command.readsOnly = false → next.attempts.keys.length ≤ maxAttemptStateBytes) ∧
          after = state.setAttempts next)
      fun _ after => after = state := by
  apply outcome_within
  unfold Collections.Outcome
  rw [invokeAttempts_eq]
  cases hanswer : attemptAnswer (world.attempts command) command state.services.attempts with
  | ok changed =>
    obtain ⟨response,next⟩ := changed
    obtain ⟨hcommand,hencode⟩ := attemptAnswer_eq_ok hanswer
    exact ⟨next,hcommand,fun hmutates => length_le_of_encodeLedger (hencode hmutates),rfl⟩
  | error failure => rfl

theorem callResources_outcome (command : ExecutionResourceCommand) :
    Outcome (callResources world command) state
      (fun response after => ∃ next,
        onCopy command.perform state.services.resources = .ok (response,next) ∧
          after = state.setResources next)
      fun _ after => after = state := by
  apply outcome_within
  refine outcome_get_bind (outcome_check_bind (fun _ _ => ?_) fun _ _ => rfl)
  refine outcome_check_bind (fun changed hperform => ?_) fun _ _ => rfl
  exact outcome_check_bind (fun _ _ => ⟨changed.2,hperform,rfl⟩) fun _ _ => rfl

/-- A step transaction is noted as committed, with what it closes, or as failed. -/
theorem callTransactions_outcome (command : StepTransactionCommand) :
    Outcome (callTransactions world command) state
      (fun response after => ∃ services attempt,
        committed (world.transactions command) state.services command = .ok (response,services) ∧
          ClosesStep (world.transactions command) command state.services services attempt ∧
          after = { state with services, transactions := state.transactions ++ [true] })
      fun _ after => after = { state with transactions := state.transactions ++ [false] } := by
  unfold Collections.Outcome callTransactions
  rw [handle_eq]
  cases hcommitted : committed (world.transactions command) state.services command with
  | ok committed =>
    obtain ⟨response,services⟩ := committed
    obtain ⟨attempt,hcloses⟩ := committed_eq_ok.mp ⟨response,hcommitted⟩
    exact ⟨services,attempt,rfl,hcloses,rfl⟩
  | error failure => rfl

/-- A settlement that is committed is answered as one. -/
theorem settled_of_committed {store : StepStore StepPlan Route} {services next :
    StepState StepPlan Route} {rootExecutionId reservationId attemptId : String}
    {actual : BudgetActual} {outcome : AttemptOutcome}
    {response : StepTransactionResponse StepPlan Route}
    (h : committed store services (.settle rootExecutionId reservationId actual attemptId outcome) =
      .ok (response,next)) : ∃ ledger attempt, response = .settled ledger attempt := by
  unfold Execution.committed at h
  obtain ⟨resources,-,h⟩ := bind_eq_ok.mp h
  obtain ⟨attempts,-,h⟩ := bind_eq_ok.mp h
  obtain ⟨⟨⟩,-,h⟩ := bind_eq_ok.mp h
  cases h
  exact ⟨_,_,rfl⟩

section Planning
variable {request : PlannedStepRequest} {attribution : UsageAttribution}

/-- A call that only reads leaves the state as it is. -/
theorem callAttempts_reads {command : StepAttemptCommand Route}
    (hreads : ∀ response next, state.services.attempts.answer command = .ok (response,next) →
      next = state.services.attempts) :
    Outcome (callAttempts world command) state
      (fun response after => after = state ∧
        state.services.attempts.answer command = .ok (response,state.services.attempts))
      fun _ after => after = state := by
  refine (callAttempts_outcome command).mono ?_ fun _ _ h => h
  rintro response after ⟨next,hanswer,-,rfl⟩
  obtain rfl := hreads response next hanswer
  exact ⟨rfl,hanswer⟩

variable {command : ExecutionResourceCommand} {resources : ExecutionResourceState}

theorem readOnly_eq_ok {changed : ExecutionResourceResponse × ExecutionResourceState}
    (h : onCopy (readOnly command) resources = .ok changed) : changed.2 = resources := by
  unfold onCopy readOnly at h
  simp only [stateful_bind, stateful_get] at h
  cases hread : readResources resources command with
  | ok response =>
    simp only [hread, check_ok, Except.ok.injEq] at h
    rw [← h]
  | error failure => simp [hread] at h

theorem callResources_reads (hreads : command.perform = readOnly command) :
    Outcome (callResources world command) state (fun _ after => after = state)
      fun _ after => after = state := by
  refine (callResources_outcome command).mono ?_ fun _ _ h => h
  rintro response after ⟨next,hperform,rfl⟩
  rw [hreads] at hperform
  obtain rfl := readOnly_eq_ok hperform
  rfl

theorem helperParentReservation_outcome :
    Outcome (helperParentReservation world attribution) state (fun _ after => after = state)
      fun _ after => after = state := by
  unfold helperParentReservation
  split_ifs
  · split
    · exact outcome_throw rfl
    · rename_i parentAttemptId _
      have hreads : Outcome (callAttempts world (.get parentAttemptId)) state _ _ :=
        callAttempts_reads fun response next h => by cases h; rfl
      refine hreads.bind ?_
      rintro response _ ⟨rfl,-⟩
      split
      · refine outcome_check_bind (fun _ _ => ?_) fun _ _ => rfl
        split
        · exact outcome_throw rfl
        · exact outcome_pure rfl
      · exact outcome_throw rfl
  · exact outcome_pure rfl

/-- The walk lets the retry pass. -/
def LineageAllows (attempts : AttemptLedger StepPlan Route) (attribution : UsageAttribution)
    (plan : StepPlan) : Prop :=
  attribution.kind = .retry → ∃ fuel parent, attribution.parentAttemptId = some parent ∧
    lineageVerdict fuel (attempts.listRoot attribution.rootExecutionId) parent plan =
      some (.ok ())

theorem validateRetryLineage_outcome (plan : StepPlan) :
    Outcome (validateRetryLineage world attribution plan) state
      (fun _ after => after = state ∧ LineageAllows state.services.attempts attribution plan)
      fun _ after => after = state := by
  unfold validateRetryLineage
  split_ifs with hkind
  · exact outcome_pure ⟨rfl,fun hretry => absurd hretry hkind⟩
  · cases hparent : attribution.parentAttemptId with
    | none => exact outcome_throw rfl
    | some parent =>
      have hreads : Outcome (callAttempts world (.listRoot attribution.rootExecutionId)) state _ _ :=
        callAttempts_reads fun response next h => by cases h; rfl
      refine hreads.bind ?_
      rintro response _ ⟨rfl,hanswer⟩
      cases hanswer
      dsimp only
      split
      · exact outcome_throw rfl
      · rename_i verdict hverdict
        refine outcome_check (fun _ hok => ⟨rfl,fun _ => ?_⟩) fun _ _ => rfl
        exact ⟨_,parent,hparent,hverdict.trans (congrArg some (mapError_eq_ok.mp hok))⟩

/-- What is known of a plan before the attempt is created. -/
structure Planned (attempts : AttemptLedger StepPlan Route) (request : PlannedStepRequest)
    (plan : StepPlan) : Prop where
  supported : isSupportedAttemptKind request.attribution.kind = true
  revision : plan.policyRevision = request.policy.revision
  limit : plan.retry.maxAttempts = request.policy.maxAttempts
  lineage : LineageAllows attempts request.attribution plan

theorem planStep_outcome : Outcome (planStep world request) state
    (fun planned after => after = state ∧ Planned state.services.attempts request planned.1)
    fun _ after => after = state := by
  refine outcome_check_bind (fun _ hsupported => ?_) fun _ _ => rfl
  refine outcome_check_bind (fun _ _ => ?_) fun _ _ => rfl
  refine outcome_check_bind (fun execution _ => ?_) fun _ _ => rfl
  refine outcome_check_bind (fun _ _ => ?_) fun _ _ => rfl
  refine helperParentReservation_outcome.bind ?_
  rintro parentReservationId _ rfl
  refine (callResources_reads (by cases parentReservationId <;> rfl)).bind ?_
  rintro remaining _ rfl
  split
  · refine outcome_check_bind (fun plan hplan => ?_) fun _ _ => rfl
    refine outcome_check_bind (fun _ _ => ?_) fun _ _ => rfl
    refine (validateRetryLineage_outcome plan).bind ?_
    rintro _ _ ⟨rfl,hlineage⟩
    obtain ⟨hrevision,hlimit⟩ := UsagePolicy.plan_eq_ok (mapError_eq_ok.mp hplan)
    exact outcome_pure ⟨rfl,ensure_eq_ok.mp hsupported,hrevision,hlimit,hlineage⟩
  · exact outcome_throw rfl

/-- The record of an attempt that has just been created. -/
def plannedAttempt (attribution : UsageAttribution) (plan : StepPlan) :
    StepAttemptRecord StepPlan Route :=
  ⟨attribution,plan,.planned,none,none,none,none,none⟩

theorem createAttempt_outcome (plan : StepPlan) :
    Outcome (createAttempt world request plan) state
      (fun _ after =>
        let next := state.services.attempts.put request.attribution.attemptId
          (plannedAttempt request.attribution plan)
        state.services.attempts.Admits request.attribution ∧
          next.attempts.keys.length ≤ maxAttemptStateBytes ∧ after = state.setAttempts next)
      fun _ after => after = state := by
  refine (callAttempts_outcome _).bind ?_
  rintro response _ ⟨next,hanswer,hfits,rfl⟩
  obtain ⟨hadmits,rfl,rfl⟩ := AttemptLedger.answer_create hanswer
  exact outcome_pure ⟨hadmits,hfits rfl,rfl⟩

/-- A reservation that is made stands under its name, which was free, and is held. -/
theorem reserve_eq_ok {next : ExecutionResourceState} {rootExecutionId : String}
    {reservation : BudgetReservationRequest} {response : ExecutionResourceResponse}
    (h : onCopy (ExecutionResourceCommand.reserve rootExecutionId reservation).perform resources = .ok (response,next)) :
    (∃ ledger, response = .rootBudget ledger) ∧
      resources.reservationAt ⟨rootExecutionId,reservation.reservationId⟩ = none ∧
      ∀ binding, next.reservationAt binding =
        if binding = ⟨rootExecutionId,reservation.reservationId⟩ then some ⟨reservation,.reserved⟩
        else resources.reservationAt binding := by
  unfold onCopy ExecutionResourceCommand.perform described Execution.reserveBudget onLedger at h
  cases hfound : resources.ledgers.get? rootExecutionId with
  | none => simp [hfound] at h
  | some ledger =>
    simp only [hfound, LedgerCall.perform, Execution.reserve, checked_eq] at h
    cases hreservable : ledger.reservable reservation with
    | error error => simp [hreservable] at h
    | ok u =>
      simp only [hreservable, Except.ok.injEq, Prod.mk.injEq] at h
      obtain ⟨rfl,rfl⟩ := h
      exact ⟨⟨_,rfl⟩,ExecutionResourceState.reservationAt_of_reservable hfound hreservable,
        ExecutionResourceState.reservationAt_put hfound _ _ _⟩

end Planning

end PhenixConductor.StepRunner
