import PhenixConductor.StepRunner.Calls

/-! # A run closes what it opens

Each stage of a run is described by the attempt and the reservation that the run has made so
far, with everything else as it was at the start.
-/
namespace PhenixConductor.StepRunner
open Collections Execution
variable {Route Output : Type} {world : World Route Output} {request : PlannedStepRequest}
  {start state : RunnerState Route} {attempt : StepAttemptRecord StepPlan Route}
  {held : Option BudgetReservationRecord} {called : List (Invocation Route)}

def RunnerState.attemptAt (state : RunnerState Route) (attemptId : String) :
    Option (StepAttemptRecord StepPlan Route) :=
  state.services.attempts.attempts.get? attemptId

def RunnerState.reservationAt (state : RunnerState Route) (binding : TaskReservationBinding) :
    Option BudgetReservationRecord :=
  state.services.resources.reservationAt binding

/-- The reservation that the run makes. -/
def PlannedStepRequest.binding (request : PlannedStepRequest) : TaskReservationBinding :=
  ⟨request.attribution.rootExecutionId,reservationId request⟩

/-- The model is called on a dispatched attempt that the prepared route and the materialized
projection are bound to, with its reservation held. -/
structure Dispatched (world : World Route Output) (request : PlannedStepRequest)
    (invocation : Invocation Route) (attempt : StepAttemptRecord StepPlan Route)
    (record : BudgetReservationRecord) (projection : ProjectionRevision) : Prop where
  stored : invocation.services.attempts.attempts.get? request.attribution.attemptId = some attempt
  phase : attempt.phase = .dispatched
  reservationId : attempt.reservationId = some (reservationId request)
  route : attempt.route = some invocation.prepared.decision
  bound : attempt.projection = some projection
  materialized : isHelperAttempt request.attribution.kind = false → ∃ input,
    world.materialize request.input projection = .ok (some (input,projection)) ∧
      world.prepare invocation.prepared.decision input = .ok (some invocation.prepared)
  helper : isHelperAttempt request.attribution.kind = true →
    world.prepare invocation.prepared.decision request.input = .ok (some invocation.prepared)
  held : invocation.services.resources.reservationAt request.binding = some record
  reserved : record.state = .reserved

/-- The calls to the model in a run. -/
structure CallsModel (world : World Route Output) (request : PlannedStepRequest)
    (start after : RunnerState Route) (called : List (Invocation Route)) : Prop where
  invocations : after.invocations = start.invocations ++ called
  once : called.length ≤ 1
  dispatched : ∀ invocation ∈ called, ∃ attempt record projection,
    Dispatched world request invocation attempt record projection

/-- Nothing that is new is open. -/
structure NothingOpen (start after : RunnerState Route) : Prop where
  attempts : ∀ attemptId attempt, start.attemptAt attemptId = none →
    after.attemptAt attemptId = some attempt → attempt.phase = .settled
  reservations : ∀ binding record, start.reservationAt binding = none →
    after.reservationAt binding = some record → record.state ≠ .reserved

/-- A failed run has closed the attempt that it has created, with the reservation that is bound to
it. -/
structure FailedClosed (request : PlannedStepRequest) (start after : RunnerState Route)
    (called : List (Invocation Route)) : Prop where
  attempt : ∀ attempt, start.attemptAt request.attribution.attemptId = none →
    after.attemptAt request.attribution.attemptId = some attempt →
    attempt.phase = .settled ∧ ∃ outcome, attempt.outcome = some outcome ∧ outcome ≠ .succeeded
  reservation : ∀ attempt reservationId, start.attemptAt request.attribution.attemptId = none →
    after.attemptAt request.attribution.attemptId = some attempt →
    attempt.reservationId = some reservationId → ∃ record,
      after.reservationAt ⟨request.attribution.rootExecutionId,reservationId⟩ = some record ∧
        (called = [] → record.state = .released) ∧
        (called ≠ [] → ∃ actual, record.state = .settled actual)
  nothingOpen : NothingOpen start after

/-- A run that returns has settled its attempt and its reservation. -/
structure Succeeded (request : PlannedStepRequest) (start after : RunnerState Route) : Prop where
  attempt : ∃ attempt, after.attemptAt request.attribution.attemptId = some attempt ∧
    attempt.phase = .settled ∧ attempt.outcome = some .succeeded ∧
    attempt.reservationId = some (reservationId request)
  reservation : ∃ record actual, after.reservationAt request.binding = some record ∧
    record.state = .settled actual
  nothingOpen : NothingOpen start after

/-- A run that fails has called the model at most once and, if every step transaction that it has
issued was committed, has closed what it has made. -/
def FailsClosed (world : World Route Output) (request : PlannedStepRequest)
    (start after : RunnerState Route) : Prop :=
  ∃ called notes, CallsModel world request start after called ∧
    after.transactions = start.transactions ++ notes ∧
    ((∀ note ∈ notes, note = true) → FailedClosed request start after called)

/-- What the run has made so far: the attempt and maybe the reservation. -/
structure Stage (request : PlannedStepRequest) (start : RunnerState Route)
    (attempt : StepAttemptRecord StepPlan Route) (held : Option BudgetReservationRecord)
    (called : List (Invocation Route)) (state : RunnerState Route) : Prop where
  fresh : start.attemptAt request.attribution.attemptId = none
  attempt : state.attemptAt request.attribution.attemptId = some attempt
  attempts : ∀ other, other ≠ request.attribution.attemptId →
    state.attemptAt other = start.attemptAt other
  unheld : held ≠ none → start.reservationAt request.binding = none
  reservation : state.reservationAt request.binding =
    held.or (start.reservationAt request.binding)
  reservations : ∀ other, other ≠ request.binding →
    state.reservationAt other = start.reservationAt other
  invocations : state.invocations = start.invocations ++ called
  transactions : state.transactions = start.transactions

/-- The run has ended with a committed step transaction. -/
structure Ended (request : PlannedStepRequest) (start : RunnerState Route)
    (attempt : StepAttemptRecord StepPlan Route) (held : Option BudgetReservationRecord)
    (called : List (Invocation Route)) (after : RunnerState Route) : Prop where
  stage : Stage request start attempt held called
    { after with transactions := start.transactions }
  transactions : after.transactions = start.transactions ++ [true]

section Ends

theorem Ended.nothingOpen {after : RunnerState Route}
    (h : Ended request start attempt held called after) (hsettled : attempt.phase = .settled)
    (hheld : ∀ record, held = some record → record.state ≠ .reserved) :
    NothingOpen start after where
  attempts attemptId found hnew hfound := by
    by_cases hid : attemptId = request.attribution.attemptId
    · subst hid
      cases h.stage.attempt.symm.trans hfound
      exact hsettled
    · have hkept := h.stage.attempts attemptId hid
      cases (hkept.trans hnew).symm.trans hfound
  reservations binding found hnew hfound := by
    by_cases hbinding : binding = request.binding
    · subst hbinding
      have hreservation := h.stage.reservation
      rw [hnew] at hreservation
      cases held with
      | none => cases hreservation.symm.trans hfound
      | some record =>
        cases hreservation.symm.trans hfound
        exact hheld _ rfl
    · have hkept := h.stage.reservations binding hbinding
      cases (hkept.trans hnew).symm.trans hfound

/-- The step transaction that closes the attempt with what the run holds. -/
theorem Stage.ended (h : Stage request start attempt held called state)
    {store : StepStore StepPlan Route} {command : StepTransactionCommand}
    {services : StepState StepPlan Route} {found : StepAttemptRecord StepPlan Route}
    (hattempt : command.attemptId = request.attribution.attemptId)
    (hreservation : command.reservation = held.map fun _ => request.binding)
    (hcloses : ClosesStep store command state.services services found) :
    Ended request start (attempt.closed command.outcome)
      (held.map fun record => { record with state := command.reservationState }) called
      { state with services, transactions := state.transactions ++ [true] } := by
  have hfound := hcloses.closes.found
  rw [hattempt] at hfound
  cases h.attempt.symm.trans hfound
  have hnext := hcloses.attempts
  rw [hattempt] at hnext
  obtain ⟨hothers,hnamed⟩ := hcloses.resources.reservationAt
  refine ⟨⟨h.fresh,?_,?_,?_,?_,?_,h.invocations,rfl⟩,by rw [h.transactions]⟩
  · change services.attempts.attempts.get? _ = _
    rw [hnext]
    exact BTreeMap.get?_insert_self _ _ _
  · intro other hother
    change services.attempts.attempts.get? other = _
    rw [hnext]
    exact (BTreeMap.get?_insert_of_ne _ _ hother).trans (h.attempts other hother)
  · intro hheld
    exact h.unheld fun hnone => hheld (by rw [hnone]; rfl)
  · cases held with
    | none => exact (hothers request.binding (by simp [hreservation])).trans h.reservation
    | some record =>
      obtain ⟨stored,hstored,-,hclosed⟩ := hnamed request.binding hreservation
      cases (h.reservation.symm.trans hstored : some record = some stored)
      exact hclosed
  · intro other hother
    refine (hothers other ?_).trans (h.reservations other hother)
    rw [hreservation]
    cases held with
    | none => simp
    | some record => simpa using Ne.symm hother

theorem Ended.failedClosed {after : RunnerState Route} {outcome : AttemptOutcome}
    (h : Ended request start (attempt.closed outcome) held called after)
    (houtcome : outcome ≠ .succeeded)
    (hbound : ∀ id, attempt.reservationId = some id → id = reservationId request ∧ held ≠ none)
    (hreleased : called = [] → ∀ record, held = some record → record.state = .released)
    (hsettled : called ≠ [] → ∀ record, held = some record →
      ∃ actual, record.state = .settled actual) : FailedClosed request start after called where
  attempt found _ hfound := by
    cases h.stage.attempt.symm.trans hfound
    exact ⟨rfl,outcome,rfl,houtcome⟩
  reservation found id _ hfound hid := by
    cases h.stage.attempt.symm.trans hfound
    obtain ⟨rfl,hheld⟩ := hbound id hid
    obtain ⟨record,rfl⟩ := Option.ne_none_iff_exists'.mp hheld
    exact ⟨record,h.stage.reservation,fun hnone => hreleased hnone record rfl,
      fun hsome => hsettled hsome record rfl⟩
  nothingOpen := by
    refine h.nothingOpen rfl fun record hrecord hreserved => ?_
    by_cases hcalled : called = []
    · cases (hreleased hcalled record hrecord).symm.trans hreserved
    · obtain ⟨actual,hactual⟩ := hsettled hcalled record hrecord
      cases hactual.symm.trans hreserved

/-- A step transaction that fails leaves only the note. -/
theorem Stage.noted (h : Stage request start attempt held called state)
    (hcalls : CallsModel world request start state called) :
    FailsClosed world request start
      { state with transactions := state.transactions ++ [false] } := by
  refine ⟨called,[false],⟨hcalls.invocations,hcalls.once,hcalls.dispatched⟩,?_,fun hall => ?_⟩
  · rw [h.transactions]
  · cases hall false (by simp)

variable {reservationId? : Option String}

/-- The abort of an attempt that the model has not been called on. -/
theorem failBeforeDispatch_outcome {α : Type} {good : α → RunnerState Route → Prop}
    (h : Stage request start attempt held [] state)
    (hbound : ∀ id, attempt.reservationId = some id → id = reservationId request ∧ held ≠ none)
    (hreservation : reservationId? = held.map fun _ => reservationId request) (cause : RunFailure) :
    Outcome (failBeforeDispatch world request.attribution reservationId? cause : RunM Route α)
      state good fun _ after => FailsClosed world request start after := by
  have hcalls : CallsModel world request start state [] :=
    ⟨h.invocations,by simp,by simp⟩
  have habort : Outcome (abortBeforeDispatch world request.attribution.rootExecutionId
      request.attribution.attemptId reservationId? .failed) state
      (fun _ after => FailsClosed world request start after)
      fun _ after => FailsClosed world request start after := by
    refine ((callTransactions_outcome _).mono (fun _ _ h => h) ?_).bind ?_
    · rintro _ _ rfl
      exact h.noted hcalls
    · rintro response after ⟨services,found,-,hcloses,rfl⟩
      have hclosed : FailsClosed world request start
          { state with services, transactions := state.transactions ++ [true] } := by
        have hended := h.ended rfl (by subst hreservation; cases held <;> rfl) hcloses
        refine ⟨[],[true],⟨hended.stage.invocations,by simp,by simp⟩,hended.transactions,
          fun _ => hended.failedClosed nofun ?_ ?_ (fun hne => absurd rfl hne)⟩
        · intro id hid
          obtain ⟨hname,hheld⟩ := hbound id hid
          exact ⟨hname,by simpa using hheld⟩
        · rintro - record hrecord
          obtain ⟨before,-,rfl⟩ := Option.map_eq_some_iff.mp hrecord
          rfl
      split
      · exact hclosed
      · exact hclosed
  refine (habort.tryCatch fun _ _ hclosed => ?_).bind fun _ _ hclosed => hclosed
  exact hclosed

/-- A stage before the dispatch that changes nothing where it fails. -/
theorem orAbort_outcome {α : Type} {good : α → RunnerState Route → Prop}
    {describe : RunFailure → RunFailure} {x : RunM Route α}
    (h : Stage request start attempt held [] state)
    (hbound : ∀ id, attempt.reservationId = some id → id = reservationId request ∧ held ≠ none)
    (hreservation : reservationId? = held.map fun _ => reservationId request)
    (hx : Outcome x state good fun _ after => after = state) :
    Outcome (orAbort world request reservationId? describe x) state good
      fun _ after => FailsClosed world request start after := by
  refine hx.tryCatch ?_
  rintro failure _ rfl
  exact failBeforeDispatch_outcome h hbound hreservation _

end Ends

section Stages

/-- What is reserved for the step. -/
def heldReservation (request : PlannedStepRequest) (plan : StepPlan)
    (parentReservationId : Option String) (purpose : BudgetReservationPurpose) :
    BudgetReservationRecord :=
  ⟨⟨reservationId request,parentReservationId,plan.policyRevision,purpose,plan.reservation,1⟩,
    .reserved⟩

theorem createAttempt_stage (plan : StepPlan) :
    Outcome (createAttempt world request plan) state
      (fun _ after =>
        Stage request state (plannedAttempt request.attribution plan) none [] after)
      fun _ after => after = state := by
  refine (createAttempt_outcome plan).mono ?_ fun _ _ h => h
  rintro _ _ ⟨hadmits,-,rfl⟩
  have hfresh : state.attemptAt request.attribution.attemptId = none := by
    have hnone := hadmits.fresh
    exact Option.map_eq_none_iff.mp hnone
  refine ⟨hfresh,BTreeMap.get?_insert_self _ _ _,fun other hother => ?_,nofun,rfl,fun _ _ => rfl,
    (List.append_nil _).symm,rfl⟩
  exact BTreeMap.get?_insert_of_ne _ _ hother

theorem reservationPurpose_ok {kind : UsageAttemptKind} (h : isSupportedAttemptKind kind = true) :
    ∃ purpose, reservationPurpose kind = .ok purpose := by
  cases kind with
  | delegated => cases h
  | root | retry | helper | verification | recoveryClassifier => exact ⟨_,rfl⟩

variable {plan : StepPlan}

theorem reserveBudget_stage (parentReservationId : Option String)
    (hsupported : isSupportedAttemptKind request.attribution.kind = true)
    (h : Stage request start attempt none [] state) (hfree : attempt.reservationId = none) :
    Outcome (reserveBudget world request plan parentReservationId) state
      (fun _ after => ∃ purpose, Stage request start attempt
        (some (heldReservation request plan parentReservationId purpose)) [] after)
      fun _ after => FailsClosed world request start after := by
  obtain ⟨purpose,hpurpose⟩ := reservationPurpose_ok hsupported
  have hbound : ∀ id, attempt.reservationId = some id →
      id = reservationId request ∧ (none : Option BudgetReservationRecord) ≠ none := by
    intro id hid
    cases hfree.symm.trans hid
  unfold reserveBudget
  rw [hpurpose]
  refine outcome_check_bind (fun found hfound => ?_) nofun
  cases hfound
  refine (orAbort_outcome h hbound rfl (callResources_outcome _)).bind ?_
  rintro response _ ⟨next,hperform,rfl⟩
  obtain ⟨⟨ledger,rfl⟩,hnone,hnext⟩ := reserve_eq_ok hperform
  refine outcome_pure ⟨purpose,h.fresh,h.attempt,h.attempts,fun _ => ?_,?_,?_,h.invocations,
    h.transactions⟩
  · exact h.reservation.symm.trans hnone
  · exact (hnext request.binding).trans (if_pos rfl)
  · intro other hother
    exact ((hnext other).trans (if_neg hother)).trans (h.reservations other hother)

/-- A command that changes the attempt of the run alone. -/
theorem bindAttempt_stage {command : StepAttemptCommand Route} {text : String}
    {change : StepAttemptRecord StepPlan Route →
      Except StepAttemptTransitionError (StepAttemptRecord StepPlan Route)}
    {next : StepAttemptRecord StepPlan Route}
    (hcommand : ∀ ledger : AttemptLedger StepPlan Route, ledger.answer command =
      ledger.mutation request.attribution.attemptId text change)
    (hchange : ∀ record, change attempt = .ok record → record = next)
    (h : Stage request start attempt held called state) :
    Outcome (bindAttempt world command) state
      (fun _ after => Stage request start next held called after)
      fun _ after => after = state := by
  refine (callAttempts_outcome command).bind ?_
  rintro response _ ⟨ledger,hanswer,-,rfl⟩
  rw [hcommand] at hanswer
  obtain ⟨found,record,hfound,hrecord,rfl,rfl⟩ := AttemptLedger.mutation_eq_ok.mp hanswer
  cases h.attempt.symm.trans hfound
  obtain rfl := hchange record hrecord
  refine outcome_pure ⟨h.fresh,BTreeMap.get?_insert_self _ _ _,fun other hother => ?_,h.unheld,
    h.reservation,h.reservations,h.invocations,h.transactions⟩
  exact (BTreeMap.get?_insert_of_ne _ _ hother).trans (h.attempts other hother)

variable {record : BudgetReservationRecord}

/-- A stage after the reservation: a failure aborts the attempt and releases what is held. -/
theorem guarded_outcome {α : Type} {good : α → RunnerState Route → Prop} {x : RunM Route α}
    (h : Stage request start attempt (some record) [] state)
    (hbound : ∀ id, attempt.reservationId = some id → id = reservationId request)
    (hx : Outcome x state good fun _ after => after = state) :
    Outcome (guarded world request x) state good
      fun _ after => FailsClosed world request start after :=
  orAbort_outcome h (fun id hid => ⟨hbound id hid,nofun⟩) rfl hx

/-- A check between two stages. -/
theorem guarded_check {α : Type} {y : Except RunFailure α}
    (h : Stage request start attempt (some record) [] state)
    (hbound : ∀ id, attempt.reservationId = some id → id = reservationId request) :
    Outcome (guarded world request (check y)) state (fun a after => y = .ok a ∧ after = state)
      fun _ after => FailsClosed world request start after :=
  guarded_outcome h hbound (outcome_check (fun _ hy => ⟨hy,rfl⟩) fun _ _ => rfl)

theorem expect_eq_ok {α : Type} {answer : Except String (Option α)}
    {describe : RunFailure → RunFailure} {unexpected : RunFailure} {a : α}
    (h : expect answer describe unexpected = .ok a) : answer = .ok (some a) := by
  unfold expect at h
  split at h
  · cases h
  · cases h
  · rw [Except.ok.inj h]

/-- The projection is bound, and the input is what the materialization of it gives, or that of a
helper. -/
theorem bindContext_stage (h : Stage request start attempt (some record) [] state)
    (hbound : ∀ id, attempt.reservationId = some id → id = reservationId request) :
    Outcome (bindContext world request plan) state
      (fun input after => ∃ projection,
        Stage request start
          { attempt with projection := some projection, phase := .contextAdmitted }
          (some record) [] after ∧
        (isHelperAttempt request.attribution.kind = false →
          world.materialize request.input projection = .ok (some (input,projection))) ∧
        (isHelperAttempt request.attribution.kind = true → input = request.input))
      fun _ after => FailsClosed world request start after := by
  have hbind : ∀ projection, Outcome (guarded world request (bindAttempt world
      (.bindProjection request.attribution.attemptId projection))) state
      (fun _ after => Stage request start
        { attempt with projection := some projection, phase := .contextAdmitted }
        (some record) [] after)
      fun _ after => FailsClosed world request start after := fun projection =>
    guarded_outcome h hbound (bindAttempt_stage (fun _ => rfl)
      (fun _ hrecord => (StepAttemptRecord.bindProjection_eq_ok hrecord).2) h)
  unfold bindContext
  split_ifs with hhelper
  · refine (hbind ⟨0,0⟩).bind fun _ after hstage => ?_
    refine outcome_pure ⟨_,hstage,fun hno => ?_,fun _ => rfl⟩
    rw [hhelper] at hno
    cases hno
  · refine (guarded_check h hbound).bind ?_
    rintro projection _ ⟨-,rfl⟩
    refine (hbind projection).bind fun _ middle hstage => ?_
    refine (guarded_check hstage hbound).bind ?_
    rintro ⟨input,materialized⟩ _ ⟨hmaterialize,rfl⟩
    refine (guarded_check hstage hbound).bind ?_
    rintro _ _ ⟨hsame,rfl⟩
    obtain rfl := ensure_eq_ok.mp hsame
    refine outcome_pure ⟨_,hstage,fun _ => expect_eq_ok hmaterialize,fun hyes => ?_⟩
    exact absurd hyes hhelper

/-- The attempt is ready for the dispatch of what has been prepared. -/
structure Ready (world : World Route Output) (request : PlannedStepRequest)
    (prepared : PreparedDispatch Route) (attempt : StepAttemptRecord StepPlan Route)
    (projection : ProjectionRevision) : Prop where
  phase : attempt.phase = .dispatched
  reservationId : attempt.reservationId = some (reservationId request)
  route : attempt.route = some prepared.decision
  bound : attempt.projection = some projection
  materialized : isHelperAttempt request.attribution.kind = false → ∃ input,
    world.materialize request.input projection = .ok (some (input,projection)) ∧
      world.prepare prepared.decision input = .ok (some prepared)
  helper : isHelperAttempt request.attribution.kind = true →
    world.prepare prepared.decision request.input = .ok (some prepared)

theorem prepareDispatch_stage [DecidableEq Route]
    (h : Stage request start attempt (some record) [] state) (hfree : attempt.reservationId = none) :
    Outcome (prepareDispatch world request plan) state
      (fun prepared after => ∃ ready projection, Ready world request prepared ready projection ∧
        Stage request start ready (some record) [] after)
      fun _ after => FailsClosed world request start after := by
  have hunbound : ∀ id, attempt.reservationId = some id → id = reservationId request := by
    intro id hid
    cases hfree.symm.trans hid
  refine Outcome.bind (guarded_outcome h hunbound (bindAttempt_stage (fun _ => rfl)
    (fun _ hrecord => (StepAttemptRecord.bindReservation_eq_ok hrecord).2) h)) ?_
  intro _ reserved hreserved
  have hbound : ∀ id, some (reservationId request) = some id → id = reservationId request :=
    fun _ hid => (Option.some.inj hid).symm
  refine (guarded_check hreserved hbound).bind ?_
  rintro decision _ ⟨-,rfl⟩
  refine Outcome.bind (guarded_outcome hreserved hbound (bindAttempt_stage (fun _ => rfl)
    (fun _ hrecord => (StepAttemptRecord.bindRoute_eq_ok hrecord).2) hreserved)) ?_
  intro _ routed hrouted
  refine (bindContext_stage hrouted hbound).bind ?_
  rintro input admitted ⟨projection,hadmitted,hmaterialized,hhelper⟩
  refine (guarded_check hadmitted hbound).bind ?_
  rintro prepared _ ⟨hprepare,rfl⟩
  refine (guarded_check hadmitted hbound).bind ?_
  rintro _ _ ⟨hsame,rfl⟩
  have hdecision := ensure_eq_ok.mp hsame
  refine Outcome.bind (guarded_outcome hadmitted hbound (bindAttempt_stage (fun _ => rfl)
    (fun _ hrecord => (StepAttemptRecord.markDispatched_eq_ok hrecord).2) hadmitted)) ?_
  intro _ dispatched hdispatched
  have hprepared := expect_eq_ok hprepare
  rw [← hdecision] at hprepared
  refine outcome_pure ⟨_,projection,⟨rfl,rfl,congrArg some hdecision.symm,rfl,?_,?_⟩,hdispatched⟩
  · exact fun hno => ⟨input,hmaterialized hno,hprepared⟩
  · intro hyes
    rw [← hhelper hyes]
    exact hprepared

/-- The settlement after the dispatch: it is committed and closes both, or it fails. -/
theorem settleStep_outcome {outcome : AttemptOutcome} {invocation : Invocation Route}
    (h : Stage request start attempt (some record) [invocation] state)
    (hcalls : CallsModel world request start state [invocation]) :
    Outcome (settleStep world request.attribution.rootExecutionId (reservationId request)
        (conservativeActual plan) request.attribution.attemptId outcome) state
      (fun _ after => Ended request start (attempt.closed outcome)
        (some { record with state := .settled (conservativeActual plan) }) [invocation] after)
      fun _ after => FailsClosed world request start after := by
  refine ((callTransactions_outcome _).mono (fun _ _ h => h) ?_).bind ?_
  · rintro _ _ rfl
    exact h.noted hcalls
  · rintro response after ⟨services,found,hcommitted,hcloses,rfl⟩
    obtain ⟨ledger,settled,rfl⟩ := settled_of_committed hcommitted
    exact outcome_pure (h.ended rfl rfl hcloses)

/-- The dispatch: the model is called once, and the attempt is settled whatever it answers. -/
theorem dispatch_outcome {prepared : PreparedDispatch Route} {projection : ProjectionRevision}
    (h : Stage request start attempt (some record) [] state) (hreserved : record.state = .reserved)
    (hready : Ready world request prepared attempt projection) :
    Outcome (dispatch world request plan prepared) state
      (fun _ after => (∃ called, CallsModel world request start after called) ∧
        Succeeded request start after)
      fun _ after => FailsClosed world request start after := by
  set invocation : Invocation Route := ⟨prepared,state.services⟩ with hinvocation
  set called := { state with invocations := state.invocations ++ [invocation] } with hcalled
  have hstage : Stage request start attempt (some record) [invocation] called :=
    ⟨h.fresh,h.attempt,h.attempts,h.unheld,h.reservation,h.reservations,
      by rw [hcalled, h.invocations, List.append_nil],h.transactions⟩
  have hdispatched : Dispatched world request invocation attempt record projection :=
    ⟨h.attempt,hready.phase,hready.reservationId,hready.route,hready.bound,hready.materialized,
      hready.helper,h.reservation,hreserved⟩
  have hmodel : ∀ after : RunnerState Route,
      after.invocations = start.invocations ++ [invocation] →
      CallsModel world request start after [invocation] := fun after hafter =>
    ⟨hafter,le_rfl,fun found hfound => by
      obtain rfl := List.mem_singleton.mp hfound
      exact ⟨attempt,record,projection,hdispatched⟩⟩
  have hbound : ∀ id, attempt.reservationId = some id → id = reservationId request ∧
      (some { record with state := .settled (conservativeActual plan) } :
        Option BudgetReservationRecord) ≠ none := by
    intro id hid
    exact ⟨Option.some.inj (hid.symm.trans hready.reservationId),nofun⟩
  have hfailed : ∀ failure : RunFailure, Outcome
      (settleAfterDispatch world request plan .failed >>= fun _ =>
        (throw failure : RunM Route (Completed Route Output))) called
      (fun _ after => (∃ called, CallsModel world request start after called) ∧
        Succeeded request start after)
      fun _ after => FailsClosed world request start after := by
    intro failure
    have hsettle : Outcome (settleAfterDispatch world request plan .failed) called
        (fun _ after => Ended request start (attempt.closed .failed)
          (some { record with state := .settled (conservativeActual plan) }) [invocation] after)
        fun _ after => FailsClosed world request start after :=
      (settleStep_outcome hstage (hmodel called hstage.invocations)).bind
        fun _ _ hended => hended
    refine hsettle.bind fun _ after hended => outcome_throw ?_
    refine ⟨[invocation],[true],hmodel after hended.stage.invocations,hended.transactions,
      fun _ => hended.failedClosed nofun hbound nofun fun _ settled hsettled => ?_⟩
    cases hsettled
    exact ⟨_,rfl⟩
  refine Outcome.bind (show Outcome (invokePrepared world prepared) state
    (fun response after => response = world.infer prepared ∧ after = called)
    (fun _ after => FailsClosed world request start after) from ⟨rfl,rfl⟩) ?_
  rintro _ _ ⟨rfl,rfl⟩
  split
  · exact hfailed _
  · exact hfailed _
  · refine (settleStep_outcome hstage (hmodel called hstage.invocations)).bind ?_
    intro _ after hended
    refine outcome_pure ⟨⟨_,hmodel after hended.stage.invocations⟩,
      ⟨_,hended.stage.attempt,rfl,rfl,hready.reservationId⟩,
      ⟨_,_,hended.stage.reservation,rfl⟩,hended.nothingOpen rfl ?_⟩
    rintro settled ⟨⟩
    nofun

end Stages

/-- A run calls the model at most once, on a dispatched attempt that everything is bound to. It
returns with the attempt and the reservation settled, or fails with everything closed that it has
made, if the step transaction that it has issued was committed. -/
theorem run_closes [DecidableEq Route] (world : World Route Output) (request : PlannedStepRequest)
    (state : RunnerState Route) :
    Outcome (run world request) state
      (fun _ after => (∃ called, CallsModel world request state after called) ∧
        Succeeded request state after)
      fun _ after => FailsClosed world request state after := by
  have hrefused : FailsClosed world request state state := by
    refine ⟨[],[],⟨(List.append_nil _).symm,by simp,by simp⟩,(List.append_nil _).symm,fun _ =>
      ⟨fun attempt hnone hsome => ?_,fun attempt _ hnone hsome => ?_,
        ⟨fun _ attempt hnone hsome => ?_,fun _ record hnone hsome => ?_⟩⟩⟩ <;>
    cases hnone.symm.trans hsome
  refine Outcome.bind (planStep_outcome.mono (fun _ _ h => h) ?_) ?_
  · rintro _ _ rfl
    exact hrefused
  rintro ⟨plan,parentReservationId⟩ _ ⟨rfl,hplanned⟩
  refine Outcome.bind ((createAttempt_stage plan).mono (fun _ _ h => h) ?_) ?_
  · rintro _ _ rfl
    exact hrefused
  intro _ created hcreated
  refine (reserveBudget_stage parentReservationId hplanned.supported hcreated rfl).bind ?_
  rintro _ reserved ⟨purpose,hreserved⟩
  refine (prepareDispatch_stage hreserved rfl).bind ?_
  rintro prepared dispatched ⟨ready,projection,hready,hdispatched⟩
  exact dispatch_outcome hdispatched rfl hready

end PhenixConductor.StepRunner
