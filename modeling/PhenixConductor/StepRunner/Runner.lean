import PhenixConductor.Collections.Outcomes
import PhenixConductor.StepRunner.RetryLineage

/-! # The step runner

A run plans one step, creates an attempt for it, reserves its budget, binds the route and the
projection, and calls the model once.
-/
namespace PhenixConductor.StepRunner
open Collections Execution
variable {Route Output : Type}

abbrev Bytes := List UInt8

structure PreparedDispatch (Route : Type) where
  decision : Route
  request : Bytes

structure PlannedStepRequest where
  attribution : UsageAttribution
  input : Bytes
  tools : List String
  policy : UsagePolicy
  task : TaskRequirements
  nowMs : U64

inductive StepSettlementBasis
  | reservedMaximum

structure Completed (Route Output : Type) where
  attempt : StepAttemptRecord StepPlan Route
  response : Output
  settled : BudgetActual
  settlementBasis : StepSettlementBasis

/-- What is behind the text of an error. -/
inductive RunFailure
  | message (text : String)
  | attempt (failure : AttemptFailure)
  | resource (failure : ResourceFailure)
  | transaction (failure : StepFailure)
  | planning (error : UsagePlanError)
  | because (text : String) (failure : RunFailure)
  | cleanup (cause failure : RunFailure)
  /-- The walk over the lineage of a retry never ends. -/
  | diverges

/-- A model call, with the services as they were. -/
structure Invocation (Route : Type) where
  prepared : PreparedDispatch Route
  services : StepState StepPlan Route

/-- The services that the run changes, the model calls and whether each step transaction was
committed. -/
structure RunnerState (Route : Type) where
  services : StepState StepPlan Route
  invocations : List (Invocation Route)
  transactions : List Bool

/-- What becomes of the durable read and the commit of a call to the resources. -/
structure ResourceStore where
  read : Except String Unit
  commit : Except String Unit

/-- What the other services answer in one run; a response of another kind is none. -/
structure World (Route Output : Type) where
  execution : Except String (Option ExecutionState)
  attempts : StepAttemptCommand Route → AttemptStore Route
  resources : ExecutionResourceCommand → ResourceStore
  transactions : StepTransactionCommand → StepStore StepPlan Route
  routing : RoutingRequirements → Except String (Option Route)
  admitted : StepPlan → Except String (Option ProjectionRevision)
  materialize : Bytes → ProjectionRevision → Except String (Option (Bytes × ProjectionRevision))
  prepare : Route → Bytes → Except String (Option (PreparedDispatch Route))
  infer : PreparedDispatch Route → Except String (Option Output)

abbrev RunM (Route : Type) := EStateM RunFailure (RunnerState Route)

def isMutation : ExecutionResourceCommand → Bool
  | .remaining _ => false
  | .remainingWithin _ _ => false
  | .getDelegated _ => false
  | _ => true

def invokeResources (store : ResourceStore) (command : ExecutionResourceCommand) :
    EStateM ResourceFailure ExecutionResourceState ExecutionResourceResponse := do
  let state ← get
  check (store.read.mapError (⟨·,none⟩))
  let (response,next) ← check (onCopy command.perform state)
  check ((if isMutation command then store.commit else .ok ()).mapError (⟨·,none⟩))
  set next
  return response

namespace RunnerState
variable (self : RunnerState Route)

def setAttempts (attempts : AttemptLedger StepPlan Route) : RunnerState Route :=
  { self with services := { self.services with attempts } }

def setResources (resources : ExecutionResourceState) : RunnerState Route :=
  { self with services := { self.services with resources } }

def setServices (services : StepState StepPlan Route) : RunnerState Route :=
  { self with services }

end RunnerState

def isSupportedAttemptKind : UsageAttemptKind → Bool
  | .root => true
  | .retry => true
  | .helper => true
  | .verification => true
  | .recoveryClassifier => true
  | _ => false

def isHelperAttempt : UsageAttemptKind → Bool
  | .helper => true
  | .verification => true
  | .recoveryClassifier => true
  | _ => false

def reservationPurpose : UsageAttemptKind → Except RunFailure BudgetReservationPurpose
  | .root => .ok .rootStep
  | .retry => .ok .retry
  | .helper => .ok .helper
  | .verification => .ok .verification
  | .recoveryClassifier => .ok .recoveryClassifier
  | kind => .error (.message ("unsupported planned step attempt kind: " ++ kind.debug))

def conservativeActual (plan : StepPlan) : BudgetActual where
  freshInputTokens := plan.reservation.inputTokens
  outputTokens := plan.reservation.outputTokens
  costMicrounits := plan.reservation.costMicrounits
  attempts := 1

def validateTools (tools : List String) (plan : StepPlan) : Except RunFailure Unit := do
  let provided := BTreeSet.collect tools
  ensure (∀ tool ∈ plan.tools.initial.keys, tool ∈ provided.keys)
    (.message "planned step is missing a required tool descriptor")
  ensure (∀ tool ∈ provided.keys,
      tool ∈ plan.tools.initial.keys ∨ tool ∈ plan.tools.expandable.keys)
    (.message "planned step provided a tool outside the planned tool set")
  ensure (provided.keys.length ≤ plan.tools.maxSchemas.val)
    (.message "planned step tool descriptor count exceeds the plan")

section Calls
variable (world : World Route Output)

def callAttempts (command : StepAttemptCommand Route) : RunM Route (StepAttemptResponse Route) :=
  within (·.services.attempts) RunnerState.setAttempts .attempt
    (invokeAttempts (world.attempts command) command)

def callResources (command : ExecutionResourceCommand) : RunM Route ExecutionResourceResponse :=
  within (·.services.resources) RunnerState.setResources .resource
    (invokeResources (world.resources command) command)

/-- A step transaction, with the note whether it was committed. -/
def callTransactions (command : StepTransactionCommand) :
    RunM Route (StepTransactionResponse StepPlan Route) := fun state =>
  match handle (world.transactions command) command state.services with
  | .ok response services =>
    .ok response { state with services, transactions := state.transactions ++ [true] }
  | .error failure services =>
    .error (.transaction failure)
      { state with services, transactions := state.transactions ++ [false] }

/-- An answer that does not depend on the state; an unexpected response has its own words. -/
def expect {α : Type} (answer : Except String (Option α)) (describe : RunFailure → RunFailure)
    (unexpected : RunFailure) : Except RunFailure α :=
  match answer with
  | .error text => .error (describe (.message text))
  | .ok none => .error unexpected
  | .ok (some a) => .ok a

def bindAttempt (command : StepAttemptCommand Route) : RunM Route Unit := do
  match ← callAttempts world command with
  | .attempt _ => return ()
  | _ => throw (.message "step attempt service returned a non-attempt mutation response")

def abortBeforeDispatch (rootExecutionId attemptId : String) (reservationId : Option String)
    (outcome : AttemptOutcome) : RunM Route (StepAttemptRecord StepPlan Route) := do
  match ← callTransactions world
    (.abortBeforeDispatch rootExecutionId reservationId attemptId outcome) with
  | .aborted _ attempt => return attempt
  | .settled _ _ =>
    throw (.message "step transaction service returned settlement to pre-dispatch abort")

def settleStep (rootExecutionId reservationId : String) (actual : BudgetActual)
    (attemptId : String) (outcome : AttemptOutcome) :
    RunM Route (StepAttemptRecord StepPlan Route) := do
  match ← callTransactions world
    (.settle rootExecutionId reservationId actual attemptId outcome) with
  | .settled _ attempt => return attempt
  | .aborted _ _ =>
    throw (.message "step transaction service returned abort to terminal settlement")

def failBeforeDispatch {α : Type} (attribution : UsageAttribution)
    (reservationId : Option String) (cause : RunFailure) : RunM Route α := do
  let _ ← tryCatch
    (abortBeforeDispatch world attribution.rootExecutionId attribution.attemptId reservationId
      .failed)
    fun failure => throw (.cleanup cause failure)
  throw cause

def helperParentReservation (attribution : UsageAttribution) : RunM Route (Option String) :=
  if isHelperAttempt attribution.kind then
    match attribution.parentAttemptId with
    | none => throw (.message "helper attempt requires a parent attempt")
    | some parentAttemptId => do
      match ← callAttempts world (.get parentAttemptId) with
      | .attemptLookup (some parent) =>
        check (ensure (parent.attribution.rootExecutionId = attribution.rootExecutionId)
          (.message "helper parent belongs to a different root execution"))
        match parent.reservationId with
        | none => throw (.message "helper parent attempt has no active budget reservation")
        | some reservationId => return some reservationId
      | _ => throw (.message ("unknown helper parent attempt: " ++ parentAttemptId))
  else return none

def validateRetryLineage (attribution : UsageAttribution) (plan : StepPlan) : RunM Route Unit :=
  if attribution.kind ≠ .retry then return ()
  else match attribution.parentAttemptId with
    | none => throw (.message "planned retry requires a parent attempt")
    | some parent => do
      match ← callAttempts world (.listRoot attribution.rootExecutionId) with
      | .attempts attempts =>
        match lineageVerdict (attempts.length + 1) attempts parent plan with
        | none => throw .diverges
        | some verdict => check (verdict.mapError .message)
      | _ => throw (.message "step attempt service returned a non-list response")

end Calls

section Run
variable (world : World Route Output) (request : PlannedStepRequest)

def reservationId : String := "attempt/" ++ request.attribution.attemptId

/-- The checks before the attempt is created, with the plan and the reservation that a helper
draws on. -/
def planStep : RunM Route (StepPlan × Option String) := do
  check (ensure (isSupportedAttemptKind request.attribution.kind)
    (.message ("planned step runner does not support " ++ request.attribution.kind.debug ++
      " attempts")))
  check (ensure (request.attribution.policyRevision = request.policy.revision)
    (.message "planned step attribution policy revision does not match UsagePolicy"))
  let execution ← check (expect world.execution id
    (.message ("unknown planned step execution: " ++ request.attribution.executionId)))
  check (ensure (execution = .active)
    (.message ("planned step execution is not active: " ++ request.attribution.executionId)))
  let parentReservationId ← helperParentReservation world request.attribution
  let remaining ← callResources world (match parentReservationId with
    | some reservationId => .remainingWithin request.attribution.rootExecutionId reservationId
    | none => .remaining request.attribution.rootExecutionId)
  match remaining with
  | .remaining remaining =>
    let plan ← check ((request.policy.plan
      ⟨request.task,execution,remaining,request.nowMs⟩).mapError .planning)
    check (validateTools request.tools plan)
    validateRetryLineage world request.attribution plan
    return (plan,parentReservationId)
  | _ => throw (.message "execution resource service returned a non-remaining response")

def createAttempt (plan : StepPlan) : RunM Route Unit := do
  match ← callAttempts world (.create request.attribution plan) with
  | .attempt _ => return ()
  | _ => throw (.message "step attempt service returned a non-attempt response to create")

/-- A step before the dispatch: where it fails, the attempt is aborted and the reservation, if it
has been made, is released. -/
def orAbort {α : Type} (reservationId : Option String) (describe : RunFailure → RunFailure)
    (x : RunM Route α) : RunM Route α :=
  tryCatch x fun failure =>
    failBeforeDispatch world request.attribution reservationId (describe failure)

def reserveBudget (plan : StepPlan) (parentReservationId : Option String) : RunM Route Unit := do
  let purpose ← check (reservationPurpose request.attribution.kind)
  let reserved ← orAbort world request none (.because "budget reservation failed: ")
    (callResources world (.reserve request.attribution.rootExecutionId
      { reservationId := reservationId request
        parentReservationId
        policyRevision := plan.policyRevision
        purpose
        budget := plan.reservation
        attempts := 1 }))
  match reserved with
  | .rootBudget _ => return ()
  | _ =>
    failBeforeDispatch world request.attribution (some (reservationId request))
      (.message "execution resource service returned a non-budget response to reserve")

/-- A step after the reservation. -/
def guarded {α : Type} (x : RunM Route α) : RunM Route α :=
  orAbort world request (some (reservationId request)) id x

/-- The projection that is bound, and the input that goes to the model. -/
def bindContext (plan : StepPlan) : RunM Route Bytes :=
  if isHelperAttempt request.attribution.kind then do
    guarded world request
      (bindAttempt world (.bindProjection request.attribution.attemptId ⟨0,0⟩))
    return request.input
  else do
    let projection ← guarded world request (check (expect (world.admitted plan)
      (.because "context admission failed: ")
      (.message "context service returned a non-admission response")))
    guarded world request
      (bindAttempt world (.bindProjection request.attribution.attemptId projection))
    let (input,materialized) ← guarded world request (check (expect
      (world.materialize request.input projection) (.because "context materialization failed: ")
      (.message "context service returned a non-materialization response")))
    guarded world request (check (ensure (materialized = projection)
      (.message "context materialization changed the admitted projection")))
    return input

def settleAfterDispatch (plan : StepPlan) (outcome : AttemptOutcome) : RunM Route Unit := do
  let _ ← settleStep world request.attribution.rootExecutionId (reservationId request)
    (conservativeActual plan) request.attribution.attemptId outcome

/-- The call to the model. -/
def invokePrepared (prepared : PreparedDispatch Route) :
    RunM Route (Except String (Option Output)) := do
  modify fun state =>
    { state with invocations := state.invocations ++ [⟨prepared,state.services⟩] }
  return world.infer prepared

def dispatch (plan : StepPlan) (prepared : PreparedDispatch Route) :
    RunM Route (Completed Route Output) := do
  match ← invokePrepared world prepared with
  | .error text =>
    settleAfterDispatch world request plan .failed
    throw (.because "prepared model dispatch failed: " (.message text))
  | .ok none =>
    settleAfterDispatch world request plan .failed
    throw (.message "model dispatch returned preflight readiness after dispatch")
  | .ok (some response) =>
    let attempt ← settleStep world request.attribution.rootExecutionId (reservationId request)
      (conservativeActual plan) request.attribution.attemptId .succeeded
    return ⟨attempt,response,conservativeActual plan,.reservedMaximum⟩

variable [DecidableEq Route]

/-- What follows the reservation, up to the dispatch. -/
def prepareDispatch (plan : StepPlan) : RunM Route (PreparedDispatch Route) := do
  guarded world request (bindAttempt world
    (.bindReservation request.attribution.attemptId (reservationId request)))
  let decision ← guarded world request (check (expect (world.routing plan.routing)
    (.because "model routing failed: ")
    (.message "model routing returned a non-decision response")))
  guarded world request
    (bindAttempt world (.bindRoute request.attribution.attemptId decision))
  let input ← bindContext world request plan
  let prepared ← guarded world request (check (expect (world.prepare decision input)
    (.because "resolved model preflight failed: ")
    (.message "model dispatch returned inference during preflight")))
  guarded world request (check (ensure (prepared.decision = decision)
    (.message "model dispatch preflight changed the resolved decision")))
  guarded world request (bindAttempt world (.markDispatched request.attribution.attemptId
    ("dispatch/" ++ request.attribution.attemptId)))
  return prepared

def run : RunM Route (Completed Route Output) := do
  let (plan,parentReservationId) ← planStep world request
  createAttempt world request plan
  reserveBudget world request plan parentReservationId
  let prepared ← prepareDispatch world request plan
  dispatch world request plan prepared

end Run

end PhenixConductor.StepRunner
