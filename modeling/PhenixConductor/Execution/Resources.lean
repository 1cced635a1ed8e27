import PhenixConductor.Execution.Delegation
import PhenixConductor.Execution.Ledger

/-! # The resources of executions

The ledgers, the delegated tasks and the reservations that the tasks are made on.
-/
namespace PhenixConductor.Execution
open Collections DelegatedTaskStore

structure TaskReservationBinding where
  rootExecutionId : String
  reservationId : String
deriving DecidableEq

structure ExecutionResourceState where
  ledgers : BTreeMap String RootBudgetLedger
  delegated : DelegatedTaskStore
  taskReservations : BTreeMap String TaskReservationBinding
deriving DecidableEq

inductive ExecutionResourceError
  | duplicateRootBudget (rootExecutionId : String)
  | unknownRootBudget (rootExecutionId : String)
  | duplicateTaskReservation (taskId : String)
  | unknownTaskReservation (taskId : String)
  | childLimitExceeded (parentExecution : String) (allowed : U32)
  | reservationPurposeMismatch
  | reservationPolicyMismatch
  | reservationBudgetMismatch
  | reservationAttemptMismatch
  | budget (error : BudgetLedgerError)
  | task (error : DelegatedTaskStoreError)

def validateReservationBinding (reservation : BudgetReservationRequest)
    (binding : DelegationTaskBinding) : Except ExecutionResourceError Unit :=
  if reservation.purpose ≠ .delegation then .error .reservationPurposeMismatch
  else if reservation.policyRevision ≠ binding.parentPolicyRevision then
    .error .reservationPolicyMismatch
  else if reservation.budget ≠ binding.resources.budget then .error .reservationBudgetMismatch
  else if reservation.attempts ≠ binding.resources.attempts then
    .error .reservationAttemptMismatch
  else .ok ()

abbrev ResourceM := EStateM ExecutionResourceError ExecutionResourceState

namespace ExecutionResourceState
variable (self : ExecutionResourceState)

def empty : ExecutionResourceState := ⟨.empty,⟨.empty⟩,.empty⟩

def putLedger (rootExecutionId : String) (ledger : RootBudgetLedger) : ExecutionResourceState :=
  { self with ledgers := self.ledgers.insert rootExecutionId ledger }

def ledger (rootExecutionId : String) : Except ExecutionResourceError RootBudgetLedger :=
  match self.ledgers.get? rootExecutionId with
  | none => .error (.unknownRootBudget rootExecutionId)
  | some ledger => .ok ledger

def taskReservation (taskId : String) : Except ExecutionResourceError TaskReservationBinding :=
  match self.taskReservations.get? taskId with
  | none => .error (.unknownTaskReservation taskId)
  | some binding => .ok binding

def newRoot (ledger : RootBudgetLedger) : Except ExecutionResourceError RootBudgetLedger :=
  if ledger.rootExecutionId ∈ self.ledgers.keys then
    .error (.duplicateRootBudget ledger.rootExecutionId)
  else .ok ledger

/-- What `admit_delegated` finds and makes before it changes anything: the ledger with the
reservation, the record of the task and the store with it. -/
def admissible (rootExecutionId : String) (reservation : BudgetReservationRequest)
    (task : WorkerTaskRecord) (binding : DelegationTaskBinding)
    (parentAuthority : ExecutionAuthority) (policy : DelegationResourcePolicy) (nowMs : U64) :
    Except ExecutionResourceError
      (RootBudgetLedger × DelegatedWorkerTaskRecord × DelegatedTaskStore) := do
  validateReservationBinding reservation binding
  if task.id ∈ self.taskReservations.keys then .error (.duplicateTaskReservation task.id)
  else if policy.maxChildren.val ≤ self.delegated.childCount task.parentExecution then
    .error (.childLimitExceeded task.parentExecution policy.maxChildren)
  else do
    let ledger ← self.ledger rootExecutionId
    let reserved ← (onCopy (Execution.reserve reservation) ledger).mapError .budget
    let created ← (onCopy (create task binding parentAuthority policy nowMs)
      self.delegated).mapError .task
    return (reserved.2,created)

/-- What `complete_delegated` and `fail_delegated` find and make: the binding of the task, the
ledger with the settled reservation, the record that the store is left with and the store. -/
def closable (taskId : String) (close : StoreM DelegatedWorkerTaskRecord) (actual : BudgetActual) :
    Except ExecutionResourceError
      (TaskReservationBinding × RootBudgetLedger × DelegatedWorkerTaskRecord ×
        DelegatedTaskStore) := do
  let reservation ← self.taskReservation taskId
  let ledger ← self.ledger reservation.rootExecutionId
  let closed ← (onCopy close self.delegated).mapError .task
  let settled ← (onCopy (Execution.settle reservation.reservationId actual) ledger).mapError .budget
  return (reservation,settled.2,closed)

end ExecutionResourceState

section Methods

def registerRootBudget (ledger : RootBudgetLedger) : ResourceM RootBudgetLedger :=
  answered (·.newRoot ledger) fun self ledger => self.putLedger ledger.rootExecutionId ledger

/-- A call on a ledger in its place, also when the call fails. -/
def onLedger (rootExecutionId : String) (call : LedgerCall) : ResourceM RootBudgetLedger :=
  fun self => match self.ledgers.get? rootExecutionId with
    | none => .error (.unknownRootBudget rootExecutionId) self
    | some ledger => match call.perform ledger with
      | .ok _ next => .ok next (self.putLedger rootExecutionId next)
      | .error error next => .error (.budget error) (self.putLedger rootExecutionId next)

def reserveBudget (rootExecutionId : String) (reservation : BudgetReservationRequest) :
    ResourceM RootBudgetLedger :=
  onLedger rootExecutionId (.reserve reservation)

def settleReservation (rootExecutionId reservationId : String) (actual : BudgetActual) :
    ResourceM RootBudgetLedger :=
  onLedger rootExecutionId (.settle reservationId actual)

def releaseReservation (rootExecutionId reservationId : String) : ResourceM RootBudgetLedger :=
  onLedger rootExecutionId (.release reservationId)

def admitDelegated (rootExecutionId : String) (reservation : BudgetReservationRequest)
    (task : WorkerTaskRecord) (binding : DelegationTaskBinding)
    (parentAuthority : ExecutionAuthority) (policy : DelegationResourcePolicy) (nowMs : U64) :
    ResourceM DelegatedWorkerTaskRecord := do
  let self ← get
  let (ledger,record,delegated) ← check
    (self.admissible rootExecutionId reservation task binding parentAuthority policy nowMs)
  set { ledgers := self.ledgers.insert rootExecutionId ledger
        delegated
        taskReservations := self.taskReservations.insert task.id
          ⟨rootExecutionId,reservation.reservationId⟩ : ExecutionResourceState }
  return record

/-- The store works in its place. -/
def onDelegated (x : StoreM DelegatedWorkerTaskRecord) : ResourceM DelegatedWorkerTaskRecord :=
  fun self => match x self.delegated with
    | .ok record delegated => .ok record { self with delegated }
    | .error error delegated => .error (.task error) { self with delegated }

def startDelegated (taskId executionId : String) (nowMs : U64) :
    ResourceM DelegatedWorkerTaskRecord :=
  onDelegated (start taskId executionId nowMs)

def closeDelegated (taskId : String) (close : StoreM DelegatedWorkerTaskRecord)
    (actual : BudgetActual) : ResourceM DelegatedWorkerTaskRecord := do
  let self ← get
  let (reservation,ledger,record,delegated) ← check (self.closable taskId close actual)
  set { self with
    ledgers := self.ledgers.insert reservation.rootExecutionId ledger
    delegated }
  return record

def completeDelegated (taskId executionId : String) (result : DelegatedWorkerResult)
    (actual : BudgetActual) : ResourceM DelegatedWorkerTaskRecord :=
  closeDelegated taskId (complete taskId executionId result) actual

def failDelegated (taskId executionId cause : String) (actual : BudgetActual) :
    ResourceM DelegatedWorkerTaskRecord :=
  closeDelegated taskId (fail taskId executionId cause) actual

end Methods

inductive ExecutionResourceCommand
  | registerRootBudget (ledger : RootBudgetLedger)
  | reserve (rootExecutionId : String) (reservation : BudgetReservationRequest)
  | settleReservation (rootExecutionId reservationId : String) (actual : BudgetActual)
  | releaseReservation (rootExecutionId reservationId : String)
  | remaining (rootExecutionId : String)
  | remainingWithin (rootExecutionId reservationId : String)
  | admitDelegated (rootExecutionId : String) (reservation : BudgetReservationRequest)
      (task : WorkerTaskRecord) (binding : DelegationTaskBinding)
      (parentAuthority : ExecutionAuthority) (policy : DelegationResourcePolicy) (nowMs : U64)
  | startDelegated (taskId executionId : String) (nowMs : U64)
  | completeDelegated (taskId executionId : String) (result : DelegatedWorkerResult)
      (actual : BudgetActual)
  | failDelegated (taskId executionId cause : String) (actual : BudgetActual)
  | getDelegated (taskId : String)

inductive ExecutionResourceResponse
  | rootBudget (ledger : RootBudgetLedger)
  | remaining (budget : RemainingBudget)
  | delegatedTask (task : DelegatedWorkerTaskRecord)
  | delegatedTaskLookup (task : Option DelegatedWorkerTaskRecord)

/-- The message of a failed call: a text and the error that is printed behind it. -/
structure ResourceFailure where
  text : String
  cause : Option ExecutionResourceError

/-- The answer and the failure of a method in the words of the service. -/
def described {α : Type} (text : String) (response : α → ExecutionResourceResponse)
    (x : ResourceM α) : EStateM ResourceFailure ExecutionResourceState ExecutionResourceResponse :=
  fun self => match x self with
    | .ok value next => .ok (response value) next
    | .error error next => .error ⟨text,some error⟩ next

def readResources (self : ExecutionResourceState) :
    ExecutionResourceCommand → Except ResourceFailure ExecutionResourceResponse
  | .remaining rootExecutionId => do
    let ledger ← (self.ledger rootExecutionId).mapError
      fun error => ⟨"execution resource remaining failed: ",some error⟩
    return .remaining ledger.remaining
  | .remainingWithin rootExecutionId reservationId => do
    let ledger ← (self.ledger rootExecutionId).mapError
      fun error => ⟨"execution resource nested remaining failed: ",some error⟩
    let budget ← (ledger.remainingWithin reservationId).mapError
      fun error => ⟨"execution resource nested remaining failed: ",some (.budget error)⟩
    return .remaining budget
  | .getDelegated taskId => .ok (.delegatedTaskLookup (self.delegated.tasks.get? taskId))
  | _ => .error ⟨"mutating execution resource command reached read path",none⟩

def readOnly (command : ExecutionResourceCommand) :
    EStateM ResourceFailure ExecutionResourceState ExecutionResourceResponse := do
  let self ← get
  check (readResources self command)

/-- The service without the read and the commit of the durable value. -/
def ExecutionResourceCommand.perform : ExecutionResourceCommand →
    EStateM ResourceFailure ExecutionResourceState ExecutionResourceResponse
  | .registerRootBudget ledger =>
    described "root budget registration failed: " .rootBudget (Execution.registerRootBudget ledger)
  | .reserve rootExecutionId reservation =>
    described "root budget reservation failed: " .rootBudget
      (reserveBudget rootExecutionId reservation)
  | .settleReservation rootExecutionId reservationId actual =>
    described "root budget settlement failed: " .rootBudget
      (Execution.settleReservation rootExecutionId reservationId actual)
  | .releaseReservation rootExecutionId reservationId =>
    described "root budget release failed: " .rootBudget
      (Execution.releaseReservation rootExecutionId reservationId)
  | .admitDelegated rootExecutionId reservation task binding parentAuthority policy nowMs =>
    described "delegated resource admission failed: " .delegatedTask
      (Execution.admitDelegated rootExecutionId reservation task binding parentAuthority policy
        nowMs)
  | .startDelegated taskId executionId nowMs =>
    described "delegated resource start failed: " .delegatedTask
      (Execution.startDelegated taskId executionId nowMs)
  | .completeDelegated taskId executionId result actual =>
    described "delegated resource completion failed: " .delegatedTask
      (Execution.completeDelegated taskId executionId result actual)
  | .failDelegated taskId executionId cause actual =>
    if Configuration.isBlank cause then
      throw ⟨"delegated resource failure cause must not be empty",none⟩
    else described "delegated resource failure failed: " .delegatedTask
      (Execution.failDelegated taskId executionId cause actual)
  | command => readOnly command

namespace ExecutionResourceState

def step (self : ExecutionResourceState) (command : ExecutionResourceCommand) :
    ExecutionResourceState :=
  after command.perform self

def run (self : ExecutionResourceState) (commands : List ExecutionResourceCommand) :
    ExecutionResourceState :=
  runAll step self commands

end ExecutionResourceState

end PhenixConductor.Execution
