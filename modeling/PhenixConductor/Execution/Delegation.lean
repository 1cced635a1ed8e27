import PhenixConductor.Execution.Task

/-! # Delegated tasks

A delegated task is a worker task with the resources that its parent has set aside for it.
-/
namespace PhenixConductor.Execution
open Collections

structure DelegationResourcePolicy where
  enabled : Bool
  maxDepth : U32
  maxChildren : U32
  maxAttempts : U32
  maxResultBytes : U64
deriving DecidableEq

structure DelegatedWorkResources where
  authority : ExecutionAuthority
  budget : BudgetReservation
  deadlineAtMs : U64
  depth : U32
  attempts : U32
  maxResultBytes : U64
deriving DecidableEq

structure DelegationTaskBinding where
  parentPolicyRevision : String
  resources : DelegatedWorkResources
deriving DecidableEq

structure ExactContextReference where
  resourceId : String
  revision : String
deriving DecidableEq

structure DelegatedWorkerResult where
  evidence : List ExactContextReference
  encodedResultBytes : U64
deriving DecidableEq

structure DelegatedWorkerTaskRecord where
  task : WorkerTaskRecord
  binding : DelegationTaskBinding
  result : Option DelegatedWorkerResult
deriving DecidableEq

inductive DelegationAdmissionError
  | disabled
  | depthExceeded (requested allowed : U32)
  | attemptLimitExceeded (requested allowed : U32)
  | resultLimitExceeded (requested allowed : U64)
  | deadlineExceeded (deadlineAtMs nowMs : U64)

inductive DelegatedTaskStoreError
  | duplicateTask (taskId : String)
  | unknownTask (taskId : String)
  | authorityExpanded
  | bindingAuthorityMismatch
  | notRunnable (taskId : String)
  | invalidState (taskId : String)
  | executionMismatch (taskId : String)
  | admission (error : DelegationAdmissionError)

namespace DelegatedWorkResources
variable (self : DelegatedWorkResources)

def validatePolicy (policy : DelegationResourcePolicy) : Except DelegationAdmissionError Unit :=
  if !policy.enabled then .error .disabled
  else if self.depth > policy.maxDepth then .error (.depthExceeded self.depth policy.maxDepth)
  else if self.attempts > policy.maxAttempts then
    .error (.attemptLimitExceeded self.attempts policy.maxAttempts)
  else if self.maxResultBytes > policy.maxResultBytes then
    .error (.resultLimitExceeded self.maxResultBytes policy.maxResultBytes)
  else .ok ()

def validateDeadline (nowMs : U64) : Except DelegationAdmissionError Unit :=
  if nowMs ≥ self.deadlineAtMs then .error (.deadlineExceeded self.deadlineAtMs nowMs) else .ok ()

end DelegatedWorkResources

namespace DelegatedWorkerResult
variable (self : DelegatedWorkerResult)

def validateAgainst (binding : DelegationTaskBinding) : Except DelegationAdmissionError Unit :=
  if self.encodedResultBytes > binding.resources.maxResultBytes then
    .error (.resultLimitExceeded self.encodedResultBytes binding.resources.maxResultBytes)
  else .ok ()

def resultRefs : List String :=
  self.evidence.map fun reference => reference.resourceId ++ "@" ++ reference.revision

end DelegatedWorkerResult

def DelegatedWorkerTaskRecord.withState (record : DelegatedWorkerTaskRecord)
    (state : WorkerTaskState) : DelegatedWorkerTaskRecord :=
  { record with task := { record.task with state } }

structure DelegatedTaskStore where
  tasks : BTreeMap String DelegatedWorkerTaskRecord
deriving DecidableEq

namespace DelegatedTaskStore
variable (self : DelegatedTaskStore)

def childCount (parentExecution : String) : ℕ :=
  (self.tasks.values.filter (·.task.parentExecution = parentExecution)).length

/-- The identities of the completed tasks, that `runnable` collects first. -/
def completed : List String :=
  self.tasks.values.filterMap fun record =>
    if record.task.state.isCompleted then some record.task.id else none

def runnable : List String :=
  (self.tasks.values.filter fun record => record.task.state = .pending ∧
    record.task.dependsOn.keys.all (· ∈ self.completed)).map (·.task.id)

def known (taskId : String) : Except DelegatedTaskStoreError DelegatedWorkerTaskRecord :=
  match self.tasks.get? taskId with
  | none => .error (.unknownTask taskId)
  | some record => .ok record

/-- The checks of `create`, and the record that it makes. -/
def creatable (task : WorkerTaskRecord) (binding : DelegationTaskBinding)
    (parentAuthority : ExecutionAuthority) (policy : DelegationResourcePolicy) (nowMs : U64) :
    Except DelegatedTaskStoreError DelegatedWorkerTaskRecord :=
  if task.id ∈ self.tasks.keys then .error (.duplicateTask task.id)
  else if task.delegatedAuthority ≠ binding.resources.authority then
    .error .bindingAuthorityMismatch
  else if !task.delegatedAuthority.capabilities.keys.all
      (· ∈ parentAuthority.capabilities.keys) then .error .authorityExpanded
  else do
    (binding.resources.validatePolicy policy).mapError .admission
    (binding.resources.validateDeadline nowMs).mapError .admission
    return ⟨task,binding,none⟩

/-- The checks of `start`, and the record that it leaves. -/
def startable (taskId executionId : String) (nowMs : U64) :
    Except DelegatedTaskStoreError DelegatedWorkerTaskRecord :=
  if taskId ∉ self.runnable then .error (.notRunnable taskId)
  else do
    let record ← self.known taskId
    (record.binding.resources.validateDeadline nowMs).mapError .admission
    return record.withState (.running executionId)

/-- The check that `complete` and `fail` make on the state of the task. -/
def runningOn (record : DelegatedWorkerTaskRecord) (taskId executionId : String) :
    Except DelegatedTaskStoreError Unit :=
  match record.task.state with
  | .running active => if active = executionId then .ok () else .error (.executionMismatch taskId)
  | .pending | .completed _ _ | .failed _ _ => .error (.invalidState taskId)

def completable (taskId executionId : String) (result : DelegatedWorkerResult) :
    Except DelegatedTaskStoreError DelegatedWorkerTaskRecord := do
  let record ← self.known taskId
  runningOn record taskId executionId
  (result.validateAgainst record.binding).mapError .admission
  return { record.withState (.completed executionId result.resultRefs) with result := some result }

def failable (taskId executionId cause : String) :
    Except DelegatedTaskStoreError DelegatedWorkerTaskRecord := do
  let record ← self.known taskId
  runningOn record taskId executionId
  return record.withState (.failed executionId cause)

def put (taskId : String) (record : DelegatedWorkerTaskRecord) : DelegatedTaskStore :=
  ⟨self.tasks.insert taskId record⟩

end DelegatedTaskStore

abbrev StoreM := EStateM DelegatedTaskStoreError DelegatedTaskStore

namespace DelegatedTaskStore

def create (task : WorkerTaskRecord) (binding : DelegationTaskBinding)
    (parentAuthority : ExecutionAuthority) (policy : DelegationResourcePolicy) (nowMs : U64) :
    StoreM DelegatedWorkerTaskRecord :=
  answered (·.creatable task binding parentAuthority policy nowMs) (·.put task.id)

def start (taskId executionId : String) (nowMs : U64) : StoreM DelegatedWorkerTaskRecord :=
  answered (·.startable taskId executionId nowMs) (·.put taskId)

def complete (taskId executionId : String) (result : DelegatedWorkerResult) :
    StoreM DelegatedWorkerTaskRecord :=
  answered (·.completable taskId executionId result) (·.put taskId)

def fail (taskId executionId cause : String) : StoreM DelegatedWorkerTaskRecord :=
  answered (·.failable taskId executionId cause) (·.put taskId)

end DelegatedTaskStore

end PhenixConductor.Execution
