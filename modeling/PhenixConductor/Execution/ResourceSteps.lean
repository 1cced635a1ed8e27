import PhenixConductor.Execution.Resources

/-! # What a resource command can do

A command on a ledger puts one record of it.
-/
namespace PhenixConductor.Execution
open Collections DelegatedTaskStore ExecutionResourceState

/-- The task is waiting or running. -/
def WorkerTaskState.isOpen : WorkerTaskState → Bool
  | .pending => true
  | .running _ => true
  | .completed _ _ => false
  | .failed _ _ => false

namespace DelegatedTaskStore
variable {self : DelegatedTaskStore}

/-- A task is stored under its own identity. -/
def Named (store : DelegatedTaskStore) : Prop :=
  ∀ id record, store.tasks.get? id = some record → record.task.id = id

@[simp] theorem get?_put (taskId j : String) (record : DelegatedWorkerTaskRecord) :
    (self.put taskId record).tasks.get? j =
      if j = taskId then some record else self.tasks.get? j :=
  BTreeMap.get?_insert _ _ _ _

/-- The record of the task after a move of its state. -/
structure Moves (before after : DelegatedWorkerTaskRecord) : Prop where
  task : ∃ state, after.task = { before.task with state }
  binding : after.binding = before.binding

variable {taskId : String}

theorem Named.put (h : self.Named) {before after : DelegatedWorkerTaskRecord}
    (hget : self.tasks.get? taskId = some before) (hmoves : Moves before after) :
    (self.put taskId after).Named := by
  intro id record hrecord
  rw [get?_put] at hrecord
  split_ifs at hrecord with hid
  · cases hrecord
    obtain ⟨state,htask⟩ := hmoves.task
    rw [htask, hid]
    exact h taskId before hget
  · exact h id record hrecord

variable {record : DelegatedWorkerTaskRecord}

theorem known_eq_ok : self.known taskId = .ok record ↔ self.tasks.get? taskId = some record := by
  unfold known
  cases self.tasks.get? taskId <;> simp

variable {executionId : String}

theorem runningOn_eq_ok :
    runningOn record taskId executionId = .ok () ↔ record.task.state = .running executionId := by
  unfold runningOn
  cases record.task.state with
  | running active =>
    by_cases h : active = executionId
    · simp [h]
    · simp [h]
  | pending | completed | failed => simp

theorem creatable_eq_ok {task : WorkerTaskRecord} {binding : DelegationTaskBinding}
    {parentAuthority : ExecutionAuthority} {policy : DelegationResourcePolicy} {nowMs : U64}
    (h : self.creatable task binding parentAuthority policy nowMs = .ok record) :
    task.id ∉ self.tasks.keys ∧ record = ⟨task,binding,none⟩ := by
  unfold creatable at h
  split_ifs at h with hfresh
  obtain ⟨-,-,h⟩ := bind_eq_ok.mp h
  obtain ⟨-,-,h⟩ := bind_eq_ok.mp h
  cases h
  exact ⟨hfresh,rfl⟩

theorem mem_runnable (h : taskId ∈ self.runnable) :
    ∃ id record, self.tasks.get? id = some record ∧ record.task.id = taskId ∧
      record.task.state = .pending := by
  obtain ⟨record,hmem,rfl⟩ := List.mem_map.mp h
  obtain ⟨hvalue,hpending⟩ := List.mem_filter.mp hmem
  obtain ⟨id,hget⟩ := self.tasks.mem_values.mp hvalue
  exact ⟨id,record,hget,rfl,(of_decide_eq_true hpending).1⟩

theorem startable_eq_ok {nowMs : U64} (hnamed : self.Named)
    (h : self.startable taskId executionId nowMs = .ok record) :
    ∃ before, self.tasks.get? taskId = some before ∧ before.task.state = .pending ∧
      record = before.withState (.running executionId) := by
  unfold startable at h
  split_ifs at h with hrunnable
  obtain ⟨before,hknown,h⟩ := bind_eq_ok.mp h
  obtain ⟨-,-,h⟩ := bind_eq_ok.mp h
  cases h
  have hget := known_eq_ok.mp hknown
  obtain ⟨id,found,hfound,hid,hpending⟩ := mem_runnable hrunnable
  have heq : id = taskId := (hnamed id found hfound).symm.trans hid
  cases (heq ▸ hfound).symm.trans hget
  exact ⟨before,hget,hpending,rfl⟩

/-- The end of a task moves it from running to a state that is not open. -/
def Ends (store : DelegatedTaskStore) (taskId : String) (record : DelegatedWorkerTaskRecord) :
    Prop :=
  ∃ before executionId, store.tasks.get? taskId = some before ∧
    before.task.state = .running executionId ∧ Moves before record ∧
    record.task.state.isOpen = false

theorem completable_eq_ok {result : DelegatedWorkerResult}
    (h : self.completable taskId executionId result = .ok record) : self.Ends taskId record := by
  obtain ⟨before,hknown,h⟩ := bind_eq_ok.mp h
  obtain ⟨⟨⟩,hrunning,h⟩ := bind_eq_ok.mp h
  obtain ⟨-,-,h⟩ := bind_eq_ok.mp h
  cases h
  exact ⟨before,executionId,known_eq_ok.mp hknown,runningOn_eq_ok.mp hrunning,⟨⟨_,rfl⟩,rfl⟩,rfl⟩

theorem failable_eq_ok {cause : String} (h : self.failable taskId executionId cause = .ok record) :
    self.Ends taskId record := by
  obtain ⟨before,hknown,h⟩ := bind_eq_ok.mp h
  obtain ⟨⟨⟩,hrunning,h⟩ := bind_eq_ok.mp h
  cases h
  exact ⟨before,executionId,known_eq_ok.mp hknown,runningOn_eq_ok.mp hrunning,⟨⟨_,rfl⟩,rfl⟩,rfl⟩

end DelegatedTaskStore

namespace ExecutionResourceState
variable {self : ExecutionResourceState}

variable {rootExecutionId : String}

theorem ledger_eq_ok {ledger : RootBudgetLedger} : self.ledger rootExecutionId = .ok ledger ↔
      self.ledgers.get? rootExecutionId = some ledger := by
  unfold ExecutionResourceState.ledger
  cases self.ledgers.get? rootExecutionId <;> simp

theorem taskReservation_eq_ok {taskId : String} {binding : TaskReservationBinding} :
    self.taskReservation taskId = .ok binding ↔
      self.taskReservations.get? taskId = some binding := by
  unfold taskReservation
  cases self.taskReservations.get? taskId <;> simp

variable {reservation : BudgetReservationRequest} {binding : DelegationTaskBinding}

theorem validateReservationBinding_eq_ok
    (h : validateReservationBinding reservation binding = .ok ()) :
    reservation.budget = binding.resources.budget ∧
      reservation.attempts = binding.resources.attempts ∧
      reservation.policyRevision = binding.parentPolicyRevision := by
  unfold validateReservationBinding at h
  split_ifs at h with hpurpose hpolicy hbudget hattempts
  exact ⟨not_not.mp hbudget,not_not.mp hattempts,not_not.mp hpolicy⟩

/-- A new task on a new reservation of a ledger that exists. -/
structure Admission (before : ExecutionResourceState) (rootExecutionId : String)
    (reservation : BudgetReservationRequest) (task : WorkerTaskRecord)
    (binding : DelegationTaskBinding) (policy : DelegationResourcePolicy)
    (ledger : RootBudgetLedger) : Prop where
  budget : reservation.budget = binding.resources.budget
  attempts : reservation.attempts = binding.resources.attempts
  revision : reservation.policyRevision = binding.parentPolicyRevision
  unreserved : task.id ∉ before.taskReservations.keys
  children : before.delegated.childCount task.parentExecution < policy.maxChildren.val
  found : before.ledgers.get? rootExecutionId = some ledger
  reservable : ledger.reservable reservation = .ok ()
  fresh : task.id ∉ before.delegated.tasks.keys

theorem admissible_eq_ok {task : WorkerTaskRecord} {parentAuthority : ExecutionAuthority}
    {policy : DelegationResourcePolicy} {nowMs : U64}
    {result : RootBudgetLedger × DelegatedWorkerTaskRecord × DelegatedTaskStore}
    (h : self.admissible rootExecutionId reservation task binding parentAuthority policy nowMs = .ok result) :
    ∃ ledger, self.Admission rootExecutionId reservation task binding policy ledger ∧
      result = (ledger.put ⟨reservation,.reserved⟩ reservation.reservationId,⟨task,binding,none⟩,
        self.delegated.put task.id ⟨task,binding,none⟩) := by
  obtain ⟨⟨⟩,hbinding,h⟩ := bind_eq_ok.mp h
  obtain ⟨hbudget,hattempts,hpolicy⟩ := validateReservationBinding_eq_ok hbinding
  split_ifs at h with hunreserved hchildren
  obtain ⟨ledger,hledger,h⟩ := bind_eq_ok.mp h
  obtain ⟨reserved,hreserved,h⟩ := bind_eq_ok.mp h
  obtain ⟨created,hcreated,h⟩ := bind_eq_ok.mp h
  cases h
  have hreserve := mapError_eq_ok.mp hreserved
  unfold Execution.reserve at hreserve
  rw [onCopy_checked] at hreserve
  obtain ⟨⟨⟩,hreservable,rfl⟩ := map_eq_ok.mp hreserve
  have hcreate := mapError_eq_ok.mp hcreated
  unfold create at hcreate
  rw [onCopy_answered] at hcreate
  obtain ⟨record,hcreatable,rfl⟩ := map_eq_ok.mp hcreate
  obtain ⟨hfresh,rfl⟩ := creatable_eq_ok hcreatable
  exact ⟨ledger,⟨hbudget,hattempts,hpolicy,hunreserved,not_le.mp hchildren,
    ledger_eq_ok.mp hledger,hreservable,hfresh⟩,rfl⟩

/-- The end of a task that is bound to a reservation which can be settled. -/
structure Closing (before : ExecutionResourceState) (taskId : String) (actual : BudgetActual)
    (binding : TaskReservationBinding) (ledger : RootBudgetLedger)
    (reservation : BudgetReservationRecord) (record : DelegatedWorkerTaskRecord) : Prop where
  bound : before.taskReservations.get? taskId = some binding
  found : before.ledgers.get? binding.rootExecutionId = some ledger
  settleable : ledger.settleable binding.reservationId actual = .ok reservation
  ends : before.delegated.Ends taskId record

theorem closable_eq_ok {taskId : String} {actual : BudgetActual}
    {f : DelegatedTaskStore → Except DelegatedTaskStoreError DelegatedWorkerTaskRecord}
    {result : TaskReservationBinding × RootBudgetLedger × DelegatedWorkerTaskRecord ×
      DelegatedTaskStore}
    (hends : ∀ record, f self.delegated = .ok record → self.delegated.Ends taskId record)
    (h : self.closable taskId (answered f (·.put taskId)) actual = .ok result) :
    ∃ binding ledger reservation record,
      self.Closing taskId actual binding ledger reservation record ∧
      result = (binding,ledger.put { reservation with state := .settled actual }
        binding.reservationId,record,self.delegated.put taskId record) := by
  obtain ⟨binding,hbinding,h⟩ := bind_eq_ok.mp h
  obtain ⟨ledger,hledger,h⟩ := bind_eq_ok.mp h
  obtain ⟨closed,hclosed,h⟩ := bind_eq_ok.mp h
  obtain ⟨settled,hsettled,h⟩ := bind_eq_ok.mp h
  cases h
  have hclose := mapError_eq_ok.mp hclosed
  rw [onCopy_answered] at hclose
  obtain ⟨record,hrecord,rfl⟩ := map_eq_ok.mp hclose
  have hsettle := mapError_eq_ok.mp hsettled
  unfold Execution.settle at hsettle
  rw [onCopy_checked] at hsettle
  obtain ⟨reservation,hsettleable,rfl⟩ := map_eq_ok.mp hsettle
  exact ⟨binding,ledger,reservation,record,⟨taskReservation_eq_ok.mp hbinding,
    ledger_eq_ok.mp hledger,hsettleable,hends record hrecord⟩,rfl⟩

/-- The state with the task and its reservation. -/
def admitted (self : ExecutionResourceState) (rootExecutionId : String)
    (reservation : BudgetReservationRequest) (task : WorkerTaskRecord)
    (binding : DelegationTaskBinding) (ledger : RootBudgetLedger) : ExecutionResourceState where
  ledgers := self.ledgers.insert rootExecutionId
    (ledger.put ⟨reservation,.reserved⟩ reservation.reservationId)
  delegated := self.delegated.put task.id ⟨task,binding,none⟩
  taskReservations := self.taskReservations.insert task.id
    ⟨rootExecutionId,reservation.reservationId⟩

/-- The state with the task ended and its reservation settled. -/
def close (self : ExecutionResourceState) (taskId : String) (actual : BudgetActual)
    (binding : TaskReservationBinding) (ledger : RootBudgetLedger)
    (reservation : BudgetReservationRecord) (record : DelegatedWorkerTaskRecord) :
    ExecutionResourceState where
  ledgers := self.ledgers.insert binding.rootExecutionId
    (ledger.put { reservation with state := .settled actual } binding.reservationId)
  delegated := self.delegated.put taskId record
  taskReservations := self.taskReservations

def putTask (self : ExecutionResourceState) (taskId : String)
    (record : DelegatedWorkerTaskRecord) : ExecutionResourceState :=
  { self with delegated := self.delegated.put taskId record }

end ExecutionResourceState

/-- The ledger that the command works on in its place, and the call. -/
def ExecutionResourceCommand.ledgerCall :
    ExecutionResourceCommand → Option (String × LedgerCall)
  | .reserve rootExecutionId reservation => some (rootExecutionId,.reserve reservation)
  | .settleReservation rootExecutionId reservationId actual =>
    some (rootExecutionId,.settle reservationId actual)
  | .releaseReservation rootExecutionId reservationId =>
    some (rootExecutionId,.release reservationId)
  | .registerRootBudget _ | .remaining _ | .remainingWithin _ _ | .admitDelegated _ _ _ _ _ _ _
  | .startDelegated _ _ _ | .completeDelegated _ _ _ _ | .failDelegated _ _ _ _
  | .getDelegated _ => none

/-- What a command does to the state. -/
inductive ResourceEffect (before : ExecutionResourceState) :
    ExecutionResourceCommand → ExecutionResourceState → Prop
  | register {ledger : RootBudgetLedger} (fresh : ledger.rootExecutionId ∉ before.ledgers.keys) :
      ResourceEffect before (.registerRootBudget ledger)
        (before.putLedger ledger.rootExecutionId ledger)
  | call {command : ExecutionResourceCommand} {rootExecutionId : String} {call : LedgerCall}
      {ledger next : RootBudgetLedger} (named : command.ledgerCall = some (rootExecutionId,call))
      (found : before.ledgers.get? rootExecutionId = some ledger)
      (effect : ledger.Effect call next) :
      ResourceEffect before command (before.putLedger rootExecutionId next)
  | admitted {rootExecutionId : String} {reservation : BudgetReservationRequest}
      {task : WorkerTaskRecord} {binding : DelegationTaskBinding}
      {parentAuthority : ExecutionAuthority} {policy : DelegationResourcePolicy} {nowMs : U64}
      {ledger : RootBudgetLedger}
      (passed : (before.admissible rootExecutionId reservation task binding parentAuthority policy
        nowMs).isOk = true)
      (admission : before.Admission rootExecutionId reservation task binding policy ledger) :
      ResourceEffect before
        (.admitDelegated rootExecutionId reservation task binding parentAuthority policy nowMs)
        (before.admitted rootExecutionId reservation task binding ledger)
  | start {command : ExecutionResourceCommand} {taskId executionId : String}
      {record : DelegatedWorkerTaskRecord}
      (found : before.delegated.tasks.get? taskId = some record)
      (pending : record.task.state = .pending) :
      ResourceEffect before command
        (before.putTask taskId (record.withState (.running executionId)))
  | close {command : ExecutionResourceCommand} {taskId : String} {actual : BudgetActual}
      {binding : TaskReservationBinding} {ledger : RootBudgetLedger}
      {reservation : BudgetReservationRecord} {record : DelegatedWorkerTaskRecord}
      (closing : before.Closing taskId actual binding ledger reservation record) :
      ResourceEffect before command
        (before.close taskId actual binding ledger reservation record)
  | failed {command : ExecutionResourceCommand} : ResourceEffect before command before

section Steps
variable {self next : ExecutionResourceState}

variable {command : ExecutionResourceCommand}

theorem described_effect {α : Type} {text : String} {response : α → ExecutionResourceResponse}
    {x : ResourceM α} (h : ResourceEffect self command (after x self)) :
    ResourceEffect self command (after (described text response x) self) := by
  unfold after described at *
  cases hx : x self with
  | ok value next =>
    rw [hx] at h
    exact h
  | error error next =>
    rw [hx] at h
    exact h

theorem readOnly_eq (command : ExecutionResourceCommand) :
    readOnly command self = match readResources self command with
      | .ok response => .ok response self
      | .error failure => .error failure self := by
  simp only [readOnly, stateful_bind, stateful_get]
  cases readResources self command <;> rfl

theorem readOnly_effect {read : ExecutionResourceCommand} :
    ResourceEffect self command (after (readOnly read) self) := by
  unfold after
  rw [readOnly_eq]
  cases readResources self read with
  | ok response => exact .failed
  | error failure => exact .failed

variable {failure : ResourceFailure}

theorem described_eq_error {α : Type} {text : String} {response : α → ExecutionResourceResponse}
    {x : ResourceM α} (hx : ∀ error, x self = .error error next → next = self)
    (h : described text response x self = .error failure next) : next = self := by
  unfold described at h
  cases hresult : x self with
  | ok value after => simp [hresult] at h
  | error error after =>
    rw [hresult] at h
    cases h
    exact hx error hresult

variable {rootExecutionId : String}

theorem onLedger_effect {call : LedgerCall}
    (hnamed : command.ledgerCall = some (rootExecutionId,call)) :
    ResourceEffect self command (after (onLedger rootExecutionId call) self) := by
  unfold after onLedger
  cases hfound : self.ledgers.get? rootExecutionId with
  | none => exact .failed
  | some ledger =>
    have heffect := ledger.effect_step call
    unfold RootBudgetLedger.step after at heffect
    cases hperform : call.perform ledger with
    | ok _ next =>
      rw [hperform] at heffect
      simp only [hperform]
      exact .call hnamed hfound heffect
    | error error next =>
      rw [hperform] at heffect
      simp only [hperform]
      exact .call hnamed hfound heffect

variable {error : ExecutionResourceError}

theorem onLedger_eq_error {call : LedgerCall}
    (h : onLedger rootExecutionId call self = .error error next) : next = self := by
  unfold onLedger at h
  cases hfound : self.ledgers.get? rootExecutionId with
  | none =>
    simp only [hfound, EStateM.Result.error.injEq] at h
    exact h.2.symm
  | some ledger =>
    simp only [hfound] at h
    cases hperform : call.perform ledger with
    | ok _ after => simp [hperform] at h
    | error budgetError after =>
      simp only [hperform, EStateM.Result.error.injEq] at h
      -- The ledger is put back where it was found, as it was found.
      rw [← h.2, RootBudgetLedger.perform_eq_error hperform]
      unfold putLedger
      rw [BTreeMap.insert_of_get? _ hfound]

variable {reservation : BudgetReservationRequest} {binding : DelegationTaskBinding}
  {parentAuthority : ExecutionAuthority} {policy : DelegationResourcePolicy} {nowMs : U64}

theorem admitDelegated_effect {task : WorkerTaskRecord} : ResourceEffect self
      (.admitDelegated rootExecutionId reservation task binding parentAuthority policy nowMs)
      (after (admitDelegated rootExecutionId reservation task binding parentAuthority policy nowMs)
        self) := by
  unfold admitDelegated after
  simp only [stateful_bind, stateful_get]
  cases hadmissible : self.admissible rootExecutionId reservation task binding parentAuthority
      policy nowMs with
  | error error => exact .failed
  | ok result =>
    obtain ⟨ledger,hadmission,rfl⟩ := ExecutionResourceState.admissible_eq_ok hadmissible
    exact .admitted (by rw [hadmissible]; rfl) hadmission

variable {taskId : String}

theorem closeDelegated_effect
    {f : DelegatedTaskStore → Except DelegatedTaskStoreError DelegatedWorkerTaskRecord}
    {actual : BudgetActual}
    (hends : ∀ record, f self.delegated = .ok record → self.delegated.Ends taskId record) :
    ResourceEffect self command
      (after (closeDelegated taskId (answered f (·.put taskId)) actual) self) := by
  unfold closeDelegated after
  simp only [stateful_bind, stateful_get]
  cases hclosable : self.closable taskId (answered f (·.put taskId)) actual with
  | error error => exact .failed
  | ok result =>
    obtain ⟨binding,ledger,reservation,record,hclosing,rfl⟩ :=
      ExecutionResourceState.closable_eq_ok hends hclosable
    exact .close hclosing

theorem startDelegated_effect {executionId : String} (hnamed : self.delegated.Named) :
    ResourceEffect self command (after (startDelegated taskId executionId nowMs) self) := by
  simp only [startDelegated, onDelegated, after, start, answered_eq]
  cases hstartable : self.delegated.startable taskId executionId nowMs with
  | error error => exact .failed
  | ok record =>
    obtain ⟨before,hget,hpending,rfl⟩ := startable_eq_ok hnamed hstartable
    exact .start hget hpending

theorem registerRootBudget_effect {ledger : RootBudgetLedger} :
    ResourceEffect self (.registerRootBudget ledger) (after (registerRootBudget ledger) self) := by
  unfold registerRootBudget after
  rw [answered_eq]
  unfold newRoot
  split_ifs with hknown
  · exact .failed
  · exact .register hknown

theorem effect_step (hnamed : self.delegated.Named) (command : ExecutionResourceCommand) :
    ResourceEffect self command (self.step command) := by
  cases command with
  | registerRootBudget => exact described_effect registerRootBudget_effect
  | reserve | settleReservation | releaseReservation =>
    exact described_effect (onLedger_effect rfl)
  | admitDelegated => exact described_effect admitDelegated_effect
  | startDelegated => exact described_effect (startDelegated_effect hnamed)
  | completeDelegated =>
    exact described_effect (closeDelegated_effect fun _ => completable_eq_ok)
  | failDelegated taskId executionId cause actual =>
    unfold step
    rw [ExecutionResourceCommand.perform]
    split_ifs
    · exact .failed
    · exact described_effect (closeDelegated_effect fun _ => failable_eq_ok)
  | remaining | remainingWithin | getDelegated => exact readOnly_effect

theorem readOnly_eq_error (h : readOnly command self = .error failure next) : next = self := by
  rw [readOnly_eq] at h
  cases hread : readResources self command with
  | ok response => simp [hread] at h
  | error found =>
    simp only [hread, EStateM.Result.error.injEq] at h
    exact h.2.symm

theorem admitDelegated_eq_error {task : WorkerTaskRecord}
    (h : admitDelegated rootExecutionId reservation task binding parentAuthority policy nowMs self = .error error next) :
    next = self := by
  unfold admitDelegated at h
  simp only [stateful_bind, stateful_get] at h
  cases hadmissible : self.admissible rootExecutionId reservation task binding parentAuthority
      policy nowMs with
  | error found =>
    simp only [hadmissible, check_error, EStateM.Result.error.injEq] at h
    exact h.2.symm
  | ok result => simp [hadmissible] at h

theorem closeDelegated_eq_error {close : StoreM DelegatedWorkerTaskRecord} {actual : BudgetActual}
    (h : closeDelegated taskId close actual self = .error error next) : next = self := by
  unfold closeDelegated at h
  simp only [stateful_bind, stateful_get] at h
  cases hclosable : self.closable taskId close actual with
  | error found =>
    simp only [hclosable, check_error, EStateM.Result.error.injEq] at h
    exact h.2.symm
  | ok result => simp [hclosable] at h

theorem startDelegated_eq_error {executionId : String}
    (h : startDelegated taskId executionId nowMs self = .error error next) : next = self := by
  simp only [startDelegated, onDelegated, start] at h
  cases hresult : answered (·.startable taskId executionId nowMs) (·.put taskId)
      self.delegated with
  | ok record delegated => simp [hresult] at h
  | error found delegated =>
    simp only [hresult, EStateM.Result.error.injEq] at h
    rw [← h.2, answered_eq_error hresult]

/-- A command that fails leaves everything as it was. -/
theorem ExecutionResourceCommand.perform_eq_error (h : command.perform self = .error failure next) :
    next = self := by
  cases command with
  | registerRootBudget => exact described_eq_error (fun _ => answered_eq_error) h
  | reserve | settleReservation | releaseReservation =>
    exact described_eq_error (fun _ => onLedger_eq_error) h
  | admitDelegated => exact described_eq_error (fun _ => admitDelegated_eq_error) h
  | startDelegated => exact described_eq_error (fun _ => startDelegated_eq_error) h
  | completeDelegated => exact described_eq_error (fun _ => closeDelegated_eq_error) h
  | failDelegated taskId executionId cause actual =>
    rw [ExecutionResourceCommand.perform] at h
    split_ifs at h
    · cases h
      rfl
    · exact described_eq_error (fun _ => closeDelegated_eq_error) h
  | remaining | remainingWithin | getDelegated => exact readOnly_eq_error h

end Steps

end PhenixConductor.Execution
