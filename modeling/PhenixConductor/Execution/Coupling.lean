import PhenixConductor.Execution.ResourceSteps

/-! # Delegated tasks and their reservations

Every delegated task stands on a reservation of its own, which is held as long as the task is
-/
namespace PhenixConductor.Execution
open Collections ExecutionResourceState DelegatedTaskStore BTreeMap ExecutionResourceCommand

/-- The reservation is the one that the binding of the task asks for, in the state that goes with
the state of the task. -/
structure Backs (record : DelegatedWorkerTaskRecord) (reservation : BudgetReservationRecord) :
    Prop where
  budget : reservation.request.budget = record.binding.resources.budget
  attempts : reservation.request.attempts = record.binding.resources.attempts
  revision : reservation.request.policyRevision = record.binding.parentPolicyRevision
  reserved : record.task.state.isOpen = true → reservation.state = .reserved
  settled : record.task.state.isOpen = false → ∃ actual, reservation.state = .settled actual

namespace ExecutionResourceState
variable (self : ExecutionResourceState)

def reservationAt (binding : TaskReservationBinding) : Option BudgetReservationRecord :=
  (self.ledgers.get? binding.rootExecutionId).bind (·.reservations.get? binding.reservationId)

/-- The tasks and the reservations of tasks correspond one to one. -/
structure Coupled (now : ExecutionResourceState) : Prop where
  backed : ∀ id record, now.delegated.tasks.get? id = some record → ∃ binding reservation,
    now.taskReservations.get? id = some binding ∧
      now.reservationAt binding = some reservation ∧ Backs record reservation
  known : ∀ id binding, now.taskReservations.get? id = some binding →
    id ∈ now.delegated.tasks.keys
  distinct : ∀ id other binding, now.taskReservations.get? id = some binding →
    now.taskReservations.get? other = some binding → id = other

/-- The command is an admission of a child of the execution, and it succeeds. -/
def Admits (command : ExecutionResourceCommand) (parentExecution : String)
    (policy : DelegationResourcePolicy) : Prop :=
  ∃ rootExecutionId reservation task binding parentAuthority nowMs response next,
    command = .admitDelegated rootExecutionId reservation task binding parentAuthority policy
      nowMs ∧ task.parentExecution = parentExecution ∧
    command.perform self = .ok response next

/-- A command on a ledger that passes the checks closes no reservation of a task, and an admission
that does is one of an open task. -/
def Separate : ExecutionResourceCommand → Prop
  | .settleReservation rootExecutionId reservationId actual => ∀ ledger record,
    self.ledgers.get? rootExecutionId = some ledger →
    ledger.settleable reservationId actual = .ok record →
    ∀ taskId, self.taskReservations.get? taskId ≠ some ⟨rootExecutionId,reservationId⟩
  | .releaseReservation rootExecutionId reservationId => ∀ ledger record,
    self.ledgers.get? rootExecutionId = some ledger → ledger.closable reservationId = .ok record →
    ∀ taskId, self.taskReservations.get? taskId ≠ some ⟨rootExecutionId,reservationId⟩
  | .admitDelegated rootExecutionId reservation task binding parentAuthority policy nowMs =>
    (self.admissible rootExecutionId reservation task binding parentAuthority policy nowMs).isOk →
    task.state.isOpen = true
  | .registerRootBudget _ | .reserve _ _ | .remaining _ | .remainingWithin _ _
  | .startDelegated _ _ _ | .completeDelegated _ _ _ _ | .failDelegated _ _ _ _
  | .getDelegated _ => True

end ExecutionResourceState

/-- The tasks and their reservations are coupled in every state of the run, no execution has more
children than the policy of its last admission allows, and no failure leaves a trace. -/
structure Coupling (commands : List ExecutionResourceCommand) : Prop where
  coupled : ∀ before, before <+: commands → (ExecutionResourceState.empty.run before).Coupled
  children : ∀ before command later parentExecution policy,
    before ++ command :: later <+: commands →
    (ExecutionResourceState.empty.run before).Admits command parentExecution policy →
    (∀ middle next rest, later = middle ++ next :: rest → ∀ other,
      ¬ (ExecutionResourceState.empty.run (before ++ command :: middle)).Admits next
        parentExecution other) →
    (ExecutionResourceState.empty.run (before ++ command :: later)).delegated.childCount
      parentExecution ≤ policy.maxChildren.val
  failed : ∀ before command, before ++ [command] <+: commands → ∀ failure next,
    command.perform (ExecutionResourceState.empty.run before) = .error failure next →
    next = ExecutionResourceState.empty.run before

namespace RootBudgetLedger
variable {self : RootBudgetLedger}

theorem get?_of_settleable {id : String} {actual : BudgetActual}
    {record : BudgetReservationRecord} (h : self.settleable id actual = .ok record) :
    self.reservations.get? id = some record ∧ record.state = .reserved := by
  obtain ⟨hget,hstate,-⟩ := closable_eq_ok.mp (settleable_eq_ok h).1
  exact ⟨hget,hstate⟩

end RootBudgetLedger

namespace ExecutionResourceState
variable {self : ExecutionResourceState}

theorem reservationAt_insert (rootExecutionId : String) (ledger : RootBudgetLedger)
    (delegated : DelegatedTaskStore) (taskReservations : BTreeMap String TaskReservationBinding)
    (binding : TaskReservationBinding) :
    (ExecutionResourceState.mk (self.ledgers.insert rootExecutionId ledger) delegated
      taskReservations).reservationAt binding =
      if binding.rootExecutionId = rootExecutionId then
        ledger.reservations.get? binding.reservationId
      else self.reservationAt binding := by
  unfold reservationAt
  rw [get?_insert]
  split_ifs <;> rfl

variable {rootExecutionId reservationId : String} {ledger : RootBudgetLedger}

/-- One record of a ledger is put, and one reservation of the state changes. -/
theorem reservationAt_put (hfound : self.ledgers.get? rootExecutionId = some ledger)
    (record : BudgetReservationRecord) (delegated : DelegatedTaskStore)
    (taskReservations : BTreeMap String TaskReservationBinding) (binding : TaskReservationBinding) :
    (ExecutionResourceState.mk
      (self.ledgers.insert rootExecutionId (ledger.put record reservationId)) delegated
      taskReservations).reservationAt binding =
      if binding = ⟨rootExecutionId,reservationId⟩ then some record
      else self.reservationAt binding := by
  obtain ⟨root,id⟩ := binding
  rw [reservationAt_insert]
  by_cases hroot : root = rootExecutionId
  · rw [if_pos hroot, RootBudgetLedger.get?_put]
    by_cases hid : id = reservationId
    · rw [if_pos hid, if_pos (by rw [hroot, hid])]
    · simp [reservationAt, hroot, hfound]
  · rw [if_neg hroot, if_neg (by simp [hroot])]

theorem reservationAt_of_reservable (hfound : self.ledgers.get? rootExecutionId = some ledger)
    {request : BudgetReservationRequest} (h : ledger.reservable request = .ok ()) :
    self.reservationAt ⟨rootExecutionId,request.reservationId⟩ = none := by
  have hfresh := (RootBudgetLedger.reservable_eq_ok h).1
  unfold RootBudgetLedger.nodes at hfresh
  unfold reservationAt
  rw [hfound, Option.bind_some, get?_eq_none]
  simpa using hfresh

variable {binding : TaskReservationBinding}

theorem reservationAt_of_get (hfound : self.ledgers.get? binding.rootExecutionId = some ledger) :
    self.reservationAt binding = ledger.reservations.get? binding.reservationId := by
  unfold reservationAt
  rw [hfound, Option.bind_some]

/-- A reservation that a task is bound to is in its ledger. -/
theorem Coupled.held (h : self.Coupled) {id : String}
    (hbound : self.taskReservations.get? id = some binding) :
    ∃ record reservation, self.delegated.tasks.get? id = some record ∧
      self.reservationAt binding = some reservation ∧ Backs record reservation := by
  have hknown := h.known id binding hbound
  obtain ⟨record,hget⟩ := Option.isSome_iff_exists.mp ((mem_keys_iff _).mp hknown)
  obtain ⟨found,reservation,hfound,hreservation,hbacks⟩ := h.backed id record hget
  cases hfound.symm.trans hbound
  exact ⟨record,reservation,hget,hreservation,hbacks⟩

/-- The tasks keep their records and their reservations. -/
theorem Coupled.of_kept (h : self.Coupled) {ledgers : BTreeMap String RootBudgetLedger}
    (hkept : ∀ id binding reservation, self.taskReservations.get? id = some binding →
      self.reservationAt binding = some reservation →
      (ExecutionResourceState.mk ledgers self.delegated self.taskReservations).reservationAt
        binding = some reservation) :
    (ExecutionResourceState.mk ledgers self.delegated self.taskReservations).Coupled where
  backed id record hget := by
    obtain ⟨binding,reservation,hbound,hreservation,hbacks⟩ := h.backed id record hget
    exact ⟨binding,reservation,hbound,hkept id binding reservation hbound hreservation,hbacks⟩
  known := h.known
  distinct := h.distinct

theorem Coupled.putLedger (h : self.Coupled) (hfresh : ledger.rootExecutionId ∉ self.ledgers.keys) :
    (self.putLedger ledger.rootExecutionId ledger).Coupled := by
  apply h.of_kept
  intro id binding reservation _ hreservation
  rw [reservationAt_insert, if_neg]
  · exact hreservation
  · intro hroot
    have hnone := (get?_eq_none _).mpr (hroot ▸ hfresh)
    simp [reservationAt, hnone] at hreservation

/-- A record is put that no task is bound to. -/
theorem Coupled.putReservation (h : self.Coupled)
    (hfound : self.ledgers.get? rootExecutionId = some ledger) (record : BudgetReservationRecord)
    (hunbound : ∀ id, self.taskReservations.get? id ≠ some ⟨rootExecutionId,reservationId⟩) :
    (self.putLedger rootExecutionId (ledger.put record reservationId)).Coupled := by
  apply h.of_kept
  intro id binding reservation hbound hreservation
  rw [reservationAt_put hfound, if_neg]
  · exact hreservation
  · rintro rfl
    exact hunbound id hbound

variable {command : ExecutionResourceCommand}

theorem Coupled.call (h : self.Coupled) {call : LedgerCall} {next : RootBudgetLedger}
    (hseparate : self.Separate command) (hnamed : command.ledgerCall = some (rootExecutionId,call))
    (hfound : self.ledgers.get? rootExecutionId = some ledger) (heffect : ledger.Effect call next) :
    (self.putLedger rootExecutionId next).Coupled := by
  cases heffect with
  | reserve hreservable =>
    apply h.putReservation hfound
    intro id hbound
    obtain ⟨record,reservation,-,hreservation,-⟩ := h.held hbound
    cases hreservation.symm.trans (reservationAt_of_reservable hfound hreservable)
  | settle hsettleable =>
    apply h.putReservation hfound
    cases command <;> cases hnamed
    exact hseparate ledger _ hfound hsettleable
  | release hclosable =>
    apply h.putReservation hfound
    cases command <;> cases hnamed
    exact hseparate ledger _ hfound hclosable
  | failed =>
    unfold ExecutionResourceState.putLedger
    rw [insert_of_get? _ hfound]
    exact h

theorem Coupled.admitted (h : self.Coupled) {reservation : BudgetReservationRequest}
    {task : WorkerTaskRecord} {binding : DelegationTaskBinding} {policy : DelegationResourcePolicy}
    (hadmission : self.Admission rootExecutionId reservation task binding policy ledger)
    (hopen : task.state.isOpen = true) :
    (self.admitted rootExecutionId reservation task binding ledger).Coupled := by
  have hnone := reservationAt_of_reservable hadmission.found hadmission.reservable
  have hother : ∀ {id found}, self.taskReservations.get? id = some found →
      found ≠ ⟨rootExecutionId,reservation.reservationId⟩ := by
    rintro id found hbound rfl
    obtain ⟨record,held,-,hheld,-⟩ := h.held hbound
    cases hheld.symm.trans hnone
  have hbound : ∀ {id found},
      (self.admitted rootExecutionId reservation task binding ledger).taskReservations.get? id =
        some found →
      (id = task.id ∧ found = ⟨rootExecutionId,reservation.reservationId⟩) ∨
        self.taskReservations.get? id = some found := by
    intro id found hget
    unfold ExecutionResourceState.admitted at hget
    rw [get?_insert] at hget
    split_ifs at hget with hid
    · exact .inl ⟨hid,(Option.some.inj hget).symm⟩
    · exact .inr hget
  constructor
  · intro id record hget
    unfold ExecutionResourceState.admitted at hget
    rw [get?_put] at hget
    split_ifs at hget with hid
    · cases hget
      refine ⟨⟨rootExecutionId,reservation.reservationId⟩,⟨reservation,.reserved⟩,?_,?_,
        hadmission.budget,hadmission.attempts,hadmission.revision,fun _ => rfl,?_⟩
      · exact hid ▸ get?_insert_self _ _ _
      · exact (reservationAt_put hadmission.found _ _ _ _).trans (if_pos rfl)
      · intro hclosed
        cases hopen.symm.trans hclosed
    · obtain ⟨found,held,hfound,hheld,hbacks⟩ := h.backed id record hget
      refine ⟨found,held,?_,?_,hbacks⟩
      · exact (get?_insert_of_ne _ _ hid).trans hfound
      · exact ((reservationAt_put hadmission.found _ _ _ _).trans (if_neg (hother hfound))).trans
          hheld
  · intro id found hget
    unfold ExecutionResourceState.admitted put
    rw [mem_keys_insert]
    rcases hbound hget with ⟨hid,-⟩ | hold
    · exact .inl hid
    · exact .inr (h.known id found hold)
  · intro id other found hid hotherGet
    rcases hbound hid with ⟨hidTask,rfl⟩ | hidOld
    · rcases hbound hotherGet with ⟨hotherTask,-⟩ | hotherOld
      · exact hidTask.trans hotherTask.symm
      · exact absurd rfl (hother hotherOld)
    · rcases hbound hotherGet with ⟨-,rfl⟩ | hotherOld
      · exact absurd rfl (hother hidOld)
      · exact h.distinct id other found hidOld hotherOld

variable {record : DelegatedWorkerTaskRecord}

theorem Coupled.start (h : self.Coupled) {taskId executionId : String}
    (hget : self.delegated.tasks.get? taskId = some record)
    (hpending : record.task.state = .pending) :
    (self.putTask taskId (record.withState (.running executionId))).Coupled := by
  constructor
  · intro id found hfound
    unfold ExecutionResourceState.putTask at hfound
    rw [get?_put] at hfound
    split_ifs at hfound with hid
    · cases hfound
      obtain ⟨binding,reservation,hbound,hreservation,hbacks⟩ := h.backed taskId record hget
      refine ⟨binding,reservation,hid ▸ hbound,hreservation,hbacks.budget,hbacks.attempts,
        hbacks.revision,fun _ => hbacks.reserved (by rw [hpending]; rfl),nofun⟩
    · exact h.backed id found hfound
  · intro id binding hbound
    unfold ExecutionResourceState.putTask put
    rw [mem_keys_insert]
    exact .inr (h.known id binding hbound)
  · exact h.distinct

theorem Coupled.close (h : self.Coupled) {taskId : String} {actual : BudgetActual}
    {reservation : BudgetReservationRecord}
    (hclosing : self.Closing taskId actual binding ledger reservation record) :
    (self.close taskId actual binding ledger reservation record).Coupled := by
  obtain ⟨before,executionId,hget,-,hmoves,hclosed⟩ := hclosing.ends
  constructor
  · intro id found hfound
    unfold ExecutionResourceState.close at hfound
    rw [get?_put] at hfound
    split_ifs at hfound with hid
    · cases hfound
      obtain ⟨bound,held,hbound,hheld,hbacks⟩ := h.backed taskId before hget
      cases hbound.symm.trans hclosing.bound
      rw [reservationAt_of_get hclosing.found,
        (RootBudgetLedger.get?_of_settleable hclosing.settleable).1] at hheld
      cases hheld
      refine ⟨binding,_,hid ▸ hbound,(reservationAt_put hclosing.found _ _ _ _).trans (if_pos rfl),
        ?_,?_,?_,?_,fun _ => ⟨actual,rfl⟩⟩
      · rw [hmoves.binding]
        exact hbacks.budget
      · rw [hmoves.binding]
        exact hbacks.attempts
      · rw [hmoves.binding]
        exact hbacks.revision
      · intro hopen
        cases hopen.symm.trans hclosed
    · obtain ⟨other,held,hother,hheld,hbacks⟩ := h.backed id found hfound
      refine ⟨other,held,hother,?_,hbacks⟩
      refine ((reservationAt_put hclosing.found _ _ _ _).trans (if_neg ?_)).trans hheld
      intro heq
      exact hid (h.distinct id taskId other hother (by rw [heq]; exact hclosing.bound))
  · intro id other hbound
    unfold ExecutionResourceState.close put
    rw [mem_keys_insert]
    exact .inr (h.known id other hbound)
  · exact h.distinct

theorem Coupled.effect (h : self.Coupled) {next : ExecutionResourceState}
    (hseparate : self.Separate command) (heffect : ResourceEffect self command next) :
    next.Coupled := by
  cases heffect with
  | register fresh => exact h.putLedger fresh
  | call named found effect => exact h.call hseparate named found effect
  | admitted passed admission => exact h.admitted admission (hseparate passed)
  | start found pending => exact h.start found pending
  | close closing => exact h.close closing
  | failed => exact h

theorem named_effect (h : self.delegated.Named) {next : ExecutionResourceState}
    (heffect : ResourceEffect self command next) : next.delegated.Named := by
  cases heffect with
  | register | call | failed => exact h
  | @admitted _ _ task _ _ _ _ _ _ admission =>
    intro id record hget
    unfold ExecutionResourceState.admitted at hget
    rw [get?_put] at hget
    split_ifs at hget with hid
    · cases hget
      exact hid.symm
    · exact h id record hget
  | start found => exact h.put found ⟨⟨_,rfl⟩,rfl⟩
  | close closing =>
    obtain ⟨before,executionId,hget,-,hmoves,-⟩ := closing.ends
    exact h.put hget hmoves

theorem named_run (commands : List ExecutionResourceCommand) :
    (empty.run commands).delegated.Named := by
  have hstep : ∀ state command, DelegatedTaskStore.Named state.delegated →
      DelegatedTaskStore.Named (step state command).delegated :=
    fun state command h => named_effect h (effect_step h command)
  refine @runAll_invariant _ _ step (fun state => state.delegated.Named) hstep _ commands ?_
  intro id record hget
  cases (get?_empty _).symm.trans hget

section Children
variable {parentExecution : String}

theorem childCount_put_of_notMem {store : DelegatedTaskStore} {taskId : String}
    {record : DelegatedWorkerTaskRecord} (h : taskId ∉ store.tasks.keys) :
    (store.put taskId record).childCount parentExecution = store.childCount parentExecution +
      if record.task.parentExecution = parentExecution then 1 else 0 := by
  unfold childCount put
  rw [length_filter_insert_of_notMem _ _ h]
  simp only [decide_eq_true_eq]

theorem childCount_put_of_get {store : DelegatedTaskStore} {taskId : String}
    {before after : DelegatedWorkerTaskRecord} (hget : store.tasks.get? taskId = some before)
    (hmoves : DelegatedTaskStore.Moves before after) :
    (store.put taskId after).childCount parentExecution = store.childCount parentExecution := by
  obtain ⟨state,htask⟩ := hmoves.task
  exact length_filter_insert_of_get _ hget (by rw [htask])

variable {policy : DelegationResourcePolicy}

theorem step_admitDelegated {rootExecutionId : String} {reservation : BudgetReservationRequest}
    {task : WorkerTaskRecord} {binding : DelegationTaskBinding}
    {parentAuthority : ExecutionAuthority} {nowMs : U64}
    (hpassed : (self.admissible rootExecutionId reservation task binding parentAuthority policy nowMs).isOk = true) :
    ∃ ledger, self.Admission rootExecutionId reservation task binding policy ledger ∧
      ∃ response, (ExecutionResourceCommand.admitDelegated rootExecutionId reservation task binding
        parentAuthority policy nowMs).perform self =
          .ok response (self.admitted rootExecutionId reservation task binding ledger) := by
  cases hadmissible : self.admissible rootExecutionId reservation task binding parentAuthority
      policy nowMs with
  | error error =>
    rw [hadmissible] at hpassed
    cases hpassed
  | ok result =>
    obtain ⟨ledger,hadmission,rfl⟩ := admissible_eq_ok hadmissible
    refine ⟨ledger,hadmission,.delegatedTask ⟨task,binding,none⟩,?_⟩
    simp only [perform, described, admitDelegated, stateful_bind,
      stateful_get, hadmissible, check_ok]
    rfl

variable {command : ExecutionResourceCommand}

theorem admits_iff : self.Admits command parentExecution policy ↔
      ∃ rootExecutionId reservation task binding parentAuthority nowMs,
        command = .admitDelegated rootExecutionId reservation task binding parentAuthority policy
          nowMs ∧ task.parentExecution = parentExecution ∧
        (self.admissible rootExecutionId reservation task binding parentAuthority policy
          nowMs).isOk = true := by
  constructor
  · rintro ⟨rootExecutionId,reservation,task,binding,parentAuthority,nowMs,response,next,rfl,
      hparent,hperform⟩
    refine ⟨rootExecutionId,reservation,task,binding,parentAuthority,nowMs,rfl,hparent,?_⟩
    cases hadmissible : self.admissible rootExecutionId reservation task binding parentAuthority
        policy nowMs with
    | error error =>
      simp only [perform, described, admitDelegated, stateful_bind,
        stateful_get, hadmissible, check_error, reduceCtorEq] at hperform
    | ok result => rfl
  · rintro ⟨rootExecutionId,reservation,task,binding,parentAuthority,nowMs,rfl,hparent,hpassed⟩
    obtain ⟨ledger,-,response,hperform⟩ := step_admitDelegated hpassed
    exact ⟨rootExecutionId,reservation,task,binding,parentAuthority,nowMs,response,_,rfl,hparent,
      hperform⟩

/-- The policy of an admission bounds the children that it leaves. -/
theorem Admits.childCount_le (h : self.Admits command parentExecution policy) :
    (self.step command).delegated.childCount parentExecution ≤ policy.maxChildren.val := by
  obtain ⟨rootExecutionId,reservation,task,binding,parentAuthority,nowMs,rfl,hparent,hpassed⟩ :=
    admits_iff.mp h
  obtain ⟨ledger,hadmission,response,hperform⟩ := step_admitDelegated hpassed
  have hstep : self.step (.admitDelegated rootExecutionId reservation task binding parentAuthority
      policy nowMs) = self.admitted rootExecutionId reservation task binding ledger :=
    after_ok hperform
  have hchildren := hadmission.children
  rw [hparent] at hchildren
  rw [hstep]
  unfold ExecutionResourceState.admitted
  rw [childCount_put_of_notMem hadmission.fresh, if_pos hparent]
  exact hchildren

/-- Only an admission adds a child. -/
theorem childCount_effect {next : ExecutionResourceState}
    (hnone : ∀ policy, ¬ self.Admits command parentExecution policy)
    (heffect : ResourceEffect self command next) :
    next.delegated.childCount parentExecution = self.delegated.childCount parentExecution := by
  cases heffect with
  | register | call | failed => rfl
  | admitted passed admission =>
    unfold ExecutionResourceState.admitted
    rw [childCount_put_of_notMem admission.fresh, if_neg, Nat.add_zero]
    intro hparent
    exact hnone _ (admits_iff.mpr ⟨_,_,_,_,_,_,rfl,hparent,passed⟩)
  | start found => exact childCount_put_of_get found ⟨⟨_,rfl⟩,rfl⟩
  | close closing =>
    obtain ⟨before,executionId,hget,-,hmoves,-⟩ := closing.ends
    exact childCount_put_of_get hget hmoves

/-- As long as there is no admission, the number of children stays. -/
theorem childCount_run (h : self.delegated.Named) {later : List ExecutionResourceCommand}
    (hnone : ∀ middle next rest, later = middle ++ next :: rest → ∀ policy,
      ¬ (self.run middle).Admits next parentExecution policy) :
    (self.run later).delegated.childCount parentExecution =
      self.delegated.childCount parentExecution := by
  induction later generalizing self with
  | nil => rfl
  | cons command later ih =>
    have heffect := effect_step h command
    have hrest := ih (named_effect h heffect) fun middle next rest hlater policy =>
      hnone (command :: middle) next rest (by rw [hlater, List.cons_append]) policy
    exact hrest.trans (childCount_effect (hnone [] command later rfl) heffect)

end Children

theorem coupled_empty : empty.Coupled where
  backed _ _ h := by cases (get?_empty _).symm.trans h
  known _ _ h := by cases (get?_empty _).symm.trans h
  distinct _ _ _ h := by cases (get?_empty _).symm.trans h

/-- A reservation is held exactly as long as the task that it backs is open. -/
theorem reserved_iff {reservation : BudgetReservationRecord} (h : Backs record reservation) :
    reservation.state = .reserved ↔ record.task.state.isOpen = true := by
  constructor
  · intro hreserved
    by_contra hopen
    obtain ⟨actual,hsettled⟩ := h.settled (Bool.eq_false_iff.mpr hopen)
    cases hreserved.symm.trans hsettled
  · exact h.reserved

/-- A call that closes a reservation uncouples the task that is bound to it. -/
theorem unbound_of_coupled (h : self.Coupled) {before after : BudgetReservationRecord}
    (hfound : self.ledgers.get? rootExecutionId = some ledger)
    (hget : ledger.reservations.get? reservationId = some before)
    (hreserved : before.state = .reserved) (hclosed : after.state ≠ .reserved)
    (hnext : (self.putLedger rootExecutionId (ledger.put after reservationId)).Coupled)
    (taskId : String) :
    self.taskReservations.get? taskId ≠ some ⟨rootExecutionId,reservationId⟩ := by
  intro hbound
  obtain ⟨record,held,hrecord,hheld,hbacks⟩ := h.held hbound
  obtain ⟨later,lost,hlater,hlost,hlaterBacks⟩ := hnext.held hbound
  cases hlater.symm.trans hrecord
  rw [reservationAt_of_get hfound, hget] at hheld
  cases hheld
  cases ((reservationAt_put hfound _ _ _ _).trans (if_pos rfl)).symm.trans hlost
  exact hclosed ((reserved_iff hlaterBacks).mpr ((reserved_iff hbacks).mp hreserved))

theorem step_settleReservation {actual : BudgetActual} {record : BudgetReservationRecord}
    (hfound : self.ledgers.get? rootExecutionId = some ledger)
    (hsettleable : ledger.settleable reservationId actual = .ok record) :
    self.step (.settleReservation rootExecutionId reservationId actual) =
      self.putLedger rootExecutionId
        (ledger.put { record with state := .settled actual } reservationId) := by
  have hperform : (LedgerCall.settle reservationId actual).perform ledger =
      .ok ⟨⟩ (ledger.put { record with state := .settled actual } reservationId) := by
    simp only [LedgerCall.perform, Execution.settle, checked_eq, hsettleable]
  simp only [step, after, perform, described,
    Execution.settleReservation, onLedger, hfound, hperform]

theorem step_releaseReservation {record : BudgetReservationRecord}
    (hfound : self.ledgers.get? rootExecutionId = some ledger)
    (hclosable : ledger.closable reservationId = .ok record) :
    self.step (.releaseReservation rootExecutionId reservationId) =
      self.putLedger rootExecutionId
        (ledger.put { record with state := .released } reservationId) := by
  have hperform : (LedgerCall.release reservationId).perform ledger =
      .ok ⟨⟩ (ledger.put { record with state := .released } reservationId) := by
    simp only [LedgerCall.perform, Execution.release, checked_eq, hclosable]
  simp only [step, after, perform, described,
    Execution.releaseReservation, onLedger, hfound, hperform]

/-- A step between two coupled states is separate. -/
theorem separate_of_coupled (h : self.Coupled) (hnext : (self.step command).Coupled) :
    self.Separate command := by
  cases command with
  | settleReservation rootExecutionId reservationId actual =>
    intro ledger record hfound hsettleable
    obtain ⟨hget,hreserved⟩ := RootBudgetLedger.get?_of_settleable hsettleable
    rw [step_settleReservation hfound hsettleable] at hnext
    exact unbound_of_coupled h hfound hget hreserved (by simp) hnext
  | releaseReservation rootExecutionId reservationId =>
    intro ledger record hfound hclosable
    obtain ⟨hget,hreserved,-⟩ := RootBudgetLedger.closable_eq_ok.mp hclosable
    rw [step_releaseReservation hfound hclosable] at hnext
    exact unbound_of_coupled h hfound hget hreserved (by simp) hnext
  | admitDelegated rootExecutionId reservation task binding parentAuthority policy nowMs =>
    intro hpassed
    obtain ⟨ledger,hadmission,response,hperform⟩ := step_admitDelegated hpassed
    have hstep : self.step (.admitDelegated rootExecutionId reservation task binding
        parentAuthority policy nowMs) =
          self.admitted rootExecutionId reservation task binding ledger := after_ok hperform
    rw [hstep] at hnext
    have hbound : (self.admitted rootExecutionId reservation task binding
        ledger).taskReservations.get? task.id =
          some ⟨rootExecutionId,reservation.reservationId⟩ := get?_insert_self _ _ _
    obtain ⟨record,held,hrecord,hheld,hbacks⟩ := hnext.held hbound
    cases (get?_insert_self _ _ _).symm.trans hrecord
    cases ((reservationAt_put hadmission.found _ _ _ _).trans (if_pos rfl)).symm.trans hheld
    exact (reserved_iff hbacks).mp rfl
  | registerRootBudget | reserve | remaining | remainingWithin | startDelegated
  | completeDelegated | failDelegated | getDelegated => trivial

theorem coupled_run {commands : List ExecutionResourceCommand}
    (h : Along step Separate empty commands) : (empty.run commands).Coupled := by
  have hstep : ∀ (state : ExecutionResourceState) command,
      state.Coupled ∧ state.delegated.Named → state.Separate command →
      (state.step command).Coupled ∧ (state.step command).delegated.Named :=
    fun state command hstate hseparate =>
      ⟨hstate.1.effect hseparate (effect_step hstate.2 command),
        named_effect hstate.2 (effect_step hstate.2 command)⟩
  exact (h.invariant hstep ⟨coupled_empty,named_run []⟩).1

end ExecutionResourceState

theorem coupling_iff (commands : List ExecutionResourceCommand) : Coupling commands ↔
    Along ExecutionResourceState.step ExecutionResourceState.Separate .empty commands := by
  constructor
  · intro h
    refine along_iff.mpr fun before command hbefore => ?_
    have hnow := h.coupled before ((List.prefix_append before _).trans hbefore)
    have hnext := h.coupled (before ++ [command]) hbefore
    unfold ExecutionResourceState.run at hnext
    rw [runAll_append] at hnext
    exact separate_of_coupled hnow hnext
  · intro h
    constructor
    · rintro before ⟨later,rfl⟩
      exact coupled_run (along_append.mp h).1
    · intro before command later parentExecution policy _ hadmits hnone
      have hnamed := named_run before
      have hrun : ∀ middle, empty.run (before ++ command :: middle) =
          ((empty.run before).step command).run middle := by
        intro middle
        unfold ExecutionResourceState.run
        rw [runAll_append, runAll_cons]
      have hnext := named_effect hnamed (effect_step hnamed command)
      rw [hrun, childCount_run hnext]
      · exact hadmits.childCount_le
      · intro middle next rest hlater
        rw [← hrun]
        exact hnone middle next rest hlater
    · intro before command _ failure next hfailed
      exact perform_eq_error hfailed

/-- A child with a tenth of the tokens of its root. -/
def childBinding : DelegationTaskBinding where
  parentPolicyRevision := "policy-1"
  resources := ⟨⟨.empty⟩,⟨10,10,none⟩,1000,1,1,64⟩

def childTask : WorkerTaskRecord :=
  ⟨"task","parent","generation-1","work",.empty,⟨.empty⟩,.pending⟩

/-- The reservation of a task that is still pending is released. -/
def released : List ExecutionResourceCommand :=
  [.registerRootBudget (.new "root" ⟨100,100,none,1⟩),
    .admitDelegated "root" ⟨"reservation",none,"policy-1",.delegation,⟨10,10,none⟩,1⟩ childTask
      childBinding ⟨.empty⟩ ⟨true,1,1,1,64⟩ 0,
    .releaseReservation "root" "reservation"]

theorem pending_released : ¬ Coupling released := by
  intro h
  have hcoupled := h.coupled released (List.prefix_refl _)
  have htask : ((empty.run released).delegated.tasks.get? "task").map
      (·.task.state) = some .pending := by decide +kernel
  have hbinding : (empty.run released).taskReservations.get? "task" =
      some ⟨"root","reservation"⟩ := by decide +kernel
  have hreleased : ((empty.run released).reservationAt
      ⟨"root","reservation"⟩).map (·.state) = some .released := by decide +kernel
  generalize empty.run released = now at hcoupled htask hbinding hreleased
  obtain ⟨record,hget,hpending⟩ := Option.map_eq_some_iff.mp htask
  obtain ⟨reservation,hreservation,hstate⟩ := Option.map_eq_some_iff.mp hreleased
  obtain ⟨found,held,hfound,hheld,hbacks⟩ := hcoupled.held hbinding
  cases hfound.symm.trans hget
  cases hheld.symm.trans hreservation
  cases hstate.symm.trans (hbacks.reserved (by rw [hpending]; rfl))

end PhenixConductor.Execution
