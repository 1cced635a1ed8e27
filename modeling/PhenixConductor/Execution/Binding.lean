import PhenixConductor.Execution.Ordering

/-! # Tasks and the executions that they are bound to

A task is bound to the execution that it is started on.
-/
namespace PhenixConductor.Execution
open Collections ExecutionProjection WorkerTaskState

/-- The attempt can read the durable value, and its commit goes through. -/
def DurableAttempt.Commits (durable : DurableAttempt) : Prop :=
  durable.read = .ok () ∧ durable.commit = .committed

namespace ExecutionProjection
variable (self : ExecutionProjection)

def TaskIn (taskId : String) (P : WorkerTaskState → Prop) : Prop :=
  ∃ task, self.tasks.get? taskId = some task ∧ P task.state

def Bound (taskId executionId : String) : Prop :=
  self.TaskIn taskId (·.execution = some executionId)

/-- The task is running on the execution. -/
def Runs (taskId executionId : String) : Prop := self.TaskIn taskId (· = .running executionId)

/-- The task has been completed on the execution. -/
def Completes (taskId executionId : String) : Prop :=
  self.TaskIn taskId fun state => state.isCompleted = true ∧ state.execution = some executionId

def Is (executionId : String) (state : ExecutionState) : Prop :=
  ∃ execution, self.executions.get? executionId = some execution ∧ execution.state = state

/-- The states of the tasks and those of the executions agree. -/
structure Agreed (now : ExecutionProjection) : Prop where
  bound : ∀ id other executionId, now.Bound id executionId → now.Bound other executionId →
    id = other
  completed : ∀ id executionId, now.Completes id executionId → now.Is executionId .completed
  running : ∀ id executionId, now.Is executionId .completed → ¬ now.Runs id executionId

/-- The side that the command does not look at is right, if the checks of the command pass. -/
def Matches : ExecutionCommand → Prop
  | .startTask taskId executionId => self.Startable taskId executionId →
    self.Is executionId .active ∧ ∀ other, ¬ self.Bound other executionId
  | .completeTask taskId executionId _ => self.Runs taskId executionId →
    self.Is executionId .completed
  | .finishExecution id true => self.Is id .active → ∀ taskId, ¬ self.Runs taskId id
  | _ => True

def Agrees (state : ExecutionProjection) (invocation : Invocation) : Prop :=
  (invocation.durable 0).Commits → state.Matches invocation.command

end ExecutionProjection

/-- In every state of the run the tasks and the executions agree, and every task that is started by
a step of the run is started on an active execution. -/
structure Agreement (invocations : List Invocation) : Prop where
  agreed : ∀ before, before <+: invocations → (empty.run before).Agreed
  active : ∀ before invocation, before ++ [invocation] <+: invocations → ∀ id task executionId,
    (empty.run before).tasks.get? id = some task → task.state = .pending →
    ((empty.run before).step invocation).Runs id executionId →
    (empty.run before).Is executionId .active

section Commits
variable {durable : DurableAttempt} {state next : ExecutionProjection}
  {response : ExecutionResponse}

theorem after_mutateState {mutation : ExecutionProjection → Changed} (hcommits : durable.Commits)
    (hmutation : mutation state = .ok (next,response)) :
    after (mutateState durable mutation) state = next := by
  obtain ⟨hread,hcommit⟩ := hcommits
  apply after_ok
  unfold mutateState
  simp only [hread, stateful_bind, check_ok, stateful_get, hmutation, hcommit]
  rfl

theorem checkWorkerExecution_of {task : WorkerTaskRecord} {taskId executionId : String}
    {execution : ExecutionRecord} (hget : state.executions.get? executionId = some execution)
    (hworker : WorkerFor task execution) :
    checkWorkerExecution state task taskId executionId = .ok () := by
  obtain ⟨hparent,hauthority,hgeneration⟩ := hworker
  simp [checkWorkerExecution, hget, hparent, hauthority, hgeneration]

end Commits

namespace ExecutionProjection
variable {self : ExecutionProjection} {context : CallContext} {durable : ℕ → DurableAttempt}

variable {executionId : String}

variable {taskId : String}

/-- A start that passes the checks binds the task. -/
theorem Startable.step (h : self.Startable taskId executionId) (hcommits : (durable 0).Commits) :
    ∃ task, self.tasks.get? taskId = some task ∧ task.state = .pending ∧
      self.step ⟨context,.startTask taskId executionId,durable⟩ =
        self.putTask taskId { task with state := .running executionId } := by
  obtain ⟨task,execution,htask,hpending,hdependencies,hget,hworker⟩ := h
  have hmutate : mutate context self (.startTask taskId executionId) =
      .ok (withTaskState self taskId task (.running executionId)) := by
    simp only [mutate, startTask, knownTask, htask, hpending, hdependencies, ok_bind,
      checkWorkerExecution_of hget hworker]
    rfl
  exact ⟨task,htask,hpending,after_mutateState hcommits hmutate⟩

theorem Runs.step {resultRefs : List String} (h : self.Runs taskId executionId)
    (hcommits : (durable 0).Commits) : ∃ task, self.tasks.get? taskId = some task ∧
      self.step ⟨context,.completeTask taskId executionId resultRefs,durable⟩ =
        self.putTask taskId { task with state := .completed executionId resultRefs } := by
  obtain ⟨task,htask,hrunning⟩ := h
  have hmutate : mutate context self (.completeTask taskId executionId resultRefs) =
      .ok (withTaskState self taskId task (.completed executionId resultRefs)) := by
    simp only [mutate, completeTask, knownTask, htask, ok_bind,
      requireRunningExecution_eq_ok.mpr hrunning]
    rfl
  exact ⟨task,htask,after_mutateState hcommits hmutate⟩

variable {id : String}

theorem Is.step (h : self.Is id .active) (hcommits : (durable 0).Commits) :
    ∃ execution, self.executions.get? id = some execution ∧
      self.step ⟨context,.finishExecution id true,durable⟩ =
        self.putExecution id { execution with state := .completed } := by
  obtain ⟨execution,hget,hactive⟩ := h
  have hmutate : mutate context self (.finishExecution id true) =
      .ok (self.putExecution id { execution with state := .completed },
        .execution { execution with state := .completed }) := by
    simp only [mutate, finishExecution, ok_bind, activeExecution_eq_ok.mpr ⟨hget,hactive⟩]
    rfl
  exact ⟨execution,hget,after_mutateState hcommits hmutate⟩

variable {task : WorkerTaskRecord}

@[simp] theorem taskIn_putTask {P : WorkerTaskState → Prop} :
    (self.putTask id task).TaskIn taskId P ↔
      if taskId = id then P task.state else self.TaskIn taskId P := by
  unfold TaskIn
  rw [tasks_putTask, BTreeMap.get?_insert]
  split_ifs <;> simp

variable {execution : ExecutionRecord}

@[simp] theorem is_putExecution {state : ExecutionState} :
    (self.putExecution id execution).Is executionId state ↔
      if executionId = id then execution.state = state else self.Is executionId state := by
  unfold Is
  rw [executions_putExecution, BTreeMap.get?_insert]
  split_ifs <;> simp

theorem Is.eq {state : ExecutionState} (h : self.Is executionId state)
    (hget : self.executions.get? executionId = some execution) : execution.state = state := by
  obtain ⟨found,hfound,hstate⟩ := h
  cases hfound.symm.trans hget
  exact hstate

theorem Agreed.putTask (h : self.Agreed)
    (hbound : ∀ executionId other, task.state.execution = some executionId → other ≠ taskId → ¬ self.Bound other executionId)
    (hcompleted : ∀ executionId, task.state.isCompleted = true → task.state.execution = some executionId → self.Is executionId .completed)
    (hrunning : ∀ executionId, self.Is executionId .completed → task.state ≠ .running executionId) :
    (self.putTask taskId task).Agreed := by
  constructor
  · intro id other executionId hid hother
    unfold Bound at hid hother
    rw [taskIn_putTask] at hid hother
    split_ifs at hid hother with hidTask hotherTask hotherTask
    · exact hidTask.trans hotherTask.symm
    · exact absurd hother (hbound executionId other hid hotherTask)
    · exact absurd hid (hbound executionId id hother hidTask)
    · exact h.bound id other executionId hid hother
  · intro id executionId hid
    unfold Completes at hid
    rw [taskIn_putTask] at hid
    split_ifs at hid
    · exact hcompleted executionId hid.1 hid.2
    · exact h.completed id executionId hid
  · intro id executionId hcompletedNow hid
    unfold Runs at hid
    rw [taskIn_putTask] at hid
    split_ifs at hid
    · exact hrunning executionId hcompletedNow hid
    · exact h.running id executionId hcompletedNow hid

theorem Agreed.putExecution (h : self.Agreed) (hopen : ¬ self.Is id .completed)
    (hrunning : execution.state = .completed → ∀ taskId, ¬ self.Runs taskId id) :
    (self.putExecution id execution).Agreed := by
  constructor
  · exact h.bound
  · intro taskId executionId htask
    have hcompleted := h.completed taskId executionId htask
    have hne : executionId ≠ id := by
      rintro rfl
      exact hopen hcompleted
    simpa [hne] using hcompleted
  · intro taskId executionId hcompleted
    rw [is_putExecution] at hcompleted
    split_ifs at hcompleted with heq
    · exact heq ▸ hrunning hcompleted taskId
    · exact h.running taskId executionId hcompleted

theorem not_is_of_fresh (h : id ∉ self.executions.keys) (state : ExecutionState) :
    ¬ self.Is id state := by
  rintro ⟨execution,hget,-⟩
  exact h (self.executions.mem_keys_iff.mpr (by simp [hget]))

theorem Agreed.transition (h : self.Agreed) {command : ExecutionCommand}
    {response : ExecutionResponse} {next : ExecutionProjection}
    (htransition : Transition context self command response next)
    (hmatches : self.Matches command) : next.Agreed := by
  cases htransition with
  | root creates fresh parent state =>
    exact h.putExecution (not_is_of_fresh fresh _) (by simp [state])
  | delegate creates fresh named found generation state =>
    exact h.putExecution (not_is_of_fresh fresh _) (by simp [state])
  | @finish id success execution found active =>
    have hopen : ¬ self.Is id .completed := by
      intro hcompleted
      cases active.symm.trans (hcompleted.eq found)
    cases success with
    | true => exact h.putExecution hopen fun _ => hmatches ⟨execution,found,active⟩
    | false => exact h.putExecution hopen nofun
  | register => exact ⟨h.bound,h.completed,h.running⟩
  | create fresh state =>
    apply h.putTask
    · rw [state]
      exact nofun
    · rw [state]
      exact nofun
    · rw [state]
      exact nofun
  | @start taskId executionId task execution found pending dependencies worker matched =>
    obtain ⟨hactive,hunbound⟩ :=
      hmatches ⟨task,execution,found,pending,dependencies,worker,matched⟩
    apply h.putTask
    · rintro _ other ⟨⟩ -
      exact hunbound other
    · exact nofun
    · rintro _ hcompleted ⟨⟩
      cases (hactive.eq worker).symm.trans (hcompleted.eq worker)
  | @complete taskId executionId resultRefs task found running =>
    apply h.putTask
    · rintro _ other ⟨⟩ hne hother
      exact hne (h.bound other taskId executionId hother ⟨task,found,by simp [running,
        execution]⟩)
    · rintro _ - ⟨⟩
      exact hmatches ⟨task,found,running⟩
    · exact nofun
  | @fail taskId executionId cause task found running =>
    apply h.putTask
    · rintro _ other ⟨⟩ hne hother
      exact hne (h.bound other taskId executionId hother ⟨task,found,by simp [running,
        execution]⟩)
    · exact nofun
    · exact nofun
  | answer => exact h

theorem step_of_not_commits {mutation : ExecutionProjection → Changed} {attempt : DurableAttempt}
    (h : ¬ attempt.Commits) : after (mutateState attempt mutation) self = self := by
  unfold after mutateState
  cases hread : attempt.read with
  | error message => rfl
  | ok _ =>
    simp only [check_ok, stateful_bind, stateful_get]
    cases mutation self with
    | error message => rfl
    | ok changed =>
      cases hcommit : attempt.commit with
      | committed => exact absurd ⟨hread,hcommit⟩ h
      | contended message => rfl
      | failed message => rfl

variable {invocation : Invocation}

/-- The other side is right in every step that agrees and changes something. -/
theorem Agrees.transition (hagrees : self.Agrees invocation) :
    (∃ response, Transition invocation.context self invocation.command response
      (self.step invocation) ∧ self.Matches invocation.command) ∨ self.step invocation = self := by
  rcases step_transition self invocation with ⟨response,htransition⟩ | hsame
  · by_cases hcommits : (invocation.durable 0).Commits
    · exact .inl ⟨response,htransition,hagrees hcommits⟩
    · obtain ⟨context,command,durable⟩ := invocation
      cases command with
      | startTask | completeTask | finishExecution => exact .inr (step_of_not_commits hcommits)
      | allocateExecution | createExecution | delegateExecution | getExecution | registerCallable
      | invokeCallable | createTask | runnableTasks | failTask | getTask | delegated =>
        exact .inl ⟨response,htransition,trivial⟩
  · exact .inr hsame

theorem Agreed.step (h : self.Agreed) (hagrees : self.Agrees invocation) :
    (self.step invocation).Agreed := by
  rcases hagrees.transition with ⟨response,htransition,hmatches⟩ | hsame
  · exact h.transition htransition hmatches
  · exact hsame.symm ▸ h

/-- A start that agrees is on an active execution. -/
theorem Agrees.active (hagrees : self.Agrees invocation) (hget : self.tasks.get? id = some task)
    (hpending : task.state = .pending) (hruns : (self.step invocation).Runs id executionId) :
    self.Is executionId .active := by
  obtain ⟨started,hstarted,hrunning⟩ := hruns
  have hleft : started.state ≠ .pending := by simp [hrunning]
  rcases hagrees.transition with ⟨response,htransition,hmatches⟩ | hsame
  · obtain ⟨bound,hbound,hcommand,hstartable⟩ := htransition.starts hget hpending hstarted hleft
    cases hrunning.symm.trans hbound
    rw [hcommand] at hmatches
    exact (hmatches hstartable).1
  · cases hget.symm.trans (hsame ▸ hstarted)
    exact absurd hpending hleft

theorem agreed_empty : empty.Agreed where
  bound _ _ _ h := by
    obtain ⟨task,hget,-⟩ := h
    cases (BTreeMap.get?_empty _).symm.trans hget
  completed _ _ h := by
    obtain ⟨task,hget,-⟩ := h
    cases (BTreeMap.get?_empty _).symm.trans hget
  running _ _ h := by
    obtain ⟨execution,hget,-⟩ := h
    cases (BTreeMap.get?_empty _).symm.trans hget

/-- A run agrees along its steps if the tasks and the executions agree in its states. -/
theorem Matches.of_agreed (hnext : (self.step invocation).Agreed)
    (hcommits : (invocation.durable 0).Commits)
    (hactive : ∀ id task executionId, self.tasks.get? id = some task → task.state = .pending → (self.step invocation).Runs id executionId → self.Is executionId .active) :
    self.Matches invocation.command := by
  obtain ⟨context,command,durable⟩ := invocation
  cases command with
  | startTask taskId executionId =>
    intro hstartable
    obtain ⟨task,hget,hpending,hstep⟩ := @Startable.step _ context durable _ _ hstartable hcommits
    rw [hstep] at hnext hactive
    refine ⟨hactive taskId task executionId hget hpending (taskIn_putTask.mpr (by simp)),?_⟩
    intro other hother
    have hne : other ≠ taskId := by
      rintro rfl
      obtain ⟨found,hfound,hbound⟩ := hother
      cases hfound.symm.trans hget
      rw [hpending] at hbound
      cases hbound
    apply hne
    apply hnext.bound other taskId executionId
    · exact taskIn_putTask.mpr (by rwa [if_neg hne])
    · exact taskIn_putTask.mpr (by simp [execution])
  | completeTask taskId executionId resultRefs =>
    intro hruns
    obtain ⟨task,-,hstep⟩ := @Runs.step _ context durable _ _ resultRefs hruns hcommits
    rw [hstep] at hnext
    exact hnext.completed taskId executionId (taskIn_putTask.mpr
      (by simp [execution, isCompleted]))
  | finishExecution id success =>
    cases success with
    | true =>
      intro hopen taskId hruns
      obtain ⟨execution,-,hstep⟩ := @Is.step _ context durable _ hopen hcommits
      rw [hstep] at hnext
      exact hnext.running taskId id (is_putExecution.mpr (by simp)) hruns
    | false => trivial
  | allocateExecution | createExecution | delegateExecution | getExecution | registerCallable
  | invokeCallable | createTask | runnableTasks | failTask | getTask | delegated => trivial

end ExecutionProjection

theorem agreement_iff (invocations : List Invocation) : Agreement invocations ↔
    Along step ExecutionProjection.Agrees .empty invocations := by
  constructor
  · intro h
    refine along_iff.mpr fun before invocation hbefore hcommits => ?_
    apply ExecutionProjection.Matches.of_agreed ?_ hcommits
    · exact h.active before invocation hbefore
    · have hnext := h.agreed (before ++ [invocation]) hbefore
      unfold run at hnext
      rw [runAll_append] at hnext
      exact hnext
  · intro h
    constructor
    · rintro before ⟨rest,rfl⟩
      obtain ⟨hbefore,-⟩ := along_append.mp h
      exact hbefore.invariant (fun _ _ hagreed => hagreed.step) agreed_empty
    · intro before invocation hbefore id task executionId hget hpending hruns
      exact (along_iff.mp h before invocation hbefore).active hget hpending hruns

/-- A call without authority, in the first generation, whose commit goes through. -/
def plainly (command : ExecutionCommand) : Invocation where
  context := ⟨.new [],some ⟨"generation-1"⟩,fun _ _ _ => .error "no such service"⟩
  command := command
  durable _ := ⟨.ok (),.committed⟩

/-- A task is completed while the execution that it is bound to goes on. -/
def early : List Invocation :=
  [.createExecution "parent" ⟨.empty⟩,.delegateExecution "parent" "worker" ⟨.empty⟩,
    .createTask "task" "parent" "work" .empty ⟨.empty⟩,.startTask "task" "worker",
    .completeTask "task" "worker" []].map plainly

theorem completed_early : ¬ Agreement early := by
  intro h
  have hagreed := h.agreed early (List.prefix_refl _)
  have htask : ((empty.run early).tasks.get? "task").map (·.state) =
      some (.completed "worker" []) := by decide +kernel
  have hworker : ((empty.run early).executions.get? "worker").map (·.state) =
      some .active := by decide +kernel
  generalize empty.run early = now at hagreed htask hworker
  obtain ⟨task,hget,hstate⟩ := Option.map_eq_some_iff.mp htask
  obtain ⟨execution,hexecution,hactive⟩ := Option.map_eq_some_iff.mp hworker
  have hcompleted : now.Completes "task" "worker" := ⟨task,hget,by rw [hstate]; exact ⟨rfl,rfl⟩⟩
  cases hactive.symm.trans ((hagreed.completed "task" "worker" hcompleted).eq hexecution)

end PhenixConductor.Execution
