import PhenixConductor.Execution.Projection

/-! # What a command can do

Every answered command is one of a few transitions of the projection, with all that its checks
have found.
-/
namespace PhenixConductor.Execution
open Collections Component

/-- The identity that an execution keeps for ever. -/
def ExecutionRecord.identity (execution : ExecutionRecord) :
    String × Option String × String × ExecutionAuthority :=
  (execution.id,execution.parentExecution,execution.graphGeneration,execution.authority)

/-- The worker execution is a child of the execution that has made the task, with the authority and
the generation of the task. -/
structure WorkerFor (task : WorkerTaskRecord) (execution : ExecutionRecord) : Prop where
  parent : execution.parentExecution = some task.parentExecution
  authority : execution.authority = task.delegatedAuthority
  generation : execution.graphGeneration = task.graphGeneration

/-- The command makes an execution. -/
def ExecutionCommand.creates : ExecutionCommand → Bool
  | .allocateExecution _ _ | .createExecution _ _ | .delegateExecution _ _ _ => true
  | .getExecution _ | .finishExecution _ _ | .registerCallable _ _ _ | .invokeCallable _ _ _
  | .createTask _ _ _ _ _ | .runnableTasks | .startTask _ _ | .completeTask _ _ _
  | .failTask _ _ _ | .getTask _ | .delegated => false

/-- The command may be answered without a change. -/
def ExecutionCommand.reads : ExecutionCommand → Bool
  | .getExecution _ | .registerCallable _ _ _ | .invokeCallable _ _ _ | .runnableTasks
  | .getTask _ => true
  | .allocateExecution _ _ | .createExecution _ _ | .delegateExecution _ _ _
  | .finishExecution _ _ | .createTask _ _ _ _ _ | .startTask _ _ | .completeTask _ _ _
  | .failTask _ _ _ | .delegated => false

/-- A transition of the projection, by the command that makes it. -/
inductive Transition (context : CallContext) (before : ExecutionProjection) :
    ExecutionCommand → ExecutionResponse → ExecutionProjection → Prop
  | root {command : ExecutionCommand} {execution : ExecutionRecord}
      (creates : command.creates = true) (fresh : execution.id ∉ before.executions.keys)
      (parent : execution.parentExecution = none) (state : execution.state = .active)
      (caller : execution.authority ≤ executionAuthorityFrom context.authority) :
      Transition context before command (.execution execution)
        (before.putExecution execution.id execution)
  | delegate {command : ExecutionCommand} {execution parent : ExecutionRecord}
      {parentExecution : String} (creates : command.creates = true)
      (fresh : execution.id ∉ before.executions.keys)
      (named : execution.parentExecution = some parentExecution)
      (found : before.executions.get? parentExecution = some parent)
      (generation : execution.graphGeneration = parent.graphGeneration)
      (state : execution.state = .active) (authority : execution.authority ≤ parent.authority)
      (caller : execution.authority ≤ executionAuthorityFrom context.authority) :
      Transition context before command (.execution execution)
        (before.putExecution execution.id execution)
  | finish {id : String} {success : Bool} {execution : ExecutionRecord}
      (found : before.executions.get? id = some execution) (state : execution.state = .active) :
      Transition context before (.finishExecution id success)
        (.execution { execution with state := if success then .completed else .failed })
        (before.putExecution id
          { execution with state := if success then .completed else .failed })
  | register {service : String} {callable : CallableRecord}
      {requiredAuthority : ExecutionAuthority} (fresh : callable.id ∉ before.callables.keys) :
      Transition context before (.registerCallable callable.id service requiredAuthority)
        (.callable callable)
        (before.putCallable callable.id callable)
  | create {requestedAuthority : ExecutionAuthority} {task : WorkerTaskRecord}
      {parent : ExecutionRecord} (fresh : task.id ∉ before.tasks.keys)
      (state : task.state = .pending)
      (found : before.executions.get? task.parentExecution = some parent)
      (generation : task.graphGeneration = parent.graphGeneration)
      (authority : task.delegatedAuthority ≤ parent.authority)
      (caller : task.delegatedAuthority ≤ executionAuthorityFrom context.authority)
      (dependencies : ∀ dependency ∈ task.dependsOn.keys, dependency ∈ before.tasks.keys) :
      Transition context before
        (.createTask task.id task.parentExecution task.description task.dependsOn
          requestedAuthority) (.task task)
        (before.putTask task.id task)
  | start {taskId executionId : String} {task : WorkerTaskRecord} {execution : ExecutionRecord}
      (found : before.tasks.get? taskId = some task) (state : task.state = .pending)
      (dependencies : dependenciesCompleted before task = true)
      (worker : before.executions.get? executionId = some execution)
      (matched : WorkerFor task execution) :
      Transition context before (.startTask taskId executionId)
        (.task { task with state := .running executionId })
        (before.putTask taskId { task with state := .running executionId })
  | complete {taskId executionId : String} {resultRefs : List String} {task : WorkerTaskRecord}
      (found : before.tasks.get? taskId = some task) (state : task.state = .running executionId) :
      Transition context before (.completeTask taskId executionId resultRefs)
        (.task { task with state := .completed executionId resultRefs })
        (before.putTask taskId { task with state := .completed executionId resultRefs })
  | fail {taskId executionId cause : String} {task : WorkerTaskRecord}
      (found : before.tasks.get? taskId = some task) (state : task.state = .running executionId) :
      Transition context before (.failTask taskId executionId cause)
        (.task { task with state := .failed executionId cause })
        (before.putTask taskId { task with state := .failed executionId cause })
  | answer {command : ExecutionCommand} {response : ExecutionResponse}
      (reads : command.reads = true)
      (runnable : command = .runnableTasks →
        response = .runnableTasks (Execution.runnableTasks before)) :
      Transition context before command response before

section Checks
variable {context : CallContext} {state : ExecutionProjection}

theorem ensureNewExecution_eq_ok {id : String} (h : ensureNewExecution state id = .ok ()) :
    id ∉ state.executions.keys := by
  unfold ensureNewExecution at h
  split_ifs at h with hmem
  exact hmem

variable {execution : ExecutionRecord}

theorem activeExecution_eq_ok {id : String} : activeExecution state id = .ok execution ↔
      state.executions.get? id = some execution ∧ execution.state = .active := by
  unfold activeExecution
  cases hget : state.executions.get? id with
  | none => simp
  | some found =>
    by_cases hactive : found.state = .active
    · simp only [hactive, ne_eq, not_true_eq_false, if_false, Except.ok.injEq, Option.some.injEq]
      constructor
      · rintro rfl
        exact ⟨rfl,hactive⟩
      · exact And.left
    · simp only [ne_eq, hactive, not_false_eq_true, if_true, reduceCtorEq, Option.some.injEq,
        false_iff, not_and]
      rintro rfl
      exact hactive

variable {task : WorkerTaskRecord}

theorem knownTask_eq_ok {taskId : String} :
    knownTask state taskId = .ok task ↔ state.tasks.get? taskId = some task := by
  unfold knownTask
  cases state.tasks.get? taskId <;> simp

theorem requireRunningExecution_eq_ok {executionId : String} :
    requireRunningExecution task executionId = .ok () ↔ task.state = .running executionId := by
  unfold requireRunningExecution
  split_ifs with h <;> simp [h]

variable {requestedAuthority : ExecutionAuthority}

theorem rootExecution_eq_ok {id : String}
    (h : rootExecution context id requestedAuthority = .ok execution) :
    execution.id = id ∧ execution.parentExecution = none ∧ execution.state = .active ∧
      execution.authority ≤ executionAuthorityFrom context.authority := by
  obtain ⟨requested,-,h⟩ := bind_eq_ok.mp h
  cases hgeneration : context.graphGeneration with
  | none => simp [hgeneration] at h
  | some generation =>
    rw [hgeneration] at h
    cases h
    exact ⟨rfl,rfl,rfl,executionAuthorityFrom_mono (Authority.attenuate_le_left _ _)⟩

theorem callerLimited_eq_ok {held authority : ExecutionAuthority}
    (h : callerLimited context held requestedAuthority = .ok authority) :
    authority ≤ held ∧ authority ≤ executionAuthorityFrom context.authority := by
  obtain ⟨requested,-,h⟩ := bind_eq_ok.mp h
  obtain ⟨hheld,hlimited⟩ := attenuateExecutionAuthority_le h
  exact ⟨hheld,hlimited.trans (executionAuthorityFrom_mono (Authority.attenuate_le_left _ _))⟩

theorem requireDependencies_eq_ok {dependsOn : BTreeSet String}
    (h : requireDependencies state dependsOn = .ok ()) :
    ∀ dependency ∈ dependsOn.keys, dependency ∈ state.tasks.keys := by
  intro dependency hmem
  have hone := forM_eq_ok.mp h dependency hmem
  split_ifs at hone with hknown
  exact hknown

theorem checkWorkerExecution_eq_ok {taskId executionId : String}
    (h : checkWorkerExecution state task taskId executionId = .ok ()) :
    ∃ execution, state.executions.get? executionId = some execution ∧ WorkerFor task execution := by
  unfold checkWorkerExecution at h
  cases hget : state.executions.get? executionId with
  | none => simp [hget] at h
  | some execution =>
    simp only [hget] at h
    split_ifs at h with hparent hauthority hgeneration
    exact ⟨execution,rfl,not_not.mp hparent,not_not.mp hauthority,not_not.mp hgeneration⟩

/-- A number that is written behind the prefix is one of its ordinals, so the next one is new. -/
theorem nextOrdinal_fresh {idPrefix : String}
    (h : (ordinals state idPrefix).max?.getD 0 + 1 < 2 ^ 64) :
    idPrefix ++ Nat.repr ((ordinals state idPrefix).max?.getD 0 + 1) ∉ state.executions.keys := by
  intro hmem
  have hordinal : (ordinals state idPrefix).max?.getD 0 + 1 ∈ ordinals state idPrefix := by
    apply List.mem_filterMap.mpr
    refine ⟨_,hmem,?_⟩
    rw [stripPrefix_append, Option.bind_some, parseNumeral_repr h]
  obtain ⟨largest,hlargest⟩ := Option.isSome_iff_exists.mp (List.isSome_max?_of_mem hordinal)
  have hle := (List.max?_eq_some_iff.mp hlargest).2 _ hordinal
  rw [hlargest, Option.getD_some] at hle
  omega

end Checks

section Inversion
variable {context : CallContext} {before next : ExecutionProjection} {response : ExecutionResponse}

variable {requestedAuthority : ExecutionAuthority}

variable {id : String}

theorem createExecution_transition
    (h : createExecution context before id requestedAuthority = .ok (next,response)) :
    Transition context before (.createExecution id requestedAuthority) response next := by
  obtain ⟨-,-,h⟩ := bind_eq_ok.mp h
  obtain ⟨⟨⟩,hnew,h⟩ := bind_eq_ok.mp h
  obtain ⟨execution,hexecution,h⟩ := bind_eq_ok.mp h
  obtain ⟨hid,hparent,hstate,hcaller⟩ := rootExecution_eq_ok hexecution
  cases h
  exact .root rfl (hid ▸ ensureNewExecution_eq_ok hnew) hparent hstate hcaller

theorem allocateOnce_transition {idPrefix : String}
    (h : allocateOnce context before idPrefix requestedAuthority = .ok (next,response)) :
    Transition context before (.allocateExecution idPrefix requestedAuthority) response next := by
  unfold allocateOnce at h
  dsimp only at h
  split_ifs at h with hbound
  obtain ⟨execution,hexecution,h⟩ := bind_eq_ok.mp h
  obtain ⟨hid,hparent,hstate,hcaller⟩ := rootExecution_eq_ok hexecution
  cases h
  exact .root rfl (hid ▸ nextOrdinal_fresh (not_le.mp hbound)) hparent hstate hcaller

variable {parentExecution : String}

theorem delegateExecution_transition
    (h : delegateExecution context before parentExecution id requestedAuthority = .ok (next,response)) :
    Transition context before (.delegateExecution parentExecution id requestedAuthority) response
      next := by
  obtain ⟨-,-,h⟩ := bind_eq_ok.mp h
  obtain ⟨⟨⟩,hnew,h⟩ := bind_eq_ok.mp h
  obtain ⟨parent,hparent,h⟩ := bind_eq_ok.mp h
  obtain ⟨authority,hauthority,h⟩ := bind_eq_ok.mp h
  obtain ⟨hheld,hcaller⟩ := callerLimited_eq_ok hauthority
  obtain ⟨hget,-⟩ := activeExecution_eq_ok.mp hparent
  cases h
  exact .delegate rfl (ensureNewExecution_eq_ok hnew) rfl hget rfl rfl hheld hcaller

theorem finishExecution_transition {success : Bool}
    (h : finishExecution before id success = .ok (next,response)) :
    Transition context before (.finishExecution id success) response next := by
  obtain ⟨execution,hexecution,h⟩ := bind_eq_ok.mp h
  obtain ⟨hget,hstate⟩ := activeExecution_eq_ok.mp hexecution
  cases h
  exact .finish hget hstate

theorem registerCallable_transition {service : String} {requiredAuthority : ExecutionAuthority}
    (h : registerCallable before id service requiredAuthority = .ok (next,response)) :
    Transition context before (.registerCallable id service requiredAuthority) response next := by
  obtain ⟨-,-,h⟩ := bind_eq_ok.mp h
  obtain ⟨-,-,h⟩ := bind_eq_ok.mp h
  obtain ⟨-,-,h⟩ := bind_eq_ok.mp h
  cases hget : before.callables.get? id with
  | none =>
    rw [hget] at h
    cases h
    have hfresh := (BTreeMap.get?_eq_none _).mp hget
    exact @Transition.register context before service ⟨id,service,requiredAuthority⟩ _ hfresh
  | some existing =>
    simp only [hget] at h
    split_ifs at h
    cases h
    exact .answer rfl nofun

theorem createTask_transition {description : String} {dependsOn : BTreeSet String}
    (h : createTask context before id parentExecution description dependsOn requestedAuthority = .ok (next,response)) :
    Transition context before
      (.createTask id parentExecution description dependsOn requestedAuthority) response next := by
  obtain ⟨-,-,h⟩ := bind_eq_ok.mp h
  obtain ⟨-,-,h⟩ := bind_eq_ok.mp h
  split_ifs at h with hnew
  obtain ⟨parent,hparent,h⟩ := bind_eq_ok.mp h
  obtain ⟨⟨⟩,hdependencies,h⟩ := bind_eq_ok.mp h
  obtain ⟨authority,hauthority,h⟩ := bind_eq_ok.mp h
  obtain ⟨hheld,hcaller⟩ := callerLimited_eq_ok hauthority
  obtain ⟨hget,-⟩ := activeExecution_eq_ok.mp hparent
  have hknown := requireDependencies_eq_ok hdependencies
  cases h
  exact @Transition.create context before requestedAuthority
    ⟨id,parentExecution,parent.graphGeneration,description,dependsOn,authority,.pending⟩ parent
    hnew rfl hget rfl hheld hcaller hknown

variable {taskId executionId : String}

theorem startTask_transition (h : startTask before taskId executionId = .ok (next,response)) :
    Transition context before (.startTask taskId executionId) response next := by
  obtain ⟨task,htask,h⟩ := bind_eq_ok.mp h
  split_ifs at h with hpending hdependencies
  obtain ⟨⟨⟩,hcheck,h⟩ := bind_eq_ok.mp h
  obtain ⟨execution,hget,hworker⟩ := checkWorkerExecution_eq_ok hcheck
  cases h
  exact .start (knownTask_eq_ok.mp htask) (not_not.mp hpending) (by simpa using hdependencies)
    hget hworker

theorem completeTask_transition {resultRefs : List String}
    (h : completeTask before taskId executionId resultRefs = .ok (next,response)) :
    Transition context before (.completeTask taskId executionId resultRefs) response next := by
  obtain ⟨task,htask,h⟩ := bind_eq_ok.mp h
  obtain ⟨⟨⟩,hrunning,h⟩ := bind_eq_ok.mp h
  cases h
  exact .complete (knownTask_eq_ok.mp htask) (requireRunningExecution_eq_ok.mp hrunning)

theorem failTask_transition {cause : String}
    (h : failTask before taskId executionId cause = .ok (next,response)) :
    Transition context before (.failTask taskId executionId cause) response next := by
  obtain ⟨-,-,h⟩ := bind_eq_ok.mp h
  obtain ⟨task,htask,h⟩ := bind_eq_ok.mp h
  obtain ⟨⟨⟩,hrunning,h⟩ := bind_eq_ok.mp h
  cases h
  exact .fail (knownTask_eq_ok.mp htask) (requireRunningExecution_eq_ok.mp hrunning)

theorem mutate_transition {command : ExecutionCommand}
    (h : mutate context before command = .ok (next,response)) :
    Transition context before command response next := by
  cases command with
  | createExecution => exact createExecution_transition h
  | delegateExecution => exact delegateExecution_transition h
  | finishExecution => exact finishExecution_transition h
  | registerCallable => exact registerCallable_transition h
  | createTask => exact createTask_transition h
  | runnableTasks =>
    cases h
    exact .answer rfl fun _ => rfl
  | startTask => exact startTask_transition h
  | completeTask => exact completeTask_transition h
  | failTask => exact failTask_transition h
  | allocateExecution | getExecution | getTask | invokeCallable | delegated => cases h

/-- What a computation on the durable value can do under a command: it makes a transition, or leaves
the value as it is and fails. -/
inductive Outcome (context : CallContext) (command : ExecutionCommand)
    (before : ExecutionProjection) :
    EStateM.Result String ExecutionProjection ExecutionResponse → Prop
  | ok {response : ExecutionResponse} {next : ExecutionProjection}
      (h : Transition context before command response next) :
      Outcome context command before (.ok response next)
  | error (message : String) : Outcome context command before (.error message before)

variable {command : ExecutionCommand}

theorem mutateState_outcome {durable : DurableAttempt} {mutation : ExecutionProjection → Changed}
    (hmutation : ∀ next response, mutation before = .ok (next,response) →
      Transition context before command response next) :
    Outcome context command before (mutateState durable mutation before) := by
  unfold mutateState
  cases durable.read with
  | error message => exact .error message
  | ok _ =>
    simp only [check_ok, stateful_bind, stateful_get]
    cases hchanged : mutation before with
    | error message => exact .error message
    | ok changed =>
      cases durable.commit with
      | committed => exact .ok (hmutation changed.1 changed.2 hchanged)
      | contended message => exact .error message
      | failed message => exact .error message

theorem allocateLoop_outcome {attempt : ExecutionProjection → Changed}
    {durable : ℕ → DurableAttempt}
    (hattempt : ∀ next response, attempt before = .ok (next,response) →
      Transition context before command response next) (retries pass : ℕ) :
    Outcome context command before (allocateLoop attempt durable retries pass before) := by
  induction retries generalizing pass with
  | zero => exact .error _
  | succ retries ih =>
    unfold allocateLoop
    cases (durable pass).read with
    | error message => exact .error message
    | ok _ =>
      simp only [check_ok, stateful_bind, stateful_get]
      cases hchanged : attempt before with
      | error message => exact .error message
      | ok changed =>
        cases (durable pass).commit with
        | committed => exact .ok (hattempt changed.1 changed.2 hchanged)
        | contended message => exact ih (pass + 1)
        | failed message => exact .error message

theorem allocateExecution_outcome (durable : ℕ → DurableAttempt) (idPrefix : String)
    (requestedAuthority : ExecutionAuthority) :
    Outcome context (.allocateExecution idPrefix requestedAuthority) before
      (allocateExecution context durable idPrefix requestedAuthority before) := by
  unfold allocateExecution
  cases validateIdentity "execution id prefix" idPrefix with
  | error message => exact .error message
  | ok _ => exact allocateLoop_outcome (fun _ _ => allocateOnce_transition) maxRetries 0

theorem readState_outcome {durable : DurableAttempt}
    {answer : ExecutionProjection → Except String ExecutionResponse}
    (hreads : command.reads = true) (hrunnable : command ≠ .runnableTasks) :
    Outcome context command before (readState durable answer before) := by
  unfold readState
  cases durable.read with
  | error message => exact .error message
  | ok _ =>
    simp only [check_ok, stateful_bind, stateful_get]
    cases answer before with
    | error message => exact .error message
    | ok response => exact .ok (.answer hreads fun h => absurd h hrunnable)

theorem execute_outcome (durable : ℕ → DurableAttempt) (command : ExecutionCommand) :
    Outcome context command before (execute context durable command before) := by
  have hmutate : ∀ next response, mutate context before command = .ok (next,response) →
      Transition context before command response next := fun _ _ => mutate_transition
  cases command with
  | allocateExecution idPrefix requestedAuthority =>
    exact allocateExecution_outcome durable idPrefix requestedAuthority
  | getExecution id => exact readState_outcome rfl nofun
  | getTask id => exact readState_outcome rfl nofun
  | invokeCallable executionId callableId input => exact readState_outcome rfl nofun
  | createExecution | delegateExecution | finishExecution | registerCallable | createTask
  | runnableTasks | startTask | completeTask | failTask | delegated =>
    exact mutateState_outcome hmutate

/-- A step is a transition, or changes nothing. -/
theorem step_transition (before : ExecutionProjection) (invocation : Invocation) :
    (∃ response, Transition invocation.context before invocation.command response
      (before.step invocation)) ∨ before.step invocation = before := by
  have h : Outcome invocation.context invocation.command before
      (execute invocation.context invocation.durable invocation.command before) :=
    execute_outcome invocation.durable invocation.command
  unfold ExecutionProjection.step after
  generalize execute invocation.context invocation.durable invocation.command before = result at h
  cases h with
  | ok h => exact .inl ⟨_,h⟩
  | error message => exact .inr rfl

end Inversion

end PhenixConductor.Execution
