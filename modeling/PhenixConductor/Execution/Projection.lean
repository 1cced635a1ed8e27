import PhenixConductor.Execution.Task
import PhenixConductor.Collections.JsonText

/-! # The execution service

The service keeps the executions, the callables and the worker tasks as one durable value.
-/
namespace PhenixConductor.Execution
open Collections Contract Component

structure ExecutionProjection where
  executions : BTreeMap String ExecutionRecord
  callables : BTreeMap String CallableRecord
  tasks : BTreeMap String WorkerTaskRecord

namespace ExecutionProjection
variable (self : ExecutionProjection)

def empty : ExecutionProjection := ⟨.empty,.empty,.empty⟩

def putExecution (id : String) (execution : ExecutionRecord) : ExecutionProjection :=
  { self with executions := self.executions.insert id execution }

def putCallable (id : String) (callable : CallableRecord) : ExecutionProjection :=
  { self with callables := self.callables.insert id callable }

def putTask (id : String) (task : WorkerTaskRecord) : ExecutionProjection :=
  { self with tasks := self.tasks.insert id task }

variable {self}

@[simp] theorem executions_putExecution (id : String) (execution : ExecutionRecord) :
    (self.putExecution id execution).executions = self.executions.insert id execution := rfl

@[simp] theorem tasks_putTask (id : String) (task : WorkerTaskRecord) :
    (self.putTask id task).tasks = self.tasks.insert id task := rfl

end ExecutionProjection

/-- The three commands on delegated tasks are refused before their data are read. -/
inductive ExecutionCommand
  | allocateExecution (idPrefix : String) (requestedAuthority : ExecutionAuthority)
  | createExecution (id : String) (requestedAuthority : ExecutionAuthority)
  | delegateExecution (parentExecution id : String) (requestedAuthority : ExecutionAuthority)
  | getExecution (id : String)
  | finishExecution (id : String) (success : Bool)
  | registerCallable (id service : String) (requiredAuthority : ExecutionAuthority)
  | invokeCallable (executionId callableId : String) (input : List UInt8)
  | createTask (id parentExecution description : String) (dependsOn : BTreeSet String)
      (requestedAuthority : ExecutionAuthority)
  | runnableTasks
  | startTask (taskId executionId : String)
  | completeTask (taskId executionId : String) (resultRefs : List String)
  | failTask (taskId executionId cause : String)
  | getTask (id : String)
  | delegated

inductive ExecutionResponse
  | execution (execution : ExecutionRecord)
  | executionLookup (execution : Option ExecutionRecord)
  | callable (callable : CallableRecord)
  | invocation (output : List UInt8)
  | task (task : WorkerTaskRecord)
  | taskLookup (task : Option WorkerTaskRecord)
  | runnableTasks (taskIds : List String)

/-- What the call carries, and what the services of the kernel answer to it. -/
structure CallContext where
  authority : Authority
  graphGeneration : Option GraphGenerationId
  invokeService : ServiceId → List UInt8 → Authority → Except String (List UInt8)

/-- What becomes of a commit: the assertion fails if another writer was faster. -/
inductive CommitOutcome
  | committed
  | contended (message : String)
  | failed (message : String)

/-- One read of the durable value and the commit that follows it. Either may be refused. -/
structure DurableAttempt where
  read : Except String Unit
  commit : CommitOutcome

/-- A changed copy and the answer to the command. -/
abbrev Changed := Except String (ExecutionProjection × ExecutionResponse)

section Commands
variable (context : CallContext) (state : ExecutionProjection)

def ensureNewExecution (id : String) : Except String Unit :=
  if id ∈ state.executions.keys then .error ("execution already exists: " ++ id) else .ok ()

def activeExecution (id : String) : Except String ExecutionRecord :=
  match state.executions.get? id with
  | none => .error ("unknown execution: " ++ id)
  | some execution =>
    if execution.state ≠ .active then .error ("execution is not active: " ++ id)
    else .ok execution

def requireRunningExecution (task : WorkerTaskRecord) (executionId : String) :
    Except String Unit :=
  if task.state = .running executionId then .ok ()
  else .error ("worker task " ++ task.id ++ " is not running on execution " ++ executionId)

/-- The state of the named task is completed. -/
def completedTask (id : String) : Bool :=
  (state.tasks.get? id).any (·.state.isCompleted)

def dependenciesCompleted (task : WorkerTaskRecord) : Bool :=
  task.dependsOn.keys.all (completedTask state)

def runnableTasks : List String :=
  ((state.tasks.values.filter (·.state = .pending)).filter (dependenciesCompleted state)).map (·.id)

/-- The execution that `CreateExecution` and `AllocateExecution` make. -/
def rootExecution (id : String) (requestedAuthority : ExecutionAuthority) :
    Except String ExecutionRecord := do
  let requested ← parseExecutionAuthority requestedAuthority
  match context.graphGeneration with
  | none => .error "execution requires an active graph generation"
  | some generation =>
    return { id
             parentExecution := none
             graphGeneration := generation.text
             authority := executionAuthorityFrom (context.authority.attenuate requested)
             state := .active }

def withExecution (execution : ExecutionRecord) : ExecutionProjection × ExecutionResponse :=
  (state.putExecution execution.id execution,.execution execution)

def withTask (task : WorkerTaskRecord) : ExecutionProjection × ExecutionResponse :=
  (state.putTask task.id task,.task task)

def createExecution (id : String) (requestedAuthority : ExecutionAuthority) : Changed := do
  validateIdentity "execution id" id
  ensureNewExecution state id
  let execution ← rootExecution context id requestedAuthority
  return withExecution state execution

/-- What the caller may pass on of the authority of an execution. -/
def callerLimited (held requestedAuthority : ExecutionAuthority) :
    Except String ExecutionAuthority := do
  let requested ← parseExecutionAuthority requestedAuthority
  attenuateExecutionAuthority held (executionAuthorityFrom (context.authority.attenuate requested))

def delegateExecution (parentExecution id : String) (requestedAuthority : ExecutionAuthority) :
    Changed := do
  validateIdentity "execution id" id
  ensureNewExecution state id
  let parent ← activeExecution state parentExecution
  let authority ← callerLimited context parent.authority requestedAuthority
  return withExecution state
    { id
      parentExecution := some parentExecution
      graphGeneration := parent.graphGeneration
      authority
      state := .active }

def finishExecution (id : String) (success : Bool) : Changed := do
  let execution ← activeExecution state id
  let finished := { execution with state := if success then .completed else .failed }
  return (state.putExecution id finished,.execution finished)

def registerCallable (id service : String) (requiredAuthority : ExecutionAuthority) : Changed := do
  validateIdentity "callable id" id
  let _ : ServiceId ← parseIdentifier service
  let _ ← parseExecutionAuthority requiredAuthority
  let callable : CallableRecord := { id, service, requiredAuthority }
  match state.callables.get? id with
  | some existing =>
    if existing ≠ callable then .error ("callable identity is immutable: " ++ id)
    else .ok (state,.callable existing)
  | none => .ok (state.putCallable id callable,.callable callable)

/-- The dependencies exist already, so a task that is added depends on older ones only. -/
def requireDependencies (dependsOn : BTreeSet String) : Except String Unit :=
  dependsOn.keys.forM fun dependency =>
    if dependency ∈ state.tasks.keys then .ok ()
    else .error ("unknown worker task dependency: " ++ dependency)

def createTask (id parentExecution description : String) (dependsOn : BTreeSet String)
    (requestedAuthority : ExecutionAuthority) : Changed := do
  validateIdentity "worker task id" id
  validateIdentity "worker task description" description
  if id ∈ state.tasks.keys then .error ("worker task already exists: " ++ id)
  else do
    let parent ← activeExecution state parentExecution
    requireDependencies state dependsOn
    let delegatedAuthority ← callerLimited context parent.authority requestedAuthority
    return withTask state
      { id
        parentExecution
        graphGeneration := parent.graphGeneration
        description
        dependsOn
        delegatedAuthority
        state := .pending }

def knownTask (taskId : String) : Except String WorkerTaskRecord :=
  match state.tasks.get? taskId with
  | none => .error ("unknown worker task: " ++ taskId)
  | some task => .ok task

/-- The checks of `StartTask` on the execution that the task is to run on. -/
def checkWorkerExecution (task : WorkerTaskRecord) (taskId executionId : String) :
    Except String Unit :=
  match state.executions.get? executionId with
  | none => .error ("unknown execution: " ++ executionId)
  | some execution =>
    if execution.parentExecution ≠ some task.parentExecution then
      .error ("worker execution " ++ executionId ++ " does not belong to parent " ++
        task.parentExecution)
    else if execution.authority ≠ task.delegatedAuthority then
      .error ("worker execution authority does not match task: " ++ taskId)
    else if execution.graphGeneration ≠ task.graphGeneration then
      .error ("worker execution graph generation does not match task: " ++ taskId)
    else .ok ()

def withTaskState (taskId : String) (task : WorkerTaskRecord) (next : WorkerTaskState) :
    ExecutionProjection × ExecutionResponse :=
  (state.putTask taskId { task with state := next },.task { task with state := next })

def startTask (taskId executionId : String) : Changed := do
  let task ← knownTask state taskId
  if task.state ≠ .pending then .error ("worker task is not pending: " ++ taskId)
  else if !dependenciesCompleted state task then .error ("worker task is blocked: " ++ taskId)
  else do
    checkWorkerExecution state task taskId executionId
    return withTaskState state taskId task (.running executionId)

def completeTask (taskId executionId : String) (resultRefs : List String) : Changed := do
  let task ← knownTask state taskId
  requireRunningExecution task executionId
  return withTaskState state taskId task (.completed executionId resultRefs)

def failTask (taskId executionId cause : String) : Changed := do
  validateIdentity "worker task failure cause" cause
  let task ← knownTask state taskId
  requireRunningExecution task executionId
  return withTaskState state taskId task (.failed executionId cause)

def mutate : ExecutionCommand → Changed
  | .createExecution id requestedAuthority => createExecution context state id requestedAuthority
  | .delegateExecution parentExecution id requestedAuthority =>
    delegateExecution context state parentExecution id requestedAuthority
  | .finishExecution id success => finishExecution state id success
  | .registerCallable id service requiredAuthority =>
    registerCallable state id service requiredAuthority
  | .createTask id parentExecution description dependsOn requestedAuthority =>
    createTask context state id parentExecution description dependsOn requestedAuthority
  | .runnableTasks => .ok (state,.runnableTasks (runnableTasks state))
  | .startTask taskId executionId => startTask state taskId executionId
  | .completeTask taskId executionId resultRefs =>
    completeTask state taskId executionId resultRefs
  | .failTask taskId executionId cause => failTask state taskId executionId cause
  | .delegated => .error "delegated task runtime is not active at this stack layer"
  | .allocateExecution _ _ | .getExecution _ | .getTask _ | .invokeCallable _ _ _ =>
    .error "non-mutation execution command reached mutation path"

/-- The ordinals of the executions whose identity is the prefix and a number of 64 bits. -/
def ordinals (idPrefix : String) : List ℕ :=
  state.executions.keys.filterMap fun id => (stripPrefix idPrefix id).bind (parseNumeral (2 ^ 64))

/-- One pass of the loop in `allocate_execution`, up to the commit. The prefix is quoted in the
message without escapes. -/
def allocateOnce (idPrefix : String) (requestedAuthority : ExecutionAuthority) : Changed := do
  let nextOrdinal := (ordinals state idPrefix).max?.getD 0 + 1
  if 2 ^ 64 ≤ nextOrdinal then
    .error ("execution id space exhausted for prefix \"" ++ idPrefix ++ "\"")
  else do
    let execution ← rootExecution context (idPrefix ++ Nat.repr nextOrdinal) requestedAuthority
    return withExecution state execution

def invokeCallable (executionId callableId : String) (input : List UInt8) :
    Except String ExecutionResponse := do
  let execution ← activeExecution state executionId
  match context.graphGeneration with
  | none => .error "callable invocation requires an active graph generation"
  | some activeGeneration =>
    if execution.graphGeneration ≠ activeGeneration.text then
      .error ("execution " ++ executionId ++ " is pinned to graph generation " ++
        execution.graphGeneration ++ ", but active generation is " ++ activeGeneration.text)
    else match state.callables.get? callableId with
      | none => .error ("unknown callable: " ++ callableId)
      | some callable => do
        let required ← parseExecutionAuthority callable.requiredAuthority
        let held ← parseExecutionAuthority execution.authority
        if !held.permitsAll required || !context.authority.permitsAll required then
          .error ("callable authority denied: " ++ callableId)
        else do
          let service ← parseIdentifier callable.service
          let output ← context.invokeService service input required
          return .invocation output

end Commands

/-- A computation on the durable value. -/
abbrev ExecutionM := EStateM String ExecutionProjection

/-- `mutate_state` -/
def mutateState (durable : DurableAttempt) (mutation : ExecutionProjection → Changed) :
    ExecutionM ExecutionResponse := do
  check durable.read
  let state ← get
  let changed ← check (mutation state)
  match durable.commit with
  | .committed => do
    set changed.1
    return changed.2
  | .contended message => throw message
  | .failed message => throw message

def maxRetries : ℕ := 64

/-- The loop of `allocate_execution`, with the number of passes that are left. -/
def allocateLoop (attempt : ExecutionProjection → Changed) (durable : ℕ → DurableAttempt) :
    ℕ → ℕ → ExecutionM ExecutionResponse
  | 0, _ => throw "execution allocation remained contended after 64 attempts"
  | retries+1, pass => do
    check (durable pass).read
    let state ← get
    let changed ← check (attempt state)
    match (durable pass).commit with
    | .committed => do
      set changed.1
      return changed.2
    | .contended _ => allocateLoop attempt durable retries (pass + 1)
    | .failed message => throw message

def allocateExecution (context : CallContext) (durable : ℕ → DurableAttempt)
    (idPrefix : String) (requestedAuthority : ExecutionAuthority) :
    ExecutionM ExecutionResponse := do
  check (validateIdentity "execution id prefix" idPrefix)
  allocateLoop (allocateOnce context · idPrefix requestedAuthority) durable maxRetries 0

/-- A command that only reads the durable value. -/
def readState (durable : DurableAttempt)
    (answer : ExecutionProjection → Except String ExecutionResponse) :
    ExecutionM ExecutionResponse := do
  check durable.read
  let state ← get
  check (answer state)

def execute (context : CallContext) (durable : ℕ → DurableAttempt) :
    ExecutionCommand → ExecutionM ExecutionResponse
  | .allocateExecution idPrefix requestedAuthority =>
    allocateExecution context durable idPrefix requestedAuthority
  | .getExecution id => readState (durable 0) fun state =>
    .ok (.executionLookup (state.executions.get? id))
  | .getTask id => readState (durable 0) fun state => .ok (.taskLookup (state.tasks.get? id))
  | .invokeCallable executionId callableId input => readState (durable 0) fun state =>
    invokeCallable context state executionId callableId input
  | command => mutateState (durable 0) fun state => mutate context state command

/-- A call of the service and what the durable store makes of it. -/
structure Invocation where
  context : CallContext
  command : ExecutionCommand
  durable : ℕ → DurableAttempt

namespace ExecutionProjection

def step (state : ExecutionProjection) (invocation : Invocation) : ExecutionProjection :=
  after (execute invocation.context invocation.durable invocation.command) state

def run (state : ExecutionProjection) (invocations : List Invocation) : ExecutionProjection :=
  runAll step state invocations

end ExecutionProjection

end PhenixConductor.Execution
