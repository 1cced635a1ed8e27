import PhenixConductor.Context.StateService
import PhenixConductor.Persistence.Refinement

/-! # The context plugin

A state command changes the projections in memory first and then stores them.
-/
namespace PhenixConductor.Context
open Collections Contract Harness
open Execution (U64 ExecutionState)
open Persistence (Records transactRecords assertionFailed)

/-- The answer of the execution service to `GetExecution`. Other answers are kept as printed. -/
inductive ExecutionLookup
  | found (state : ExecutionState)
  | unknown
  | other (response : String)

/-- What the host does at a call: a durable operation may fail by itself, and a call of the
execution service gives an answer or an error. -/
structure HostTurn where
  failure : Option String
  execution : Except String ExecutionLookup

/-- The plugin's memory, the records of its namespace with the transactions committed so far, and
the turns of the host that are to come. -/
structure ContextPlugin where
  state : ContextStateService
  records : Records
  committed : List (List TransactionOp)
  turns : ℕ → HostTurn

abbrev PluginM := EStateM ContextFailure ContextPlugin

/-- A message with no error printed at its end. -/
def ContextFailure.message (text : String) : ContextFailure := ⟨text,none⟩

def nextTurn : PluginM HostTurn := do
  let plugin ← get
  set { plugin with turns := fun n => plugin.turns (n + 1) }
  return plugin.turns 0

/-- The value that a durable read finds. -/
def readable (key : String) (turn : HostTurn) (plugin : ContextPlugin) :
    Except ContextFailure (Option (List UInt8)) :=
  match turn.failure with
  | some error => .error (.message error)
  | none => .ok (plugin.records key)

def readRaw (key : String) : PluginM (Option (List UInt8)) := do
  let turn ← nextTurn
  let plugin ← get
  check (readable key turn plugin)

/-- The records that a transaction leaves. -/
def transacted (operations : List TransactionOp) (turn : HostTurn) (plugin : ContextPlugin) :
    Except ContextFailure Records :=
  match turn.failure with
  | some error => .error (.message error)
  | none => (transactRecords plugin.records operations).mapError
    fun key => .message (assertionFailed "phenix.context" "phenix.context.state" key)

def transactDurable (operations : List TransactionOp) : PluginM Unit := do
  let turn ← nextTurn
  checked (transacted operations turn) fun plugin records =>
    { plugin with
      records := records
      committed := plugin.committed ++ [operations] }

def requireActive (executionId : String) :
    Except String ExecutionLookup → Except ContextFailure Unit
  | .error error => .error (.message error)
  | .ok (.found .active) => .ok ()
  | .ok (.found state) =>
    .error ⟨"context target execution is not active: " ++ executionId,some (.execution state)⟩
  | .ok .unknown => .error (.message ("unknown context target execution: " ++ executionId))
  | .ok (.other response) =>
    .error (.message ("unexpected execution lookup response: " ++ response))

def requireActiveExecution (executionId : String) : PluginM Unit := do
  let turn ← nextTurn
  check (requireActive executionId turn.execution)

/-- A service command on the memory of the plugin. -/
def onMemory {α : Type} (x : ServiceM α) : PluginM α := fun plugin =>
  match x plugin.state with
  | .ok a state => .ok a { plugin with state := state }
  | .error e state => .error e { plugin with state := state }

variable (codec : ContextCodec)

/-- The memory goes back to a stored snapshot, and the failure is passed on. -/
def rollback {α : Type} (previous : Option (List UInt8)) (failure : ContextFailure) :
    PluginM α := do
  let state ← check ((ContextStateService.restore codec previous).mapError
    (serviceFailure "context state rollback failed: "))
  modify ({ · with state := state })
  throw failure

/-- The transaction that replaces the stored snapshot. -/
def replaceSnapshot (previous : Option (List UInt8)) (next : List UInt8) : List TransactionOp :=
  [.assertValue contextProjectionStateKey previous,.put contextProjectionStateKey next]

def takeSnapshot : PluginM (List UInt8) := do
  let plugin ← get
  check ((plugin.state.snapshot codec).mapError (serviceFailure "context state snapshot failed: "))

def persistState (previous : Option (List UInt8)) : PluginM Unit := do
  let next ← tryCatch (takeSnapshot codec) (rollback codec previous)
  tryCatch (transactDurable (replaceSnapshot previous next)) (rollback codec previous)

/-- A command on the memory, or the message for one that is not on the state. -/
def onService (leaked : String) (command : ContextCommand) : PluginM ContextResponse :=
  match command.onState with
  | some x => onMemory x
  | none => throw (.message leaked)

/-- `handle_state_command` of a command that may change the state. -/
def changeState (command : ContextCommand) : PluginM ContextResponse := do
  let previous ← readRaw contextProjectionStateKey
  let response ← match command.onState with
    | some x => tryCatch (onMemory x) (rollback codec previous)
    | none => throw (.message "non-state command reached context state dispatcher")
  persistState codec previous
  return response

def handleStateCommand : ContextCommand → PluginM ContextResponse
  | .getProjectionState executionId =>
    onService "projection state command leaked past state service" (.getProjectionState executionId)
  | command => changeState codec command

def resourceKey (resourceId : ContextResourceId) (revision : ContextRevisionId) : String :=
  "resource/" ++ resourceId.text ++ "/" ++ revision.text

def injectionsKey (executionId : String) : String := "injections/" ++ executionId

def identity (label value : String) : Except ContextFailure Unit :=
  (Execution.validateIdentity label value).mapError .message

/-- `read_resource`, with the message for a revision that is not there. -/
def readResource (resourceId : ContextResourceId) (revision : ContextRevisionId) :
    PluginM ContextResourceRevision := do
  match ← readRaw (resourceKey resourceId revision) with
  | none => throw (.message
      ("unknown context revision: " ++ resourceId.text ++ "@" ++ revision.text))
  | some bytes => check ((codec.decodeResource bytes).mapError .message)

def decodeInjections : Option (List UInt8) → Except ContextFailure (List ContextInjection)
  | none => .ok []
  | some bytes => (codec.decodeInjections bytes).mapError .message

/-- The next sequence number. No vector is so long that one more would overflow. -/
def nextSequence (injections : List ContextInjection) : Except ContextFailure U64 :=
  if h : injections.length + 1 < 2 ^ 64 then .ok ⟨injections.length + 1,h⟩
  else .error (.message "context injection sequence overflow")

/-- The next state of the memory with its snapshot, if the projection of an execution has to be
invalidated. -/
def nextState (executionId : String) (state : ContextStateService) :
    Except ContextFailure (Option (ContextStateService × List UInt8)) :=
  match state.invalidateIfPresent executionId with
  | none => .ok none
  | some next => do
    let bytes ← (next.snapshot codec).mapError (serviceFailure "context state snapshot failed: ")
    return some (next,bytes)

/-- The transaction of a load. -/
def loadOperations (key : String) (oldInjections : Option (List UInt8)) (injections : List UInt8)
    (oldState : Option (List UInt8)) (next : Option (ContextStateService × List UInt8)) :
    List TransactionOp :=
  [.assertValue key oldInjections,.put key injections] ++
    match next with
    | none => []
    | some (_,bytes) => replaceSnapshot oldState bytes

/-- The memory after the commit of a load. -/
def swapState (next : Option (ContextStateService × List UInt8)) (plugin : ContextPlugin) :
    ContextPlugin :=
  match next with
  | none => plugin
  | some (state,_) => { plugin with state := state }

def loadContext (executionId : String) (resourceId : ContextResourceId)
    (revision : ContextRevisionId) (requester : ContextInjectionRequester)
    (lifetime : ContextInjectionLifetime) (reason : String) :
    PluginM (ContextInjection × ContextResourceRevision) := do
  check (identity "execution id" executionId)
  check (identity "context load reason" reason)
  requireActiveExecution executionId
  let resource ← readResource codec resourceId revision
  let oldInjections ← readRaw (injectionsKey executionId)
  let injections ← check (decodeInjections codec oldInjections)
  let sequence ← check (nextSequence injections)
  let injection : ContextInjection :=
    ⟨sequence,executionId,⟨resourceId,revision⟩,requester,lifetime,reason⟩
  let oldState ← readRaw contextProjectionStateKey
  let plugin ← get
  let next ← check (nextState codec executionId plugin.state)
  let bytes ← check ((codec.encodeInjections (injections ++ [injection])).mapError .message)
  transactDurable (loadOperations (injectionsKey executionId) oldInjections bytes oldState next)
  modify (swapState next)
  return (injection,resource)

/-- `state_command_execution` -/
def ContextCommand.stateExecution : ContextCommand → Option String
  | .getProjectionState executionId => some executionId
  | .admission request => some request.executionId
  | .prepareCompaction proposal => some proposal.executionId
  | .commitCompaction executionId _ => some executionId
  | .invalidateProjection executionId => some executionId
  | .load .. => none

def handleLoad : ContextCommand → PluginM ContextResponse
  | .load executionId resourceId revision requester lifetime reason => do
    let (injection,resource) ←
      loadContext codec executionId resourceId revision requester lifetime reason
    return .loaded injection resource
  | _ => throw (.message "context projection command leaked past state dispatcher")

def ContextCommand.handle (command : ContextCommand) : PluginM ContextResponse :=
  match command.stateExecution with
  | some executionId => do
    requireActiveExecution executionId
    handleStateCommand codec command
  | none => handleLoad codec command

/-- `start`, after the schema was registered. -/
def startContext : PluginM Unit := do
  let snapshot ← readRaw contextProjectionStateKey
  let state ← check ((ContextStateService.restore codec snapshot).mapError
    (serviceFailure "invalid durable context projection state: "))
  modify ({ · with state := state })

/-- A command, and the turns of the host while it is handled. -/
structure ContextCall where
  command : ContextCommand
  turns : ℕ → HostTurn

def ContextPlugin.step (plugin : ContextPlugin) (call : ContextCall) : ContextPlugin :=
  after (call.command.handle codec) { plugin with turns := call.turns }

end PhenixConductor.Context
