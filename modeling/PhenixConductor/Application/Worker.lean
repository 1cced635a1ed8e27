import PhenixConductor.Application.Projection
import PhenixConductor.Execution.Transitions

/-! # The application worker

The worker answers the operations of a client with calls of the session, execution and resource
services.
-/
namespace PhenixConductor.Application
open Collections Contract Client
open Execution (U64 ExecutionProjection ExecutionCommand ExecutionResponse CallContext)
open Observable (ObservableError Failure)

/-! ## Requests and results -/

structure SessionCreateInput where
  workingDirectory : String
  title : Option String

structure SessionRenameInput where
  sessionId : SessionId
  title : String

structure SessionInput where
  sessionId : SessionId

structure SessionResumeInput where
  sessionId : SessionId
  afterSequence : Option U64

structure PromptInput where
  sessionId : SessionId
  content : List Content

inductive StopReason
  | endTurn
  | cancelled
  | maxTokens
  | refused
deriving DecidableEq

structure PromptResult where
  executionId : String
  stopReason : StopReason
deriving DecidableEq

/-! ## The state of the worker -/

/-- What the worker finds when it looks at the queue of events to the client. -/
inductive SenderStatus
  | ready
  | full
  | closed
deriving DecidableEq

variable {D R H : Type}

/-- The worker with the durable states of the services that it calls. The fates of its calls
and what it finds at the queue are given in advance; when they are used up, everything
succeeds. `allocated` are the executions that its calls have made, `finished` the
`FinishExecution` commands that it has issued, and `appendFailed` says whether an append to a
journal has failed. -/
structure ApplicationWorker (D R H : Type) where
  sessions : SessionStore (SessionChange D R)
  executions : ExecutionProjection
  projection : SessionProjectionStore D R H
  nextSessionOrdinal : U64
  fates : List (CallFate ApplicationError)
  looks : List SenderStatus
  emitted : List (SessionUpdate D R)
  allocated : List String
  finished : List (String × Bool)
  appendFailed : Bool

/-- An operation of the worker. What it has done before it fails stays done. -/
abbrev WorkerM (D R H : Type) := EStateM ApplicationError (ApplicationWorker D R H)

/-- `let _ = …`: the result is dropped. -/
def ignored {α : Type} (x : WorkerM D R H α) : WorkerM D R H Unit := fun worker =>
  .ok () (after x worker)

/-- The codec of the projection with its schema, and what the calls of the worker carry. -/
structure ApplicationSetting (D R : Type) where
  toValue : SessionProjectionState D R → PhenixValue
  schema : PhenixSchema
  context : CallContext

/-- `ApplicationWorker::new` on the durable states that the harness finds. -/
def ApplicationWorker.new (setting : ApplicationSetting D R)
    (sessions : SessionStore (SessionChange D R)) (executions : ExecutionProjection) :
    Except (Failure ObservableError) (ApplicationWorker D R H) := do
  return {
    sessions
    executions
    projection := ← SessionProjectionStore.new setting.toValue setting.schema
    nextSessionOrdinal := 1
    fates := []
    looks := []
    emitted := []
    allocated := []
    finished := []
    appendFailed := false }

/-! ## Calls -/

section Calls
variable (setting : ApplicationSetting D R)

def invokeSession (command : SessionCommand (SessionChange D R)) :
    WorkerM D R H (SessionResponse (SessionChange D R)) := fun worker =>
  let fate := worker.fates.headD .served
  let (answer,sessions) := fate.call .failed (sessionService command) worker.sessions
  check answer { worker with sessions, fates := worker.fates.tail }

/-- The identities that are in the ledger after a call and were not there before. -/
def newExecutions (before after : ExecutionProjection) : List String :=
  after.executions.keys.filter (· ∉ before.executions.keys)

def issuedFinish : ExecutionCommand → List (String × Bool)
  | .finishExecution id success => [(id,success)]
  | _ => []

def invokeExecution (command : ExecutionCommand) : WorkerM D R H ExecutionResponse :=
  fun worker =>
    let fate := worker.fates.headD .served
    let (answer,executions) := fate.call .failed
      (Execution.execute setting.context (fun _ => ⟨.ok (),.committed⟩) command)
      worker.executions
    check answer { worker with
      executions
      fates := worker.fates.tail
      allocated := worker.allocated ++ newExecutions worker.executions executions
      finished := worker.finished ++ issuedFinish command }

/-- The registration of a root budget. The resource service keeps a state of its own. -/
def registerRootBudget : WorkerM D R H Unit := fun worker =>
  let (answer,_) := (worker.fates.headD .served).call (δ := ApplicationError) id (pure ()) ()
  check answer { worker with fates := worker.fates.tail }

def unexpectedSessionResponse (operation : String) : ApplicationError :=
  .invalidResponse ("unexpected session " ++ operation ++ " response")

/-- `From<ObservableError>` -/
def observableError : ObservableError → ApplicationError
  | .unknownValue value => .unknownValue value.text
  | .duplicateValue value =>
    .conflict ("observable value " ++ value.text ++ " is already registered")
  | .invalidPath _ _ message => .invalidPath message
  | .schemaMismatch _ _ message => .schemaMismatch message
  | .staleReference value => .staleReference value.text
  | .unsupportedSnapshotPolicy value policy mode initial =>
    .unsupportedSnapshotPolicy
      (ObservableError.unsupportedSnapshotPolicy value policy mode initial).text
  | .transactionConflict _ message => .transactionConflict message
  | .subscriptionCapacity => .subscriptionCapacity
  | .closed => .closed

/-- A panic ends the worker; it stands here as an error. -/
def applicationProjectionError : Failure SessionProjectionStoreError → ApplicationError
  | .error (.projection error) => .conflict error.text
  | .error (.observable error) => observableError error
  | .panic message => .failed message

def project (x : ProjectionM D R H Unit) : WorkerM D R H Unit := fun worker =>
  match x worker.projection with
  | .ok _ projection => .ok () { worker with projection }
  | .error failure projection =>
    .error (applicationProjectionError failure) { worker with projection }

end Calls

/-! ## Sessions -/

section Sessions
variable (setting : ApplicationSetting D R)

def sessionRecord (id : SessionId) : WorkerM D R H (Option SessionRecord) := do
  match ← invokeSession (.get id) with
  | .session session => return session
  | _ => throw (unexpectedSessionResponse "get")

def applicationSessionInfo (session : SessionRecord) : Except ApplicationError SessionInfo :=
  match session.workingDirectory with
  | none => .error (.notFound session.id.text)
  | some workingDirectory => .ok ⟨session.id,session.title,workingDirectory⟩

/-- The checks of `require_open_application_session` on what was read. -/
def requireOpenRecord (id : SessionId) :
    Option SessionRecord → Except ApplicationError SessionRecord
  | none => .error (.notFound id.text)
  | some session => do
    let _ ← applicationSessionInfo session
    if session.lifecycle ≠ .open then .error (.conflict ("session is closed: " ++ id.text))
    else return session

def requireOpenApplicationSession (id : SessionId) : WorkerM D R H SessionRecord := do
  let session ← sessionRecord id
  check (requireOpenRecord id session)

def sessionChangeStream : ContractId :=
  ⟨"phenix.application.type.session-change@1",by decide +kernel⟩

def sessionChangeJournal (change : SessionChange D R) : SessionJournalDraft (SessionChange D R) :=
  ⟨sessionChangeStream,change⟩

def sessionUpdateFromJournal (sessionId : SessionId)
    (entry : SessionJournalEntry (SessionChange D R)) :
    Except ApplicationError (SessionUpdate D R) :=
  if entry.stream ≠ sessionChangeStream then
    .error (.invalidResponse ("unexpected session journal stream: expected " ++
      sessionChangeStream.text ++ ", got " ++ entry.stream.text))
  else .ok ⟨sessionId,entry.sequence,entry.payload⟩

/-- The loop of `load_session_snapshot` over the entries. -/
def readUpdates (sessionId : SessionId) :
    U64 → List (SessionJournalEntry (SessionChange D R)) →
      Except ApplicationError (List (SessionUpdate D R))
  | _, [] => .ok []
  | expected, entry :: entries =>
    if entry.sequence ≠ expected then
      .error (.invalidResponse ("session journal gap for " ++ sessionId.text ++ ": expected " ++
        Nat.repr expected.val ++ ", got " ++ Nat.repr entry.sequence.val))
    else
      match checkedSucc expected with
      | none => .error (.failed "session journal sequence overflow")
      | some next => do
        let update ← sessionUpdateFromJournal sessionId entry
        let updates ← readUpdates sessionId next entries
        return update :: updates

def aheadOfRuntime (request : SessionResumeInput) (throughSequence : U64) : ApplicationError :=
  .conflict ("resume sequence for " ++ request.sessionId.text ++
    " is ahead of runtime watermark " ++ Nat.repr throughSequence.val)

def loadSessionSnapshot (request : SessionResumeInput) :
    WorkerM D R H (SessionSnapshot D R) := do
  match ← sessionRecord request.sessionId with
  | none => throw (.notFound request.sessionId.text)
  | some record =>
    let session ← check (applicationSessionInfo record)
    match ← invokeSession (.journal request.sessionId sessionChangeStream
        request.afterSequence) with
    | .journal throughSequence entries =>
      if request.afterSequence.any (· > throughSequence) then
        throw (aheadOfRuntime request throughSequence)
      else
        let expected := saturatingAdd (request.afterSequence.getD 0) 1
        let updates ← check (readUpdates request.sessionId expected entries)
        return ⟨session,throughSequence,updates⟩
    | _ => throw (unexpectedSessionResponse "journal")

/-- `reserve_session_event_slot` -/
def reserveSessionEventSlot : WorkerM D R H Unit := fun worker =>
  let looked := { worker with looks := worker.looks.tail }
  match worker.looks.headD .ready with
  | .ready => .ok () looked
  | .full => .error (.conflict "application event queue is full") looked
  | .closed => .error .disconnected looked

def emitSessionUpdate (update : SessionUpdate D R) : WorkerM D R H Unit := fun worker =>
  let looked := { worker with looks := worker.looks.tail }
  match worker.looks.headD .ready with
  | .ready => .ok () { looked with emitted := worker.emitted ++ [update] }
  | .full => .error (.conflict "application event queue is full") looked
  | .closed => .error .disconnected looked

/-- The update has the number after the last one that is projected. -/
def contiguous (state : SessionProjectionState D R) (sessionId : SessionId) (sequence : U64) :
    Bool :=
  (state.get? sessionId).bind (fun projection => checkedSucc projection.throughSequence) =
    some sequence

def projectJournalEntry (session : SessionInfo)
    (journal : SessionJournalEntry (SessionChange D R)) :
    WorkerM D R H (SessionUpdate D R) := do
  let update ← check (sessionUpdateFromJournal session.sessionId journal)
  let worker ← get
  if contiguous worker.projection.reducer session.sessionId update.sequence then
    project (applyUpdate setting.toValue update)
  else
    let snapshot ← loadSessionSnapshot ⟨session.sessionId,none⟩
    project (repairWithSnapshot setting.toValue snapshot [update])
  emitSessionUpdate update
  return update

/-- An append that fails is noted. -/
def noted {α : Type} (x : WorkerM D R H α) : WorkerM D R H α := fun worker =>
  match x worker with
  | .ok a worker => .ok a worker
  | .error error worker => .error error { worker with appendFailed := true }

def appendSessionChange (session : SessionRecord) (change : SessionChange D R) :
    WorkerM D R H (SessionUpdate D R) := noted do
  reserveSessionEventSlot
  match ← invokeSession (.appendJournal session.id (sessionChangeJournal change)) with
  | .journalAppended entry =>
    let info ← check (applicationSessionInfo session)
    projectJournalEntry setting info entry
  | _ => throw (unexpectedSessionResponse "append journal")

def appendExecutionChange (sessionId : SessionId) (executionId : String)
    (update : ExecutionChange) : WorkerM D R H (SessionUpdate D R) := noted do
  let session ← requireOpenApplicationSession sessionId
  appendSessionChange setting session (.execution executionId update)

def sessionIdOf (ordinal : U64) : Except String SessionId :=
  let text := "session-" ++ Nat.repr ordinal.val
  match valid : validateText IdentifierKind.session.noun text with
  | .ok () => .ok ⟨text,valid⟩
  | .error message => .error message

/-- The loop of `allocate_session_id`, with the number of ordinals that are left. -/
def allocateSessionLoop : ℕ → WorkerM D R H SessionId
  | 0 => throw (.failed "application session id space exhausted")
  | left+1 => do
    let worker ← get
    let ordinal := worker.nextSessionOrdinal
    match checkedSucc ordinal with
    | none => throw (.failed "application session id space exhausted")
    | some next =>
      set { worker with nextSessionOrdinal := next }
      match sessionIdOf ordinal with
      | .error message => throw (.failed ("generated invalid session id: " ++ message))
      | .ok id =>
        match ← sessionRecord id with
        | none => return id
        | some _ => allocateSessionLoop left

def allocateSessionId : WorkerM D R H SessionId := do
  let worker ← get
  allocateSessionLoop (2 ^ 64 - worker.nextSessionOrdinal.val)

def createSessionOp (request : SessionCreateInput) : WorkerM D R H SessionInfo := do
  let id ← allocateSessionId
  match ← invokeSession (.create (.application id request.workingDirectory request.title)) with
  | .created session =>
    let info ← check (applicationSessionInfo session)
    project (insertCreated setting.toValue info)
    return info
  | _ => throw (unexpectedSessionResponse "create")

def renameSession (request : SessionRenameInput) : WorkerM D R H SessionInfo := do
  let _ ← requireOpenApplicationSession request.sessionId
  reserveSessionEventSlot
  match ← invokeSession (.transition request.sessionId (.rename request.title)
      (sessionChangeJournal (.renamed request.title))) with
  | .transitioned session journal =>
    let info ← check (applicationSessionInfo session)
    let _ ← projectJournalEntry setting info journal
    return info
  | _ => throw (unexpectedSessionResponse "rename")

def closeSession (request : SessionInput) : WorkerM D R H Unit := do
  let _ ← requireOpenApplicationSession request.sessionId
  reserveSessionEventSlot
  match ← invokeSession (.transition request.sessionId .close
      (sessionChangeJournal .closed)) with
  | .transitioned session journal =>
    let info ← check (applicationSessionInfo session)
    let _ ← projectJournalEntry setting info journal
    return ()
  | _ => throw (unexpectedSessionResponse "close")

def resumeSession (request : SessionResumeInput) : WorkerM D R H (SessionSnapshot D R) := do
  let snapshot ← loadSessionSnapshot request
  if request.afterSequence.isNone then
    project (replaceSnapshot setting.toValue snapshot)
  return snapshot

/-- A decision on a review that the review service has recorded. -/
def recordReview (sessionId : SessionId) (review : R) : WorkerM D R H R := do
  let session ← requireOpenApplicationSession sessionId
  let _ ← appendSessionChange setting session (.review review)
  return review

end Sessions

/-! ## Root executions -/

section Executions
variable (setting : ApplicationSetting D R)

def finishRootExecution (executionId : String) (success : Bool) : WorkerM D R H Unit := do
  match ← invokeExecution setting (.finishExecution executionId success) with
  | .execution _ => return ()
  | _ => throw (.invalidResponse "unexpected execution completion response")

def allocateRootExecution : WorkerM D R H String := do
  match ← invokeExecution setting (.allocateExecution "execution-" ⟨.empty⟩) with
  | .execution execution =>
    tryCatch registerRootBudget fun error => do
      ignored (finishRootExecution setting execution.id false)
      throw error
    return execution.id
  | _ => throw (.invalidResponse "unexpected execution allocation response")

def prompt (request : PromptInput) : WorkerM D R H PromptResult := do
  let session ← requireOpenApplicationSession request.sessionId
  let executionId ← allocateRootExecution setting
  let _ ← tryCatch (appendSessionChange setting session (.message ⟨.user,request.content⟩))
    fun error => do
      ignored (finishRootExecution setting executionId false)
      throw error
  return ⟨executionId,.endTurn⟩

def cancel (request : SessionInput) : WorkerM D R H Unit := do
  let _ ← requireOpenApplicationSession request.sessionId
  return ()

end Executions

end PhenixConductor.Application
