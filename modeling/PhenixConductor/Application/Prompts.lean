import PhenixConductor.Application.Worker

/-! # The loop of the application worker

The loop takes the invocations of the client one after the other.
-/
namespace PhenixConductor.Application
open Collections Contract Client

/-- A prompt that is not answered yet: its execution, the cancellation flag that its task
looks at, and its invocation. -/
structure ActiveExecution where
  executionId : String
  cancellation : ℕ
  prompt : ℕ
deriving DecidableEq

/-- What a run reports before it ends. -/
inductive ToolChange
  | toolCall (callId : String) (callableId : CallableId) (input : PhenixValue)
  | toolResult (callId : String) (output : PhenixValue)
  | toolFailed (callId : String) (error : ApplicationError)

def ToolChange.change : ToolChange → ExecutionChange
  | .toolCall callId callableId input => .toolCall callId callableId input
  | .toolResult callId output => .toolResult callId output
  | .toolFailed callId error => .toolFailed callId error

abbrev RunResult := Except ApplicationError String

inductive ExecutionWorkerEvent
  | progress (sessionId : SessionId) (executionId : String) (change : ToolChange)
  | complete (sessionId : SessionId) (executionId : String) (result : RunResult)

namespace ExecutionWorkerEvent

def sessionId : ExecutionWorkerEvent → SessionId
  | .progress sessionId _ _ => sessionId
  | .complete sessionId _ _ => sessionId

def executionId : ExecutionWorkerEvent → String
  | .progress _ executionId _ => executionId
  | .complete _ executionId _ => executionId

end ExecutionWorkerEvent

/-- A task that runs the agent, with its result once it has sent that. -/
structure AgentTask where
  sessionId : SessionId
  executionId : String
  result : Option RunResult

/-- What an invocation is answered with. -/
inductive Reply (R : Type)
  | prompt (result : PromptResult)
  | session (info : SessionInfo)
  | snapshot
  | acknowledged
  | review (review : R)
  | value

/-- An invocation with its decoded input. `tools` is what the surface of the client's tools
gives for the session; `other` stands for the operations that touch no journal, with what
they answer. -/
inductive ApplicationInvocation (R : Type)
  | prompt (input : Except ApplicationError PromptInput) (tools : Except ApplicationError Unit)
  | cancel (input : Except ApplicationError SessionInput)
  | createSession (input : Except ApplicationError SessionCreateInput)
  | renameSession (input : Except ApplicationError SessionRenameInput)
  | closeSession (input : Except ApplicationError SessionInput)
  | resumeSession (input : Except ApplicationError SessionResumeInput)
  | recordReview (sessionId : SessionId) (review : R)
  | other (answer : Except ApplicationError Unit)

variable {D R H : Type}

/-- The state of the loop. Invocations have the numbers in which they are taken. `roots` are
the executions allocated for a prompt, `cancelled` the tasks whose flag is set. -/
structure PromptLoop (D R H : Type) where
  worker : ApplicationWorker D R H
  active : BTreeMap String ActiveExecution
  inputClosed : Bool
  events : List ExecutionWorkerEvent
  tasks : List AgentTask
  cancelled : List ℕ
  taken : ℕ
  answers : List (ℕ × Except ApplicationError (Reply R))
  roots : List (ℕ × String)

def PromptLoop.start (worker : ApplicationWorker D R H) : PromptLoop D R H where
  worker := worker
  active := .empty
  inputClosed := false
  events := []
  tasks := []
  cancelled := []
  taken := 0
  answers := []
  roots := []

def applicationExecutionCapacity : ℕ := 64

/-- `model_input_from_content` -/
def modelInputFromContent (content : List Content) : Except ApplicationError String := do
  let parts ← content.mapM fun
    | .text part => .ok part
    | _ => .error (.invalidInput ("the current model-turn ABI accepts text prompt content only; " ++
      "resource and image turns require the typed model-turn contract"))
  let text := String.join parts
  if text.toList.all Configuration.isWhiteSpace then
    .error (.invalidInput "prompt text must not be empty")
  else return text

section Handlers
variable (setting : ApplicationSetting D R)

/-- The calls of `start_prompt` on the worker. -/
def startExecution (request : PromptInput) : WorkerM D R H String := do
  let prompt ← prompt setting request
  let _ ← appendExecutionChange setting request.sessionId prompt.executionId (.state .running)
  return prompt.executionId

def completePromptOutput (sessionId : SessionId) (executionId text : String) :
    WorkerM D R H PromptResult := do
  let session ← requireOpenApplicationSession sessionId
  let _ ← appendSessionChange setting session (.textDelta executionId text)
  let _ ← appendSessionChange setting session (.message ⟨.assistant,[.text text]⟩)
  let _ ← appendExecutionChange setting sessionId executionId (.state .completed)
  return ⟨executionId,.endTurn⟩

/-- The calls of `finish_prompt` on the worker. -/
def endExecution (sessionId : SessionId) (executionId : String) :
    RunResult → WorkerM D R H PromptResult
  | .ok text => do
    finishRootExecution setting executionId true
    completePromptOutput setting sessionId executionId text
  | .error error => do
    ignored (finishRootExecution setting executionId false)
    ignored (appendExecutionChange setting sessionId executionId (.state (.failed error)))
    throw error

/-- The calls of `cancel_prompt` on the worker after the acknowledgement. -/
def cancelExecution (sessionId : SessionId) (executionId : String) : WorkerM D R H Unit := do
  ignored (finishRootExecution setting executionId false)
  ignored (appendExecutionChange setting sessionId executionId (.state .cancelled))

end Handlers

namespace PromptLoop
variable (setting : ApplicationSetting D R) (self : PromptLoop D R H)

def respond (number : ℕ) (answer : Except ApplicationError (Reply R)) : PromptLoop D R H :=
  { self with answers := self.answers ++ [(number,answer)] }

/-- The executions that the worker has allocated meanwhile belong to the prompt. -/
def rooted (number : ℕ) (worker : ApplicationWorker D R H) : PromptLoop D R H :=
  { self with
    worker
    roots := self.roots ++
      (worker.allocated.drop self.worker.allocated.length).map (number,·) }

def startPrompt (number : ℕ) (input : Except ApplicationError PromptInput)
    (tools : Except ApplicationError Unit) : PromptLoop D R H :=
  match input with
  | .error error => self.respond number (.error error)
  | .ok request =>
    if request.sessionId.text ∈ self.active.keys then
      self.respond number (.error (.conflict
        ("session " ++ request.sessionId.text ++ " already has a running execution")))
    else
      match modelInputFromContent request.content, tools with
      | .error error, _ => self.respond number (.error error)
      | .ok _, .error error => self.respond number (.error error)
      | .ok _, .ok _ =>
        match startExecution setting request self.worker with
        | .error error worker => (self.rooted number worker).respond number (.error error)
        | .ok executionId worker =>
          { self.rooted number worker with
            active := self.active.insert request.sessionId.text
              ⟨executionId,self.tasks.length,number⟩
            tasks := self.tasks ++ [⟨request.sessionId,executionId,none⟩] }

/-- The entry is taken out and the flag of its task is set. -/
def removeCancelled (key : String) (execution : ActiveExecution) : PromptLoop D R H :=
  { self with
    active := self.active.erase key
    cancelled := self.cancelled ++ [execution.cancellation] }

def cancelPrompt (number : ℕ) (input : Except ApplicationError SessionInput) :
    PromptLoop D R H :=
  match input with
  | .error error => self.respond number (.error error)
  | .ok request =>
    match cancel request self.worker with
    | .error error worker => { self with worker }.respond number (.error error)
    | .ok _ worker =>
      match self.active.get? request.sessionId.text with
      | none => { self with worker }.respond number (.ok .acknowledged)
      | some execution =>
        let worker := after (cancelExecution setting request.sessionId execution.executionId) worker
        (({ self with worker }.removeCancelled request.sessionId.text execution).respond
          execution.prompt (.ok (.prompt ⟨execution.executionId,.cancelled⟩))).respond number
            (.ok .acknowledged)

def handleExecutionProgress (sessionId : SessionId) (executionId : String) (change : ToolChange) :
    PromptLoop D R H :=
  match self.active.get? sessionId.text with
  | none => self
  | some execution =>
    if execution.executionId ≠ executionId then self
    else
      match appendExecutionChange setting sessionId executionId change.change self.worker with
      | .ok _ worker => { self with worker }
      | .error error worker =>
        let worker := after (finishRootExecution setting execution.executionId false) worker
        ({ self with worker }.removeCancelled sessionId.text execution).respond execution.prompt
          (.error error)

def finishPrompt (sessionId : SessionId) (executionId : String) (result : RunResult) :
    PromptLoop D R H :=
  match self.active.get? sessionId.text with
  | none => self
  | some execution =>
    let removed := { self with active := self.active.erase sessionId.text }
    if execution.executionId ≠ executionId then
      removed.respond execution.prompt (.error (.conflict
        "execution completion identity changed while the prompt was active"))
    else if execution.cancellation ∈ self.cancelled then
      removed.respond execution.prompt (.ok (.prompt ⟨executionId,.cancelled⟩))
    else
      match endExecution setting sessionId executionId result self.worker with
      | .ok result worker => { removed with worker }.respond execution.prompt (.ok (.prompt result))
      | .error error worker => { removed with worker }.respond execution.prompt (.error error)

def handleEvent : ExecutionWorkerEvent → PromptLoop D R H
  | .progress sessionId executionId change =>
    self.handleExecutionProgress setting sessionId executionId change
  | .complete sessionId executionId result =>
    self.finishPrompt setting sessionId executionId result

/-- An operation that is answered at once. -/
def answerWith {α : Type} (number : ℕ) (input : Except ApplicationError α)
    (operation : α → WorkerM D R H (Reply R)) : PromptLoop D R H :=
  match (check input >>= operation) self.worker with
  | .ok reply worker => { self with worker }.respond number (.ok reply)
  | .error error worker => { self with worker }.respond number (.error error)

def serve (number : ℕ) : ApplicationInvocation R → PromptLoop D R H
  | .prompt input tools => self.startPrompt setting number input tools
  | .cancel input => self.cancelPrompt setting number input
  | .createSession input => self.answerWith number input fun request =>
    (createSessionOp setting request).map .session
  | .renameSession input => self.answerWith number input fun request =>
    (renameSession setting request).map .session
  | .closeSession input => self.answerWith number input fun request =>
    (closeSession setting request).map fun _ => .acknowledged
  | .resumeSession input => self.answerWith number input fun request =>
    (resumeSession setting request).map fun _ => .snapshot
  | .recordReview sessionId review => self.answerWith number (.ok ()) fun _ =>
    (recordReview setting sessionId review).map .review
  | .other answer => self.answerWith number answer fun _ => pure .value

/-- A step of the loop, of a task, or of someone else who calls the execution service. -/
inductive Action (R : Type)
  | invocation (invocation : ApplicationInvocation R)
  | closeInput
  | event
  | report (task : ℕ) (change : ToolChange)
  | complete (task : ℕ) (result : RunResult)
  | external (invocation : Execution.Invocation)

/-- A task sends an event if it has not sent its result and the queue has room. -/
def send (task : ℕ) (event : AgentTask → ExecutionWorkerEvent) (result : Option RunResult) :
    PromptLoop D R H :=
  match self.tasks[task]? with
  | none => self
  | some sender =>
    if sender.result.isSome ∨ applicationExecutionCapacity ≤ self.events.length then self
    else { self with
      events := self.events ++ [event sender]
      tasks := self.tasks.set task { sender with result } }

def act : Action R → PromptLoop D R H
  | .invocation invocation =>
    if self.inputClosed then self
    else { self with taken := self.taken + 1 }.serve setting self.taken invocation
  | .closeInput => { self with inputClosed := true }
  | .event =>
    if self.active.keys = [] then self
    else
      match self.events with
      | [] => self
      | event :: events => { self with events }.handleEvent setting event
  | .report task change =>
    self.send task (fun sender => .progress sender.sessionId sender.executionId change) none
  | .complete task result =>
    self.send task (fun sender => .complete sender.sessionId sender.executionId result)
      (some result)
  | .external invocation =>
    { self with worker := { self.worker with
        executions := self.worker.executions.step invocation } }

/-- An action with the fates of the calls that it makes. -/
structure Turn (R : Type) where
  action : Action R
  fates : List (CallFate ApplicationError)
  looks : List SenderStatus

def supply (turn : Turn R) : PromptLoop D R H :=
  { self with worker := { self.worker with fates := turn.fates, looks := turn.looks } }

def step (turn : Turn R) : PromptLoop D R H := (self.supply turn).act setting turn.action

def run (turns : List (Turn R)) : PromptLoop D R H := runAll (step setting) self turns

/-- The loop has ended: the input is closed and no prompt is active. -/
def Drained : Prop := self.inputClosed = true ∧ self.active.keys = []

end PromptLoop

end PhenixConductor.Application
