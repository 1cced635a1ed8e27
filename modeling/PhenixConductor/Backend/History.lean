import PhenixConductor.Collections.JsonText
import PhenixConductor.Collections.Runs
import PhenixConductor.Contract.Json
import Mathlib.Data.List.Infix

/-! # The history of a native session

An execution works on a copy of the history, in rounds of a request and the tool calls of its
answer. The copy becomes the history if the execution succeeds.
-/
namespace PhenixConductor.Backend
open Collections Contract

inductive BackendError where
  | unsupported (message : String)
  | transport (message : String)
  | protocol (message : String)
  | contextOverflow (message : String)

/-! ## Messages -/

structure ToolCall where
  callId : String
  fnName : String
  fnArguments : JsonValue

structure ToolResponse where
  callId : String
  content : String

inductive ContentPart where
  | text (text : String)
  | toolCall (call : ToolCall)
  | other

/-- What the provider has answered, as it was captured. -/
abbrev MessageContent := List ContentPart

def MessageContent.toolCalls (content : MessageContent) : List ToolCall :=
  content.filterMap fun
    | .toolCall call => some call
    | .text _ | .other => none

inductive ChatMessage where
  | user (prompt : String)
  | assistant (content : MessageContent)
  | tool (responses : List ToolResponse)

/-! ## Tool calls -/

structure ToolInvocation where
  callable : CallableId
  argumentsJson : String

structure ToolResult where
  output : String
  success : Bool

/-- How arguments are encoded and how a name is quoted in a message. -/
structure ToolLibrary where
  encode : JsonValue → Except String String
  debug : String → String

def errorJson (message : String) : String := .ofList (jsonObject [("error",quote message)])

/-- The output of a call, with the invocation that the host has been asked for. -/
def dispatchToolCall (library : ToolLibrary) (tools : List CallableId)
    (host : ToolInvocation → Except BackendError ToolResult) (fnName : String) (fnArguments : JsonValue) :
    Except BackendError String × List ToolInvocation :=
  match tools.find? (·.text = fnName) with
  | none => (.ok (errorJson ("unknown or unavailable Phenix tool " ++ library.debug fnName)),[])
  | some callable =>
    match library.encode fnArguments with
    | .error error => (.ok (errorJson ("cannot encode tool arguments: " ++ error)),[])
    | .ok argumentsJson =>
      let invocation := ⟨callable,argumentsJson⟩
      (match host invocation with
        | .ok result => .ok (if result.success then result.output else errorJson result.output)
        | .error (.protocol error) => .ok (errorJson ("tool dispatch failed: " ++ error))
        | .error error => .error error,[invocation])

/-- The calls of a message in turn, each with what the host does when it is invoked. -/
def respond (library : ToolLibrary) (tools : List CallableId)
    (host : ℕ → ToolInvocation → Except BackendError ToolResult) :
    List ToolCall → Except BackendError (List ToolResponse) × List ToolInvocation
  | [] => (.ok [],[])
  | call :: calls =>
    match dispatchToolCall library tools (host calls.length) call.fnName call.fnArguments with
    | (.error error,invocations) => (.error error,invocations)
    | (.ok output,invocations) =>
      let (responses,later) := respond library tools host calls
      (responses.map (⟨call.callId,output⟩ :: ·),invocations ++ later)

/-! ## Rounds -/

inductive ChatStreamEvent where
  | chunk (content : String)
  | reasoningChunk (content : String)
  | end (capturedContent : Option MessageContent)
  | other

/-- An event of a stream: whether the execution is cancelled when it comes, and whether the host
takes what is emitted for it. -/
structure StreamItem where
  cancelled : Bool
  event : Except String ChatStreamEvent
  emitted : Except BackendError Unit

/-- What happens in a round. -/
structure Round where
  cancelled : Bool
  request : Except String (List StreamItem)
  host : ℕ → ToolInvocation → Except BackendError ToolResult

def overflowNeedles : List String := ["context_length_exceeded","maximum context length",
  "context window","too many tokens","input is too long","prompt is too long"]

def providerExecutionError (context message : String) : BackendError :=
  if overflowNeedles.any fun needle => needle.toList <:+: message.toLower.toList then
    .contextOverflow (context ++ ": " ++ message)
  else .transport (context ++ ": " ++ message)

/-- The content that a stream ends with, or nothing if it is cancelled. -/
def readStream : List StreamItem → Option MessageContent →
    Except BackendError (Option MessageContent)
  | [], captured => .ok (some (captured.getD []))
  | item :: items, captured =>
    if item.cancelled then .ok none
    else match item.event with
      | .error error => .error (providerExecutionError "provider stream failed" error)
      | .ok (.chunk _) | .ok (.reasoningChunk _) => do
        item.emitted
        readStream items captured
      | .ok (.end capturedContent) => readStream items capturedContent
      | .ok .other => readStream items captured

/-- An execution so far: its result, if it has returned, how many requests it has made, and the
invocations that it has asked for. -/
structure Turn where
  result : Option (Except BackendError (List ChatMessage))
  requests : ℕ
  invocations : List ToolInvocation

/-- The error of a loop that has had all its rounds. -/
def roundLimit (maxToolRounds : Option ℕ) (toolRounds : ℕ) : Option BackendError :=
  (maxToolRounds.filter (· ≤ toolRounds)).map fun limit =>
    .protocol ("provider exceeded " ++ toString limit ++ " consecutive tool rounds")

/-- The loop of `execute_turn`, as far as the rounds are known. -/
def turnLoop (library : ToolLibrary) (tools : List CallableId) (maxToolRounds : Option ℕ) :
    List Round → ℕ → List ChatMessage → Turn
  | [],toolRounds,_ => ⟨(roundLimit maxToolRounds toolRounds).map .error,0,[]⟩
  | round :: rounds,toolRounds,history =>
    match roundLimit maxToolRounds toolRounds with
    | some error => ⟨some (.error error),0,[]⟩
    | none =>
      if round.cancelled then ⟨some (.ok history),0,[]⟩
      else match round.request with
        | .error error => ⟨some (.error (providerExecutionError "provider request failed" error)),1,[]⟩
        | .ok stream =>
          match readStream stream none with
          | .error error => ⟨some (.error error),1,[]⟩
          | .ok none => ⟨some (.ok history),1,[]⟩
          | .ok (some content) =>
            let history := history ++ [.assistant content]
            if content.toolCalls.isEmpty then ⟨some (.ok history),1,[]⟩
            else match respond library tools round.host content.toolCalls with
              | (.error error,invocations) => ⟨some (.error error),1,invocations⟩
              | (.ok responses,invocations) =>
                let later := turnLoop library tools maxToolRounds rounds (toolRounds + 1)
                  (history ++ [.tool responses])
                ⟨later.result,later.requests + 1,invocations ++ later.invocations⟩

/-! ## The session -/

/-- The prompt, whether the provider and the tool definitions can be prepared, and the rounds. -/
structure Execution where
  prompt : String
  prepared : Except BackendError Unit
  rounds : List Round

structure NativeSession where
  tools : List CallableId
  maxToolRounds : Option ℕ
  history : List ChatMessage
  active : Bool

inductive NativeCall where
  | setRequest (tools : List CallableId)
  | execute (execution : Execution)

namespace NativeSession
variable (library : ToolLibrary)

def executeTurn (s : NativeSession) (execution : Execution) : Turn :=
  match execution.prepared with
  | .error error => ⟨some (.error error),0,[]⟩
  | .ok () => turnLoop library s.tools s.maxToolRounds execution.rounds 0
      (s.history ++ [.user execution.prompt])

/-- The end of `execute`, for an execution that returns; another one leaves the session active. -/
def finish (s : NativeSession) (turn : Turn) : NativeSession :=
  match turn.result with
  | none => { s with active := true }
  | some (.error _) => s
  | some (.ok history) => { s with history := history }

def execute (s : NativeSession) (execution : Execution) : Turn × NativeSession :=
  if s.active then
    (⟨some (.error (.protocol "Phenix backend session is already executing")),0,[]⟩,s)
  else (s.executeTurn library execution,s.finish (s.executeTurn library execution))

def step (s : NativeSession) : NativeCall → NativeSession
  | .setRequest tools => { s with tools := tools }
  | .execute execution => (s.execute library execution).2

end NativeSession

/-! ## What an execution adds -/

/-- Messages in which tool calls are answered one by one and at once. -/
inductive CompleteRounds : List ChatMessage → Prop
  | nil : CompleteRounds []
  | answer {content : MessageContent} (h : content.toolCalls = []) :
      CompleteRounds [.assistant content]
  | round {content : MessageContent} {responses : List ToolResponse} {rest : List ChatMessage}
      (h : responses.map ToolResponse.callId = content.toolCalls.map ToolCall.callId)
      (later : CompleteRounds rest) :
      CompleteRounds (.assistant content :: .tool responses :: rest)

/-- Prompts, each with the complete rounds that it has led to. -/
inductive WellFormed : List ChatMessage → Prop
  | nil : WellFormed []
  | turn {history rounds : List ChatMessage} (earlier : WellFormed history) (prompt : String)
      (h : CompleteRounds rounds) : WellFormed (history ++ .user prompt :: rounds)

variable {library : ToolLibrary} {tools : List CallableId} {history : List ChatMessage}

variable (library tools) in
theorem dispatchToolCall_tools (host : ToolInvocation → Except BackendError ToolResult)
    (fnName : String) (fnArguments : JsonValue) :
    ∀ i ∈ (dispatchToolCall library tools host fnName fnArguments).2, i.callable ∈ tools := by
  intro i hi
  unfold dispatchToolCall at hi
  split at hi
  · cases hi
  · next callable hfind =>
    split at hi
    · cases hi
    · cases List.mem_singleton.mp hi
      exact List.mem_of_find?_eq_some hfind

variable (library tools) in
theorem respond_spec (host : ℕ → ToolInvocation → Except BackendError ToolResult)
    (calls : List ToolCall) :
    (∀ i ∈ (respond library tools host calls).2, i.callable ∈ tools) ∧
      ∀ responses, (respond library tools host calls).1 = .ok responses →
        responses.map ToolResponse.callId = calls.map ToolCall.callId := by
  induction calls with
  | nil => exact ⟨nofun,by rintro _ ⟨⟩; rfl⟩
  | cons call calls ih =>
    have hcall := dispatchToolCall_tools library tools (host calls.length) call.fnName call.fnArguments
    rw [respond]
    split
    · next heq =>
      rw [heq] at hcall
      exact ⟨hcall,nofun⟩
    · next output invocations heq =>
      rw [heq] at hcall
      refine ⟨List.forall_mem_append.mpr ⟨hcall,ih.1⟩,fun responses hresponses => ?_⟩
      cases hlater : (respond library tools host calls).1 with
      | error e => simp [hlater, Except.map] at hresponses
      | ok later =>
        simp only [hlater, Except.map, Except.ok.injEq] at hresponses
        rw [← hresponses, List.map_cons, List.map_cons, ih.2 later hlater]

/-- What holds of the turns of a loop, `spent` requests after its start. -/
structure TurnSound (tools : List CallableId) (maxToolRounds : Option ℕ) (spent : ℕ)
    (history : List ChatMessage) (turn : Turn) : Prop where
  added : ∀ result, turn.result = some (.ok result) →
    ∃ rounds, CompleteRounds rounds ∧ result = history ++ rounds
  tools : ∀ i ∈ turn.invocations, i.callable ∈ tools
  requests : ∀ limit, maxToolRounds = some limit → spent + turn.requests ≤ max spent limit

theorem turnLoop_sound (maxToolRounds : Option ℕ) (rounds : List Round) (toolRounds : ℕ)
    (history : List ChatMessage) : TurnSound tools maxToolRounds toolRounds history
      (turnLoop library tools maxToolRounds rounds toolRounds history) := by
  induction rounds generalizing toolRounds history with
  | nil =>
    rw [turnLoop]
    cases roundLimit maxToolRounds toolRounds <;> exact ⟨nofun,nofun,by simp⟩
  | cons round rounds ih =>
    rw [turnLoop]
    cases hlimit : roundLimit maxToolRounds toolRounds with
    | some error => exact ⟨nofun,nofun,by simp⟩
    | none =>
      have hroom : ∀ limit, maxToolRounds = some limit → toolRounds + 1 ≤ max toolRounds limit := by
        rintro limit rfl
        simp [roundLimit] at hlimit
        omega
      dsimp only
      split_ifs
      · exact ⟨by rintro _ ⟨⟩; exact ⟨[],.nil,by simp⟩,nofun,by simp⟩
      · split
        · exact ⟨nofun,nofun,hroom⟩
        · split
          · exact ⟨nofun,nofun,hroom⟩
          · exact ⟨by rintro _ ⟨⟩; exact ⟨[],.nil,by simp⟩,nofun,hroom⟩
          · next content _ =>
            split_ifs with hcalls
            · exact ⟨by rintro _ ⟨⟩; exact ⟨_,.answer (List.isEmpty_iff.mp hcalls),rfl⟩,nofun,hroom⟩
            · have hrespond := respond_spec library tools round.host content.toolCalls
              split
              · next heq =>
                rw [heq] at hrespond
                exact ⟨nofun,hrespond.1,hroom⟩
              · next responses invocations heq =>
                rw [heq] at hrespond
                have hlater := ih (toolRounds + 1) (history ++ [.assistant content] ++ [.tool responses])
                refine ⟨fun result hresult => ?_,List.forall_mem_append.mpr ⟨hrespond.1,hlater.tools⟩,
                  fun limit hmax => ?_⟩
                · obtain ⟨rest,hrest,rfl⟩ := hlater.added result hresult
                  exact ⟨_,.round (hrespond.2 responses rfl) hrest,by simp⟩
                · have hlast := hlater.requests limit hmax
                  have hnow := hroom limit hmax
                  dsimp only
                  omega

namespace NativeSession

/-- What an execution that has led from one state of a session to another one has done. -/
structure Keeps (s : NativeSession) (prompt : String) (turn : Turn) (next : NativeSession) :
    Prop where
  failed : ∀ error, turn.result = some (.error error) → next.history = s.history
  extended : ∀ result, turn.result = some (.ok result) →
    ∃ rounds, CompleteRounds rounds ∧ next.history = s.history ++ .user prompt :: rounds
  running : turn.result = none → next.history = s.history
  tools : ∀ i ∈ turn.invocations, i.callable ∈ s.tools
  requests : ∀ limit, s.maxToolRounds = some limit → turn.requests ≤ limit

variable (library) in
theorem execute_keeps (s : NativeSession) (execution : Execution) :
    s.Keeps execution.prompt (s.execute library execution).1 (s.execute library execution).2 := by
  rw [execute]
  split_ifs with hactive
  · exact ⟨fun _ _ => rfl,nofun,nofun,nofun,by simp⟩
  · have hturn : TurnSound s.tools s.maxToolRounds 0 (s.history ++ [.user execution.prompt])
        (s.executeTurn library execution) := by
      rw [executeTurn]
      split
      · exact ⟨nofun,nofun,by simp⟩
      · exact turnLoop_sound ..
    generalize s.executeTurn library execution = turn at hturn
    refine ⟨fun error (h : turn.result = _) => ?_,fun result (h : turn.result = _) => ?_,
      fun (h : turn.result = _) => ?_,hturn.tools,fun limit h => ?_⟩
    · simp only [finish, h]
    · obtain ⟨rounds,hrounds,rfl⟩ := hturn.added result h
      exact ⟨rounds,hrounds,by simp [finish, h]⟩
    · simp only [finish, h]
    · simpa using hturn.requests limit h

theorem wellFormed_step (s : NativeSession) (call : NativeCall) (h : WellFormed s.history) :
    WellFormed (s.step library call).history := by
  cases call with
  | setRequest tools => exact h
  | execute execution =>
    have hkeeps := execute_keeps library s execution
    change WellFormed (s.execute library execution).2.history
    generalize s.execute library execution = executed at hkeeps
    obtain ⟨turn,next⟩ := executed
    cases hresult : turn.result with
    | none => exact (hkeeps.running hresult).symm ▸ h
    | some result =>
      cases result with
      | error error => exact (hkeeps.failed error hresult).symm ▸ h
      | ok history =>
        obtain ⟨rounds,hrounds,hnext⟩ := hkeeps.extended history hresult
        exact hnext.symm ▸ .turn h _ hrounds

theorem maxToolRounds_step (s : NativeSession) (call : NativeCall) :
    (s.step library call).maxToolRounds = s.maxToolRounds := by
  cases call with
  | setRequest tools => rfl
  | execute execution =>
    simp only [step, execute, finish]
    split_ifs
    · rfl
    · split <;> rfl

/-- In every sequence of executions the history consists of prompts and their complete rounds, and
every execution keeps or extends it, calls tools of its surface only and makes no more requests
than it may. -/
theorem history_well_formed (library : ToolLibrary) (tools : List CallableId)
    (maxToolRounds : Option ℕ) (calls : List NativeCall) (execution : Execution) :
    let s := runAll (step library) ⟨tools,maxToolRounds,[],false⟩ calls
    WellFormed s.history ∧ s.maxToolRounds = maxToolRounds ∧
      s.Keeps execution.prompt (s.execute library execution).1 (s.execute library execution).2 := by
  refine ⟨?_,?_,execute_keeps ..⟩
  · exact runAll_invariant (I := fun s : NativeSession => WellFormed s.history) wellFormed_step calls .nil
  · exact runAll_invariant (I := fun s : NativeSession => s.maxToolRounds = maxToolRounds)
      (fun s call h => (maxToolRounds_step s call).trans h) calls rfl

end NativeSession

end PhenixConductor.Backend
