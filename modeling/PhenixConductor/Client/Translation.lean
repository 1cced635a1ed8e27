import PhenixConductor.Client.Gaps
import PhenixConductor.Contract.Json

/-! # Translation of session updates

The adapter turns an application update into notifications of the protocol.
-/
namespace PhenixConductor.Client
open Collections Contract
open Execution (U64)

/-! ### Application updates -/

inductive ApplicationError
  | unsupportedCapability (capability : ContractId)
  | invalidInput (message : String)
  | invalidResponse (message : String)
  | notFound (resource : String)
  | unauthenticated (message : String)
  | permissionDenied (message : String)
  | conflict (message : String)
  | cancelled
  | disconnected
  | failed (message : String)
  | unknownValue (value : String)
  | invalidPath (message : String)
  | schemaMismatch (message : String)
  | staleReference (value : String)
  | unsupportedSnapshotPolicy (message : String)
  | transactionConflict (message : String)
  | subscriptionCapacity
  | closed

inductive MessageRole
  | user
  | assistant
deriving DecidableEq

inductive Content
  | text (text : String)
  | image (mimeType : String) (data : List UInt8)
  | resource (uri : String) (mimeType text : Option String)

structure Message where
  role : MessageRole
  content : List Content

inductive ExecutionState
  | pending
  | running
  | completed
  | cancelled
  | failed (error : ApplicationError)

inductive ExecutionChange
  | state (state : ExecutionState)
  | toolCall (callId : String) (callableId : CallableId) (input : PhenixValue)
  | toolResult (callId : String) (output : PhenixValue)
  | toolFailed (callId : String) (error : ApplicationError)
  | progress (message : String) (fraction : Option F64)

/-- `D` and `R` are the diagnostics and the review records. -/
inductive SessionChange (D R : Type)
  | message (message : Message)
  | textDelta (executionId text : String)
  | renamed (title : String)
  | closed
  | execution (executionId : String) (update : ExecutionChange)
  | diagnostic (diagnostic : D)
  | review (review : R)

structure SessionUpdate (D R : Type) where
  sessionId : SessionId
  sequence : U64
  update : SessionChange D R

/-! ### The adapter -/

/-- The codecs that are derived from the types, and the JSON library. -/
structure Encodings (D R : Type) where
  updateValue : SessionUpdate D R → PhenixValue
  errorValue : ApplicationError → PhenixValue
  toJson : PhenixValue → Except String JsonValue
  toRawValue : PhenixValue → Except String String
  fromStr : String → Except String PhenixValue

structure EventDescriptor where
  payload : ContractId
  capability : ContractId

structure ApplicationDescriptor where
  events : BTreeMap ContractId EventDescriptor
  types : BTreeMap ContractId PhenixSchema

inductive ToolCallStatus
  | inProgress
  | completed
  | failed
deriving DecidableEq

/-- The updates of the protocol that the adapter uses. -/
inductive AcpSessionUpdate
  | userMessageChunk (text : String)
  | agentMessageChunk (text : String)
  | toolCall (toolCallId title : String) (status : ToolCallStatus) (rawInput : JsonValue)
  | toolCallUpdate (toolCallId : String) (status : ToolCallStatus) (rawOutput : JsonValue)

/-- The update of a notification with what its meta object says under `phenix.executionId`. -/
structure Correlated where
  executionId : Option String
  update : AcpSessionUpdate

structure ExtNotification where
  method : String
  params : String

inductive TranslatedSessionUpdate
  | standard (notification : SessionNotification Correlated)
  | extension (notification : ExtNotification)

def sessionUpdateEvent : String := "phenix.application.session-update@1"

def extensionName (id : ContractId) : String :=
  let domain := "phenix.application.".toList
  let suffix :=
    if domain.isPrefixOf id.text.toList then id.text.toList.drop domain.length else id.text.toList
  "_phenix/" ++ String.ofList suffix

def standard (sessionId : SessionId) (sequence : U64) (executionId : Option String)
    (update : AcpSessionUpdate) : SessionNotification Correlated :=
  ⟨sessionId.text,some sequence,executionId,update⟩

section Adapter
variable {D R : Type} (encodings : Encodings D R) (descriptor : ApplicationDescriptor)

def translateExtensionEvent (event : ContractId) (payload : PhenixValue) :
    Except ApplicationError ExtNotification := do
  let some declaration := descriptor.events.get? event
    | .error (.invalidResponse ("application descriptor is missing event " ++ event.text))
  let some schema := descriptor.types.get? declaration.payload
    | .error (.invalidResponse
        ("application descriptor is missing event payload type " ++ declaration.payload.text))
  if let .error error := schema.parse payload then
    .error (.invalidResponse ("application event violates descriptor schema: " ++ error.text))
  else
    match encodings.toRawValue payload with
    | .error error =>
      .error (.invalidResponse ("cannot encode application event for ACP: " ++ error))
    | .ok params => .ok ⟨extensionName event,params⟩

def extensionFallback (update : SessionUpdate D R) :
    Except ApplicationError TranslatedSessionUpdate := do
  let some (event,_) := descriptor.events.toList.find? (·.1.text = sessionUpdateEvent)
    | .error (.invalidResponse
        ("application descriptor is missing event " ++ sessionUpdateEvent))
  .extension <$> translateExtensionEvent encodings descriptor event (encodings.updateValue update)

def encodeJson (value : PhenixValue) : Except ApplicationError JsonValue :=
  match encodings.toJson value with
  | .error error =>
    .error (.invalidResponse ("cannot encode application value for ACP: " ++ error))
  | .ok value => .ok value

def translateExecutionChange (sessionId : SessionId) (sequence : U64) (executionId : String)
    (execution : ExecutionChange) (fallback : Except ApplicationError TranslatedSessionUpdate) :
    Except ApplicationError (List TranslatedSessionUpdate) :=
  match execution with
  | .toolCall callId callableId input => do
    let input ← encodeJson encodings input
    .ok [.standard (standard sessionId sequence (some executionId)
      (.toolCall callId callableId.text .inProgress input))]
  | .toolResult callId output => do
    let output ← encodeJson encodings output
    .ok [.standard (standard sessionId sequence (some executionId)
      (.toolCallUpdate callId .completed output))]
  | .toolFailed callId error => do
    let error ← encodeJson encodings (encodings.errorValue error)
    .ok [.standard (standard sessionId sequence (some executionId)
      (.toolCallUpdate callId .failed error))]
  | .state _ | .progress _ _ => do
    let item ← fallback
    .ok [item]

def chunk (role : MessageRole) (text : String) : AcpSessionUpdate :=
  match role with
  | .user => .userMessageChunk text
  | .assistant => .agentMessageChunk text

/-- The texts of a message, if all its content is text. -/
def texts (message : Message) : Option (List String) :=
  message.content.mapM fun
    | .text text => some text
    | _ => none

def translateSessionUpdate (update : SessionUpdate D R) :
    Except ApplicationError (List TranslatedSessionUpdate) :=
  let fallback := extensionFallback encodings descriptor update
  match update.update with
  | .message message =>
    match texts message with
    -- the first other part ends the loop, and the chunks made so far are dropped
    | none | some [] => fallback.map ([·])
    | some texts => .ok (texts.map fun text =>
        .standard (standard update.sessionId update.sequence none (chunk message.role text)))
  | .textDelta executionId text =>
    .ok [.standard
      (standard update.sessionId update.sequence (some executionId) (.agentMessageChunk text))]
  | .execution executionId execution =>
    translateExecutionChange encodings update.sessionId update.sequence executionId execution
      fallback
  | .renamed _ | .closed | .diagnostic _ | .review _ => fallback.map ([·])

/-- The notifications for a stream of updates, in order. -/
def translateAll (updates : List (SessionUpdate D R)) :
    Except ApplicationError (List TranslatedSessionUpdate) :=
  List.flatten <$> updates.mapM (translateSessionUpdate encodings descriptor)

end Adapter

/-! ### The client -/

structure ExtensionEvent where
  event : ContractId
  payload : PhenixSchema

structure ApplicationEvent where
  event : ContractId
  payload : PhenixValue

/-- The extension updates with their queue to the host. -/
structure ExtensionUpdates where
  capacity : Option ℕ
  queue : List ApplicationEvent
  connected : Bool

namespace ExtensionUpdates

def send (self : ExtensionUpdates) (update : ApplicationEvent) :
    Except ClientError Unit × ExtensionUpdates :=
  if !self.connected then
    (.error (.transport "ACP extension event receiver disconnected"),self)
  else if self.capacity.any (· ≤ self.queue.length) then (.error .updateQueueFull,self)
  else (.ok (),{ self with queue := self.queue ++ [update] })

def receive (fromStr : String → Except String PhenixValue)
    (extensions : BTreeMap String ExtensionEvent) (self : ExtensionUpdates)
    (notification : ExtNotification) : Except ClientError Unit × ExtensionUpdates :=
  match (extensions.get? notification.method).or
      (extensions.get? ("_" ++ notification.method)) with
  | none => (.error (.protocol
      ("ACP peer sent an unadvertised Phenix extension event " ++ notification.method)),self)
  | some event =>
    match fromStr notification.params with
    | .error error => (.error (.protocol ("cannot decode ACP extension event " ++
        notification.method ++ ": " ++ error)),self)
    | .ok payload =>
      match event.payload.parse payload with
      | .error error => (.error (.protocol ("ACP extension event " ++ notification.method ++
          " violates the application descriptor: " ++ error.text)),self)
      | .ok _ => self.send ⟨event.event,payload⟩

end ExtensionUpdates

/-- The two queues of a client. -/
structure StreamClient where
  updates : SessionUpdates Correlated
  extensionUpdates : ExtensionUpdates

section Client
variable (fromStr : String → Except String PhenixValue)
  (extensions : BTreeMap String ExtensionEvent)

def StreamClient.receive (self : StreamClient) :
    TranslatedSessionUpdate → Except ClientError Unit × StreamClient
  | .standard notification =>
    let (result,updates) := self.updates.receive notification
    (result,{ self with updates := updates })
  | .extension notification =>
    let (result,extensionUpdates) :=
      self.extensionUpdates.receive fromStr extensions notification
    (result,{ self with extensionUpdates := extensionUpdates })

/-- The client after a notification, whether it was taken or refused. -/
def StreamClient.next (self : StreamClient) (notification : TranslatedSessionUpdate) :
    StreamClient :=
  (self.receive fromStr extensions notification).2

end Client

end PhenixConductor.Client
