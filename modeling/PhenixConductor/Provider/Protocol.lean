import PhenixConductor.Contract.Json

/-! # Provider protocols

Three wire formats carry the tool calls of a model.
-/
namespace PhenixConductor.Provider
open Collections Contract

inductive ProviderError
  | invalidRequest (message : String)
  | protocol (message : String)
deriving DecidableEq

inductive Protocol
  | openAiResponses
  | openAiChatCompletions
  | anthropicMessages
deriving DecidableEq

structure ModelToolCall where
  callId : String
  callableId : CallableId
  input : PhenixValue

structure ModelToolResult where
  callId : String
  callableId : CallableId
  output : PhenixValue
  isError : Bool

structure ModelToolTurn where
  assistantOutput : List UInt8
  toolCalls : List ModelToolCall
  toolResults : List ModelToolResult

structure ModelInferenceResponse where
  output : List UInt8
  providerMetadata : BTreeMap String PhenixValue
  toolCalls : List ModelToolCall

/-- What the JSON library does, and the texts of `Debug`. -/
structure JsonLibrary where
  toString : JsonValue → Except String String
  fromStr : String → Except String JsonValue
  fromSlice : List UInt8 → Except String JsonValue
  debugError : ValueError → String
  debugText : String → String

/-- The object that `json!` writes. -/
def object (entries : List (String × JsonValue)) : JsonValue := .object (.ofList entries)

/-! ### Requests -/

section Encode
variable (library : JsonLibrary)

def phenixJson (value : PhenixValue) : Except ProviderError JsonValue :=
  (JsonValue.fromValue value).mapError fun error =>
    .invalidRequest ("model tool value is not JSON-compatible: " ++ library.debugError error)

def toolArguments (call : ModelToolCall) : Except ProviderError String := do
  let input ← phenixJson library call.input
  (library.toString input).mapError fun error =>
    .protocol ("cannot encode model tool arguments: " ++ error)

def toolOutput (result : ModelToolResult) : Except ProviderError String := do
  let value ← phenixJson library result.output
  let value := if result.isError then object [("error",value)] else value
  (library.toString value).mapError fun error =>
    .protocol ("cannot encode model tool result: " ++ error)

def assistantText (turn : ModelToolTurn) : Except ProviderError String :=
  match String.fromUTF8? ⟨turn.assistantOutput.toArray⟩ with
  | some text => .ok text
  | none => .error (.invalidRequest
      "provider protocols require UTF-8 assistant continuation output")

def validateToolTurn (turn : ModelToolTurn) : Except ProviderError Unit := do
  if turn.toolCalls.length ≠ turn.toolResults.length then
    throw (.invalidRequest "model tool continuation must contain one result per tool call")
  turn.toolCalls.forM fun call =>
    if (turn.toolResults.filter fun result =>
        result.callId = call.callId && result.callableId = call.callableId).length ≠ 1 then
      .error (.invalidRequest ("model tool continuation must contain exactly one matching " ++
        "result for call " ++ call.callId))
    else .ok ()

/-- The object that stands for a call in a request. -/
def callObject (protocol : Protocol) (call : ModelToolCall) : Except ProviderError JsonValue :=
  match protocol with
  | .openAiResponses => do
    let arguments ← toolArguments library call
    .ok (object [("type",.string "function_call"),("call_id",.string call.callId),
      ("name",.string call.callableId.text),("arguments",.string arguments)])
  | .openAiChatCompletions => do
    let arguments ← toolArguments library call
    .ok (object [("id",.string call.callId),("type",.string "function"),
      ("function",object [("name",.string call.callableId.text),
        ("arguments",.string arguments)])])
  | .anthropicMessages => do
    let input ← phenixJson library call.input
    .ok (object [("type",.string "tool_use"),("id",.string call.callId),
      ("name",.string call.callableId.text),("input",input)])

def resultObject (protocol : Protocol) (result : ModelToolResult) :
    Except ProviderError JsonValue := do
  let output ← toolOutput library result
  match protocol with
  | .openAiResponses => .ok (object [("type",.string "function_call_output"),
      ("call_id",.string result.callId),("output",.string output)])
  | .openAiChatCompletions => .ok (object [("role",.string "tool"),
      ("tool_call_id",.string result.callId),("content",.string output)])
  | .anthropicMessages => .ok (object [("type",.string "tool_result"),
      ("tool_use_id",.string result.callId),("content",.string output),
      ("is_error",.bool result.isError)])

/-- What a request adds to its input or messages for one turn of the continuation. -/
def turnItems (protocol : Protocol) (turn : ModelToolTurn) :
    Except ProviderError (List JsonValue) := do
  validateToolTurn turn
  match protocol with
  | .openAiResponses => do
    let text ← assistantText turn
    let calls ← turn.toolCalls.mapM (callObject library protocol)
    let results ← turn.toolResults.mapM (resultObject library protocol)
    let said := if text.isEmpty then [] else
      [object [("role",.string "assistant"),("content",.string text)]]
    .ok (said ++ calls ++ results)
  | .openAiChatCompletions => do
    let calls ← turn.toolCalls.mapM (callObject library protocol)
    let text ← assistantText turn
    let results ← turn.toolResults.mapM (resultObject library protocol)
    .ok (object [("role",.string "assistant"),("content",.string text),
      ("tool_calls",.array calls)] :: results)
  | .anthropicMessages => do
    let text ← assistantText turn
    let calls ← turn.toolCalls.mapM (callObject library protocol)
    let results ← turn.toolResults.mapM (resultObject library protocol)
    let said := if text.isEmpty then [] else
      [object [("type",.string "text"),("text",.string text)]]
    .ok [object [("role",.string "assistant"),("content",.array (said ++ calls))],
      object [("role",.string "user"),("content",.array results)]]

end Encode

/-! ### Responses -/

section Decode
variable (library : JsonLibrary)

def parseCallableId (name : String) : Except ProviderError CallableId :=
  match valid : validateText IdentifierKind.callable.noun name with
  | .ok _ => .ok ⟨name,valid⟩
  | .error error => .error (.protocol
      ("provider returned invalid tool name " ++ library.debugText name ++ ": " ++ error))

/-- A string is parsed, whatever the format. -/
def parseArguments (value : JsonValue) (provider : String) : Except ProviderError PhenixValue :=
  match value.asStr with
  | some text =>
    match library.fromStr text with
    | .ok value => .ok (value.toValue)
    | .error error => .error (.protocol
        (provider ++ " returned invalid tool arguments JSON: " ++ error))
  | none => .ok (value.toValue)

def responseWithContent (value : JsonValue) (text : String) (toolCalls : List ModelToolCall) :
    ModelInferenceResponse where
  output := text.toUTF8.toList
  providerMetadata := .ofList (["id","usage"].filterMap fun key =>
    (value.get? key).map fun entry => (key,entry.toValue))
  toolCalls := toolCalls

/-- A field that a call must have. -/
def required {T : Type} (message : String) (found : Option T) : Except ProviderError T :=
  match found with
  | some found => .ok found
  | none => .error (.protocol message)

def openAiResponsesCall (item : JsonValue) : Except ProviderError ModelToolCall := do
  let callId ← required "OpenAI responses tool call contained no call id"
    (((item.get? "call_id").or (item.get? "id")).bind JsonValue.asStr)
  let name ← required "OpenAI responses tool call contained no function name"
    (item.field "name")
  let arguments ← required "OpenAI responses tool call contained no arguments"
    (item.get? "arguments")
  let callableId ← parseCallableId library name
  let input ← parseArguments library arguments "OpenAI responses"
  .ok ⟨callId,callableId,input⟩

def openAiChatCall (call : JsonValue) : Except ProviderError ModelToolCall := do
  let callId ← required "OpenAI chat tool call contained no call id" (call.field "id")
  let function ← required "OpenAI chat tool call contained no function"
    ((call.get? "function").bind JsonValue.asObject)
  let name ← required "OpenAI chat tool call contained no function name"
    ((function.get? "name").bind JsonValue.asStr)
  let arguments ← required "OpenAI chat tool call contained no arguments"
    (function.get? "arguments")
  let callableId ← parseCallableId library name
  let input ← parseArguments library arguments "OpenAI chat"
  .ok ⟨callId,callableId,input⟩

def anthropicCall (part : JsonValue) : Except ProviderError ModelToolCall := do
  let callId ← required "Anthropic tool use contained no call id" (part.field "id")
  let name ← required "Anthropic tool use contained no tool name" (part.field "name")
  let input ← required "Anthropic tool use contained no input" (part.get? "input")
  let callableId ← parseCallableId library name
  let input ← parseArguments library input "Anthropic"
  .ok ⟨callId,callableId,input⟩

def joined (pieces : List String) : String := pieces.foldl (· ++ ·) ""

def responsesText (value : JsonValue) : String :=
  let text := (value.field "output_text").getD ""
  if text.isEmpty then
    joined ((value.items "output").flatMap fun item =>
      (item.items "content").filterMap fun part =>
        (part.field "text").or (part.field "output_text"))
  else text

/-- `pointer("/choices/0/message")` -/
def firstMessage (value : JsonValue) : Option (BTreeMap String JsonValue) :=
  (((value.items "choices").head?).bind fun choice =>
    choice.get? "message").bind JsonValue.asObject

def chatText (message : BTreeMap String JsonValue) : String :=
  let content := (message.get? "content").getD .null
  match content.asStr with
  | some text => text
  | none => joined ((content.asArray.getD []).filterMap fun part =>
      part.field "text")

def anthropicText (value : JsonValue) : String :=
  joined ((value.items "content").filterMap fun part =>
    if part.field "type" = some "text" then part.field "text" else none)

def nonempty (value : JsonValue) (text message : String) (toolCalls : List ModelToolCall) :
    Except ProviderError ModelInferenceResponse :=
  if text.isEmpty && toolCalls.isEmpty then .error (.protocol message)
  else .ok (responseWithContent value text toolCalls)

def openAiResponsesResponse (value : JsonValue) : Except ProviderError ModelInferenceResponse := do
  let toolCalls ← ((value.items "output").filter fun item =>
    item.field "type" = some "function_call").mapM (openAiResponsesCall library)
  nonempty value (responsesText value)
    "OpenAI responses payload contained neither output text nor tool calls" toolCalls

def openAiChatResponse (value : JsonValue) : Except ProviderError ModelInferenceResponse := do
  let message ← required "OpenAI chat payload contained no first choice message"
    (firstMessage value)
  let toolCalls ← (((message.get? "tool_calls").bind JsonValue.asArray).getD []).mapM (openAiChatCall library)
  nonempty value (chatText message)
    "OpenAI chat payload contained neither content nor tool calls" toolCalls

def anthropicResponse (value : JsonValue) : Except ProviderError ModelInferenceResponse := do
  let toolCalls ← ((value.items "content").filter fun part =>
    part.field "type" = some "tool_use").mapM (anthropicCall library)
  nonempty value (anthropicText value)
    "Anthropic messages payload contained neither text content nor tool use" toolCalls

def decode (protocol : Protocol) (body : List UInt8) :
    Except ProviderError ModelInferenceResponse := do
  let value ← (library.fromSlice body).mapError fun error =>
    .protocol ("cannot parse provider JSON response: " ++ error)
  match protocol with
  | .openAiResponses => openAiResponsesResponse library value
  | .openAiChatCompletions => openAiChatResponse library value
  | .anthropicMessages => anthropicResponse library value

end Decode

end PhenixConductor.Provider
