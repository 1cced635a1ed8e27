import PhenixConductor.Provider.Protocol

/-! # Tool calls on the wire

A call that a request writes is read back from a response as the same call.
-/
namespace PhenixConductor.Provider
open Collections Contract JsonValue BTreeMap List
variable {library : JsonLibrary} {protocol : Protocol}

/-- The objects of the calls in a response. -/
def responseCalls (protocol : Protocol) (value : JsonValue) : Option (List JsonValue) :=
  match protocol with
  | .openAiResponses => some ((value.items "output").filter fun item =>
      item.field "type" = some "function_call")
  | .openAiChatCompletions => (firstMessage value).map fun message =>
      ((message.get? "tool_calls").bind asArray).getD []
  | .anthropicMessages => some ((value.items "content").filter fun part =>
      part.field "type" = some "tool_use")

/-- The objects of the calls among what a request adds for a turn. -/
def requestCalls (protocol : Protocol) (items : List JsonValue) : List JsonValue :=
  match protocol with
  | .openAiResponses => items.filter fun item => item.field "type" = some "function_call"
  | .openAiChatCompletions => items.flatMap (·.items "tool_calls")
  | .anthropicMessages => (items.flatMap (·.items "content")).filter fun part =>
      part.field "type" = some "tool_use"

/-- How a response reads the object of a call. -/
def readCall (library : JsonLibrary) (protocol : Protocol) (value : JsonValue) :
    Except ProviderError ModelToolCall :=
  match protocol with
  | .openAiResponses => openAiResponsesCall library value
  | .openAiChatCompletions => openAiChatCall library value
  | .anthropicMessages => anthropicCall library value

/-- The read call is the written one, with the JSON form of its input. -/
structure Survives (call read : ModelToolCall) : Prop where
  callId : read.callId = call.callId
  callableId : read.callableId = call.callableId
  input : ∃ json, fromValue call.input = .ok json ∧ read.input = json.toValue

/-- The library reads the JSON form of the input back from its text. -/
def Reparses (library : JsonLibrary) (call : ModelToolCall) : Prop :=
  ∀ json text, fromValue call.input = .ok json → library.toString json = .ok text →
    library.fromStr text = .ok json

/-- No text is the JSON literal of itself: the literal of a string is longer. -/
def Longer (library : JsonLibrary) (call : ModelToolCall) : Prop :=
  ∀ text, fromValue call.input = .ok (.string text) →
    library.fromStr text ≠ .ok (.string text)

/-- The format carries the input. -/
def Carriable (protocol : Protocol) (call : ModelToolCall) : Prop :=
  protocol = .anthropicMessages → ∀ text, fromValue call.input ≠ .ok (.string text)

/-- What the format carries for a JSON input. -/
def Argument (library : JsonLibrary) (protocol : Protocol) (json argument : JsonValue) : Prop :=
  if protocol = .anthropicMessages then argument = json
  else ∃ text, library.toString json = .ok text ∧ argument = .string text

section Objects

theorem get?_object (entries : List (String × JsonValue)) (key : String) :
    (object entries).get? key = (ofList entries).get? key := rfl

theorem phenixJson_eq_ok {value : PhenixValue} {json : JsonValue} :
    phenixJson library value = .ok json ↔ fromValue value = .ok json :=
  mapError_eq_ok

variable {call : ModelToolCall}

theorem toolArguments_eq_ok {text : String} : toolArguments library call = .ok text ↔
      ∃ json, fromValue call.input = .ok json ∧ library.toString json = .ok text := by
  rw [toolArguments,bind_eq_ok]
  simp only [phenixJson_eq_ok,mapError_eq_ok]

theorem parseCallableId_text (id : CallableId) : parseCallableId library id.text = .ok id := by
  unfold parseCallableId
  split
  · rfl
  · next error h => rw [id.valid] at h; cases h

/-- What the reader makes of the object of a call, in terms of its arguments. -/
theorem readCall_callObject {item : JsonValue} (h : callObject library protocol call = .ok item) :
    ∃ json provider argument, fromValue call.input = .ok json ∧
      Argument library protocol json argument ∧
      readCall library protocol item = (parseArguments library argument provider).map fun input =>
        ⟨call.callId,call.callableId,input⟩ := by
  cases protocol with
  | openAiResponses =>
    obtain ⟨text,htext,hitem⟩ := bind_eq_ok.mp h
    obtain ⟨json,hjson,htext⟩ := toolArguments_eq_ok.mp htext
    cases hitem
    refine ⟨json,"OpenAI responses",.string text,hjson,⟨text,htext,rfl⟩,?_⟩
    simp only [readCall,openAiResponsesCall,field,get?_object]
    simp [ofList,get?_insert,required,asStr,parseCallableId_text]
    rfl
  | openAiChatCompletions =>
    obtain ⟨text,htext,hitem⟩ := bind_eq_ok.mp h
    obtain ⟨json,hjson,htext⟩ := toolArguments_eq_ok.mp htext
    cases hitem
    refine ⟨json,"OpenAI chat",.string text,hjson,⟨text,htext,rfl⟩,?_⟩
    simp only [readCall,openAiChatCall,field,get?_object]
    simp [ofList,get?_insert,required,asStr,asObject,object,
      parseCallableId_text]
    rfl
  | anthropicMessages =>
    obtain ⟨json,hjson,hitem⟩ := bind_eq_ok.mp h
    cases hitem
    refine ⟨json,"Anthropic",json,phenixJson_eq_ok.mp hjson,rfl,?_⟩
    simp only [readCall,anthropicCall,field,get?_object]
    simp [ofList,get?_insert,required,asStr,parseCallableId_text]
    rfl

/-- A call survives exactly where its input does. -/
theorem readCall_iff {item : JsonValue} (hreparses : Reparses library call)
    (hlonger : Longer library call) (h : callObject library protocol call = .ok item) :
    (∃ read, readCall library protocol item = .ok read ∧ Survives call read) ↔
      Carriable protocol call := by
  obtain ⟨json,provider,argument,hjson,hargument,hread⟩ := readCall_callObject h
  have hinput : (∃ read, readCall library protocol item = .ok read ∧ Survives call read) ↔
      parseArguments library argument provider = .ok json.toValue := by
    rw [hread]
    constructor
    · rintro ⟨read,hok,hsurvives⟩
      obtain ⟨input,hinput,rfl⟩ := map_eq_ok.mp hok
      obtain ⟨json',hjson',hsame⟩ := hsurvives.input
      obtain rfl := Except.ok.inj (hjson.symm.trans hjson')
      exact hinput.trans (congrArg _ hsame)
    · intro hok
      exact ⟨_,map_eq_ok.mpr ⟨_,hok,rfl⟩,rfl,rfl,json,hjson,rfl⟩
  rw [hinput]
  unfold Argument at hargument
  split_ifs at hargument with hprotocol
  · subst hargument
    unfold parseArguments
    cases hstr : argument.asStr with
    | none =>
      refine iff_of_true rfl fun _ text htext => ?_
      rw [hjson] at htext
      cases htext
      cases hstr
    | some text =>
      have hstring : argument = .string text := by
        cases argument <;> cases hstr
        rfl
      subst hstring
      refine iff_of_false ?_ fun hcarriable => hcarriable hprotocol text hjson
      dsimp only
      cases hparse : library.fromStr text with
      | error error => nofun
      | ok value =>
        intro heq
        have hvalue : value = .string text := by
          have hback := congrArg fromValue (Except.ok.inj heq)
          rw [fromValue_toValue] at hback
          exact Except.ok.inj hback
        exact hlonger text hjson (hvalue ▸ hparse)
  · obtain ⟨text,htext,rfl⟩ := hargument
    refine iff_of_true ?_ fun he => absurd he hprotocol
    unfold parseArguments
    rw [asStr]
    dsimp only
    rw [hreparses json text hjson htext]

theorem readCalls_iff {calls : List ModelToolCall} {items : List JsonValue}
    (hreparses : ∀ call ∈ calls, Reparses library call)
    (hlonger : ∀ call ∈ calls, Longer library call)
    (h : calls.mapM (callObject library protocol) = .ok items) :
    (∃ read, items.mapM (readCall library protocol) = .ok read ∧
      List.Forall₂ Survives calls read) ↔ ∀ call ∈ calls, Carriable protocol call := by
  rw [mapM_eq_ok] at h
  simp only [mapM_eq_ok]
  induction h with
  | nil => exact iff_of_true ⟨[],.nil,.nil⟩ nofun
  | @cons call item calls items hfirst _ ih =>
    obtain ⟨hreparse,hreparses⟩ := forall_mem_cons.mp hreparses
    obtain ⟨hlong,hlonger⟩ := forall_mem_cons.mp hlonger
    rw [forall_mem_cons,← ih hreparses hlonger,← readCall_iff hreparse hlong hfirst]
    constructor
    · rintro ⟨_,hread,hsurvive⟩
      cases hread with
      | cons hread hreads =>
        cases hsurvive with
        | cons hsurvive hsurvives => exact ⟨⟨_,hread,hsurvive⟩,⟨_,hreads,hsurvives⟩⟩
    · rintro ⟨⟨_,hread,hsurvive⟩,⟨_,hreads,hsurvives⟩⟩
      exact ⟨_,.cons hread hreads,.cons hsurvive hsurvives⟩

end Objects

section Messages
variable {turn : ModelToolTurn} {items : List JsonValue}

theorem callObject_type {call : ModelToolCall} {item : JsonValue}
    (h : callObject library protocol call = .ok item) :
    item.field "type" = match protocol with
      | .openAiResponses => some "function_call"
      | .openAiChatCompletions => some "function"
      | .anthropicMessages => some "tool_use" := by
  cases protocol with
  | openAiResponses | openAiChatCompletions | anthropicMessages =>
    obtain ⟨_,-,hitem⟩ := bind_eq_ok.mp h
    cases hitem
    simp [field,get?_object,ofList,get?_insert,asStr]

theorem resultObject_type {result : ModelToolResult} {item : JsonValue}
    (h : resultObject library protocol result = .ok item) :
    item.field "type" = match protocol with
      | .openAiResponses => some "function_call_output"
      | .openAiChatCompletions => none
      | .anthropicMessages => some "tool_result" := by
  cases protocol with
  | openAiResponses | openAiChatCompletions | anthropicMessages =>
    obtain ⟨_,-,hitem⟩ := bind_eq_ok.mp h
    cases hitem
    simp [field,get?_object,ofList,get?_insert,asStr]

variable {objects : List JsonValue}

theorem filter_calls {calls : List ModelToolCall} {kind : String}
    (hkind : ∀ call item, callObject library protocol call = .ok item → item.field "type" = some kind)
    (h : calls.mapM (callObject library protocol) = .ok objects) :
    objects.filter (fun item => item.field "type" = some kind) = objects := by
  refine filter_eq_self.mpr fun item hitem => ?_
  obtain ⟨call,-,hcall⟩ := Forall₂.exists_left (mapM_eq_ok.mp h) hitem
  exact decide_eq_true (hkind call item hcall)

theorem filter_results {results : List ModelToolResult} {kind : String}
    (hkind : ∀ result item, resultObject library protocol result = .ok item → item.field "type" ≠ some kind)
    (h : results.mapM (resultObject library protocol) = .ok objects) :
    objects.filter (fun item => item.field "type" = some kind) = [] := by
  refine filter_eq_nil_iff.mpr fun item hitem => ?_
  obtain ⟨result,-,hresult⟩ := Forall₂.exists_left (mapM_eq_ok.mp h) hitem
  simpa using hkind result item hresult

/-- A request writes the object of each call of a turn, in order, and no other call. -/
theorem requestCalls_turnItems (h : turnItems library protocol turn = .ok items) :
    turn.toolCalls.mapM (callObject library protocol) = .ok (requestCalls protocol items) := by
  obtain ⟨-,h⟩ := seq_eq_ok.mp h
  cases protocol with
  | openAiResponses =>
    obtain ⟨text,-,h⟩ := bind_eq_ok.mp h
    obtain ⟨calls,hcalls,h⟩ := bind_eq_ok.mp h
    obtain ⟨results,hresults,h⟩ := bind_eq_ok.mp h
    cases h
    have hsaid : (if text.isEmpty then [] else
        [object [("role",.string "assistant"),("content",.string text)]]).filter
          (fun item => item.field "type" = some "function_call") = [] := by
      split_ifs
      · rfl
      · simp [field,get?_object,ofList,get?_insert]
    rw [hcalls,requestCalls,filter_append,filter_append,hsaid,
      filter_calls (fun _ _ => callObject_type) hcalls,
      filter_results (fun _ _ hresult => by rw [resultObject_type hresult]; simp) hresults,
      nil_append,append_nil]
  | openAiChatCompletions =>
    obtain ⟨calls,hcalls,h⟩ := bind_eq_ok.mp h
    obtain ⟨text,-,h⟩ := bind_eq_ok.mp h
    obtain ⟨results,hresults,h⟩ := bind_eq_ok.mp h
    cases h
    have hnone : results.flatMap (·.items "tool_calls") = [] := by
      refine flatMap_eq_nil_iff.mpr fun item hitem => ?_
      obtain ⟨result,-,hresult⟩ := Forall₂.exists_left (mapM_eq_ok.mp hresults) hitem
      obtain ⟨output,-,hobject⟩ := bind_eq_ok.mp hresult
      cases hobject
      simp [items,get?_object,ofList,get?_insert]
    rw [hcalls, requestCalls, flatMap_cons, hnone]
    simp [items,get?_object,ofList,asArray]
  | anthropicMessages =>
    obtain ⟨text,-,h⟩ := bind_eq_ok.mp h
    obtain ⟨calls,hcalls,h⟩ := bind_eq_ok.mp h
    obtain ⟨results,hresults,h⟩ := bind_eq_ok.mp h
    cases h
    have hitems : ∀ (role : String) (content : List JsonValue),
        (object [("role",.string role),("content",.array content)]).items "content" = content := by
      simp [items,get?_object,ofList,asArray]
    have hsaid : (if text.isEmpty then [] else
        [object [("type",.string "text"),("text",.string text)]]).filter
          (fun part => part.field "type" = some "tool_use") = [] := by
      split_ifs
      · rfl
      · simp [field,get?_object,ofList,get?_insert,asStr]
    rw [hcalls,requestCalls,flatMap_cons,flatMap_cons,flatMap_nil,hitems,hitems,
      append_nil,filter_append,filter_append,hsaid,
      filter_calls (fun _ _ => callObject_type) hcalls,
      filter_results (fun _ _ hresult => by rw [resultObject_type hresult]; simp) hresults,
      nil_append,append_nil]

/-- A response is read call by call; where it has a call, its text does not matter. -/
theorem decode_iff {P : List ModelToolCall → Prop} {body : List UInt8} {value : JsonValue}
    (hbody : library.fromSlice body = .ok value)
    (hobjects : responseCalls protocol value = some objects) (hne : objects ≠ []) :
    (∃ response, decode library protocol body = .ok response ∧ P response.toolCalls) ↔
      ∃ read, objects.mapM (readCall library protocol) = .ok read ∧ P read := by
  have hnonempty : ∀ (text message : String) (read : List ModelToolCall),
      objects.mapM (readCall library protocol) = .ok read →
        nonempty value text message read = .ok (responseWithContent value text read) := by
    intro text message read hread
    have hlength := (mapM_eq_ok.mp hread).length_eq
    cases read with
    | nil => exact absurd (length_eq_zero_iff.mp hlength) hne
    | cons call read => simp [nonempty]
  have hdecode : ∃ text message, decode library protocol body =
      (objects.mapM (readCall library protocol)).bind (nonempty value text message) := by
    unfold decode
    rw [hbody]
    cases protocol with
    | openAiResponses =>
      cases hobjects
      exact ⟨_,_,rfl⟩
    | openAiChatCompletions =>
      obtain ⟨message,hmessage,rfl⟩ := Option.map_eq_some_iff.mp hobjects
      refine ⟨chatText message,"OpenAI chat payload contained neither content nor tool calls",?_⟩
      change openAiChatResponse library value = _
      unfold openAiChatResponse
      rw [hmessage]
      rfl
    | anthropicMessages =>
      cases hobjects
      exact ⟨_,_,rfl⟩
  obtain ⟨text,message,hdecode⟩ := hdecode
  rw [hdecode]
  constructor
  · rintro ⟨response,hresponse,hP⟩
    obtain ⟨read,hread,hresponse⟩ := bind_eq_ok.mp hresponse
    rw [hnonempty text message read hread] at hresponse
    cases hresponse
    exact ⟨read,hread,hP⟩
  · rintro ⟨read,hread,hP⟩
    exact ⟨_,bind_eq_ok.mpr ⟨read,hread,hnonempty text message read hread⟩,hP⟩

end Messages

/-- A response that carries the calls of a turn as a request writes them is read back with each
call, in order, exactly where the format carries every input. -/
theorem toolCalls_survive_iff (library : JsonLibrary) (protocol : Protocol) (turn : ModelToolTurn)
    (items : List JsonValue) (body : List UInt8) (value : JsonValue) (hcalls : turn.toolCalls ≠ [])
    (hitems : turnItems library protocol turn = .ok items)
    (hbody : library.fromSlice body = .ok value)
    (hcarried : responseCalls protocol value = some (requestCalls protocol items))
    (hreparses : ∀ call ∈ turn.toolCalls, Reparses library call)
    (hlonger : ∀ call ∈ turn.toolCalls, Longer library call) :
    (∃ response, decode library protocol body = .ok response ∧
      List.Forall₂ Survives turn.toolCalls response.toolCalls) ↔
        ∀ call ∈ turn.toolCalls, Carriable protocol call := by
  have hobjects := requestCalls_turnItems hitems
  have hne : requestCalls protocol items ≠ [] := by
    intro hnil
    have hlength := (mapM_eq_ok.mp hobjects).length_eq
    rw [hnil] at hlength
    exact hcalls (length_eq_zero_iff.mp hlength)
  rw [decode_iff hbody hcarried hne,readCalls_iff hreparses hlonger hobjects]

section Guide

/-- The JSON library on one string and on the result of reading it. -/
def guideLibrary (response : JsonValue) : JsonLibrary where
  toString
    | .null => .ok "null"
    | _ => .ok "\"README.md\""
  fromStr text :=
    if text = "\"README.md\"" then .ok (.string "README.md")
    else .error "expected value at line 1 column 1"
  fromSlice _ := .ok response
  debugError := ValueError.text
  debugText text := text

def readCallable : CallableId := ⟨"tools.read",by decide +kernel⟩

def guideCall : ModelToolCall := ⟨"call-1",readCallable,.string "README.md"⟩

def guideTurn : ModelToolTurn := ⟨[],[guideCall],[⟨"call-1",readCallable,.unit,false⟩]⟩

/-- What the Anthropic format writes for the turn. -/
def guideToolUse : JsonValue :=
  object [("type",.string "tool_use"),("id",.string "call-1"),("name",.string "tools.read"),
    ("input",.string "README.md")]

def guideFunctionCall : JsonValue :=
  object [("type",.string "function_call"),("call_id",.string "call-1"),
    ("name",.string "tools.read"),("arguments",.string "\"README.md\"")]

def guideOutput : JsonValue := object [("output",.array [guideFunctionCall])]

theorem toolCalls_survive_iff_responses :
    ∃ response, decode (guideLibrary guideOutput) .openAiResponses [] = .ok response ∧
      List.Forall₂ Survives guideTurn.toolCalls response.toolCalls := by
  refine (toolCalls_survive_iff (guideLibrary guideOutput) .openAiResponses guideTurn
    [guideFunctionCall,object [("type",.string "function_call_output"),
      ("call_id",.string "call-1"),("output",.string "null")]] [] guideOutput nofun ?_ rfl ?_ ?_ ?_
    ).mpr fun call _ => nofun
  · rfl
  · rfl
  · intro call hcall json text hjson htext
    obtain rfl := mem_singleton.mp hcall
    cases hjson
    cases htext
    rfl
  · intro call hcall text htext
    obtain rfl := mem_singleton.mp hcall
    cases htext
    nofun

def guideContent : JsonValue := object [("content",.array [guideToolUse])]

/-- The reader parses the file name that the writer put there as it is. -/
theorem string_input_lost :
    callObject (guideLibrary guideContent) .anthropicMessages guideCall = .ok guideToolUse ∧
    responseCalls .anthropicMessages guideContent = some [guideToolUse] ∧
    ¬∃ response, decode (guideLibrary guideContent) .anthropicMessages [] = .ok response ∧
      List.Forall₂ Survives [guideCall] response.toolCalls := by
  refine ⟨rfl,rfl,?_⟩
  rintro ⟨response,hresponse,-⟩
  have herror : decode (guideLibrary guideContent) .anthropicMessages [] = .error (.protocol
      "Anthropic returned invalid tool arguments JSON: expected value at line 1 column 1") := rfl
  rw [herror] at hresponse
  cases hresponse

end Guide

end PhenixConductor.Provider
