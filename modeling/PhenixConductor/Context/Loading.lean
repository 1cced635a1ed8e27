import PhenixConductor.Context.Durability

/-! # Loads and runs of the plugin

A load of an exact revision adds one injection to those of its execution.
-/
namespace PhenixConductor.Context
open Collections Contract FailsAlong
open Execution (U64)
open Persistence (Records transactRecords)
open ContextPlugin

variable {codec : ContextCodec} {plugin next : ContextPlugin}

theorem moves_readResource (resourceId : ContextResourceId) (revision : ContextRevisionId) :
    Moves Same (readResource codec resourceId revision) := by
  refine (moves_readRaw _).bind fun value => ?_
  cases value with
  | none => exact fun _ => Std.Refl.refl _
  | some bytes => exact moves_check _

/-- The state key is not that of a list of injections. -/
theorem stateKey_ne_injectionsKey (executionId : String) :
    contextProjectionStateKey ≠ injectionsKey executionId := by
  intro h
  have hlist := congrArg String.toList h
  rw [injectionsKey, String.toList_append] at hlist
  cases hlist

/-- The records with what a load writes. -/
def loadedRecords (records : Records) (key : String) (bytes : List UInt8) :
    Option (ContextStateService × List UInt8) → Records
  | none => Function.update records key (some bytes)
  | some (_,snapshot) => Function.update (Function.update records key (some bytes))
      contextProjectionStateKey (some snapshot)

variable {copy : Option (ContextStateService × List UInt8)}

theorem transactRecords_loadOperations {records stored : Records} {key : String}
    {old oldState : Option (List UInt8)} {bytes : List UInt8}
    (h : transactRecords records (loadOperations key old bytes oldState copy) = .ok stored) :
    stored = loadedRecords records key bytes copy := by
  obtain ⟨-,rfl⟩ := MapOp.commit_eq_ok.mp h
  cases copy <;> rfl

/-- The effect of a load: one more injection, and the projection invalidated. -/
structure Loads (codec : ContextCodec) (plugin : ContextPlugin) (injection : ContextInjection)
    (next : ContextPlugin) : Prop where
  appended : ∃ injections,
    decodeInjections codec (plugin.records (injectionsKey injection.executionId)) =
      .ok injections ∧
    decodeInjections codec (next.records (injectionsKey injection.executionId)) =
      .ok (injections ++ [injection]) ∧
    injection.sequence.val = injections.length + 1
  commits : plugin.Commits next
  invalidated : next.state.projection injection.executionId =
    (plugin.state.projection injection.executionId).map (·.invalidateForContextMutation)
  others : ∀ executionId ≠ injection.executionId,
    next.state.projection executionId = plugin.state.projection executionId
  agrees : next.Agrees codec

variable {executionId reason : String} {resourceId : ContextResourceId}
  {revision : ContextRevisionId} {requester : ContextInjectionRequester}
  {lifetime : ContextInjectionLifetime}

theorem failsAlong_loadContext :
    FailsAlong Same (loadContext codec executionId resourceId revision requester lifetime reason) := by
  refine bind (moves_check _) fun _ => bind (moves_check _) fun _ => ?_
  refine bind (moves_requireActiveExecution _) fun _ => ?_
  refine bind (moves_readResource _ _) fun resource => ?_
  refine bind (moves_readRaw _) fun old => bind (moves_check _) fun _ => ?_
  refine bind (moves_check _) fun _ => bind (moves_readRaw _) fun _ => ?_
  refine bind moves_get fun _ => bind (moves_check _) fun _ => ?_
  refine bind (moves_check _) fun _ => ?_
  exact (failsAlong_transactDurable _).bind_ok fun _ _ => rfl

/-- The copy of the memory that a load stores, with its snapshot. -/
structure Copies (codec : ContextCodec) (executionId : String) (service : ContextStateService)
    (copy : Option (ContextStateService × List UInt8)) : Prop where
  state : copy.map (·.1) = service.invalidateIfPresent executionId
  snapshot : ∀ state bytes, copy = some (state,bytes) → state.snapshot codec = .ok bytes

theorem nextState_eq_ok {service : ContextStateService}
    (h : nextState codec executionId service = .ok copy) :
    Copies codec executionId service copy := by
  unfold nextState at h
  cases hcopy : service.invalidateIfPresent executionId with
  | none =>
    rw [hcopy] at h
    cases h
    exact ⟨hcopy.symm,nofun⟩
  | some state =>
    rw [hcopy] at h
    obtain ⟨bytes,hbytes,h⟩ := bind_eq_ok.mp h
    cases h
    refine ⟨hcopy.symm,?_⟩
    rintro _ _ ⟨⟩
    exact mapError_eq_ok.mp hbytes

/-- Only the projection of the execution is invalidated. -/
theorem projection_swapState (h : Copies codec executionId plugin.state copy) (id : String) :
    (swapState copy plugin).state.projection id =
      if id = executionId then
        (plugin.state.projection executionId).map (·.invalidateForContextMutation)
      else plugin.state.projection id := by
  have hstate := h.state
  unfold ContextStateService.invalidateIfPresent at hstate
  cases copy with
  | none =>
    rw [Option.map_none, eq_comm, Option.map_eq_none_iff] at hstate
    split_ifs with hid
    · rw [hid, hstate]
      exact hstate
    · rfl
  | some entry =>
    obtain ⟨projection,hprojection,hput⟩ := Option.map_eq_some_iff.mp hstate.symm
    rw [eq_comm] at hput
    change entry.1 = _ at hput
    change entry.1.projection id = _
    rw [hput, hprojection]
    exact BTreeMap.get?_insert _ _ _ _

section Commit
variable {committed : ContextPlugin} {bytes : List UInt8}
  {oldState : Option (List UInt8)} {copy : Option (ContextStateService × List UInt8)}

/-- The records of the plugin after the transaction of a load. -/
def Writes (plugin : ContextPlugin) (executionId : String) (bytes : List UInt8)
    (oldState : Option (List UInt8)) (copy : Option (ContextStateService × List UInt8))
    (committed : ContextPlugin) : Prop :=
  transactRecords plugin.records
    (loadOperations (injectionsKey executionId) (plugin.records (injectionsKey executionId)) bytes
      oldState copy) = .ok committed.records

@[simp] theorem records_swapState (copy : Option (ContextStateService × List UInt8))
    (plugin : ContextPlugin) : (swapState copy plugin).records = plugin.records := by
  cases copy <;> rfl

@[simp] theorem committed_swapState (copy : Option (ContextStateService × List UInt8))
    (plugin : ContextPlugin) : (swapState copy plugin).committed = plugin.committed := by
  cases copy <;> rfl

theorem records_injectionsKey (h : Writes plugin executionId bytes oldState copy committed) :
    committed.records (injectionsKey executionId) = some bytes := by
  rw [transactRecords_loadOperations h]
  cases copy with
  | none => exact Function.update_self _ _ _
  | some entry =>
    exact Function.update_self _ _ _

/-- After the swap the memory agrees with what was committed. -/
theorem agrees_swapState (hcodec : codec.Lawful) (hagrees : plugin.Agrees codec)
    (hstate : committed.state = plugin.state)
    (hcopy : Copies codec executionId plugin.state copy)
    (h : Writes plugin executionId bytes oldState copy committed) :
    (swapState copy committed).Agrees codec := by
  rw [ContextPlugin.Agrees, records_swapState, transactRecords_loadOperations h]
  cases copy with
  | none =>
    rw [loadedRecords, swapState,
      Function.update_of_ne (stateKey_ne_injectionsKey executionId), hstate]
    exact hagrees
  | some entry =>
    obtain ⟨state,snapshot⟩ := entry
    rw [loadedRecords, swapState, Function.update_self]
    exact restore_snapshot hcodec (hcopy.snapshot state snapshot rfl)

end Commit

theorem nextSequence_eq_ok {injections : List ContextInjection} {sequence : U64}
    (h : nextSequence injections = .ok sequence) : sequence.val = injections.length + 1 := by
  unfold nextSequence at h
  split_ifs at h
  cases h
  rfl

theorem loadContext_eq_ok (hcodec : codec.Lawful) (hagrees : plugin.Agrees codec)
    {injection : ContextInjection} {resource : ContextResourceRevision}
    (h : loadContext codec executionId resourceId revision requester lifetime reason plugin =
      .ok (injection,resource) next) :
    (∃ sequence, injection =
      ⟨sequence,executionId,⟨resourceId,revision⟩,requester,lifetime,reason⟩) ∧
    Loads codec plugin injection next := by
  obtain ⟨_,-,h⟩ := check_bind_eq_ok.mp h
  obtain ⟨_,-,h⟩ := check_bind_eq_ok.mp h
  obtain ⟨_,active,hactive,h⟩ := stateful_bind_eq_ok.mp h
  obtain ⟨_,found,hfound,h⟩ := stateful_bind_eq_ok.mp h
  obtain ⟨old,opened,hopened,h⟩ := stateful_bind_eq_ok.mp h
  obtain ⟨injections,hinjections,h⟩ := check_bind_eq_ok.mp h
  obtain ⟨sequence,hsequence,h⟩ := check_bind_eq_ok.mp h
  obtain ⟨oldState,reached,hreached,h⟩ := stateful_bind_eq_ok.mp h
  obtain ⟨copy,hcopy,h⟩ := check_bind_eq_ok.mp h
  obtain ⟨bytes,hbytes,h⟩ := check_bind_eq_ok.mp h
  obtain ⟨_,committed,hcommitted,h⟩ := stateful_bind_eq_ok.mp h
  cases h
  obtain ⟨hfirst,rfl⟩ := readRaw_eq_ok hopened
  have hfound' : plugin.Same found := IsTrans.trans _ _ _
    ((moves_requireActiveExecution _).ok hactive) ((moves_readResource _ _).ok hfound)
  have hsame : plugin.Same reached := IsTrans.trans _ _ _ (IsTrans.trans _ _ _ hfound' hfirst)
    (readRaw_eq_ok hreached).1
  obtain ⟨hstate,hlog,hrecords⟩ := transactDurable_eq_ok hcommitted
  have hcopies := nextState_eq_ok hcopy
  rw [hsame.state] at hstate hcopies
  rw [hsame.committed, hfound'.records] at hlog
  rw [hsame.records, hfound'.records] at hrecords
  rw [hfound'.records] at hinjections
  refine ⟨⟨sequence,rfl⟩,⟨injections,hinjections,?_,nextSequence_eq_ok hsequence⟩,?_,?_,?_,?_⟩
  · rw [records_swapState, records_injectionsKey hrecords]
    exact mapError_eq_ok.mpr (hcodec.injections _ _ (mapError_eq_ok.mp hbytes))
  · refine ⟨_,by rw [committed_swapState, hlog],?_⟩
    rw [records_swapState]
    exact hrecords
  · rw [projection_swapState (hstate ▸ hcopies), if_pos rfl, hstate]
  · intro id hid
    rw [projection_swapState (hstate ▸ hcopies), if_neg hid, hstate]
  · exact agrees_swapState hcodec hagrees hstate hcopies hrecords

theorem handleLoad_settles (hcodec : codec.Lawful) (hagrees : plugin.Agrees codec)
    (command : ContextCommand) : Settles codec (handleLoad codec command) plugin := by
  cases command with
  | load executionId resourceId revision requester lifetime reason =>
    have hload : FailsAlong Same
        (loadContext codec executionId resourceId revision requester lifetime reason) :=
      failsAlong_loadContext
    have hfails := bind_ok hload
      (f := fun found => pure (ContextResponse.loaded found.1 found.2)) fun _ _ => rfl
    refine ⟨fun failure next h => hfails plugin failure next h,fun response next h => ?_⟩
    obtain ⟨⟨injection,resource⟩,reached,hload,⟨⟩⟩ := stateful_bind_eq_ok.mp h
    exact (loadContext_eq_ok hcodec hagrees hload).2.agrees
  | getProjectionState => exact Moves.settles (fun _ => Std.Refl.refl _) hagrees
  | admission => exact Moves.settles (fun _ => Std.Refl.refl _) hagrees
  | prepareCompaction => exact Moves.settles (fun _ => Std.Refl.refl _) hagrees
  | commitCompaction => exact Moves.settles (fun _ => Std.Refl.refl _) hagrees
  | invalidateProjection => exact Moves.settles (fun _ => Std.Refl.refl _) hagrees

theorem handle_settles (hcodec : codec.Lawful) (hagrees : plugin.Agrees codec)
    (command : ContextCommand) : Settles codec (command.handle codec) plugin := by
  unfold ContextCommand.handle
  cases command.stateExecution with
  | some executionId =>
    exact Settles.after_reads (moves_requireActiveExecution _) fun _ _ _ hreached =>
      handleStateCommand_settles hcodec (hreached.agrees hagrees) command
  | none => exact handleLoad_settles hcodec hagrees command

/-- The turns of the host come with every call. -/
theorem same_turns (plugin : ContextPlugin) (turns : ℕ → HostTurn) :
    plugin.Same { plugin with turns := turns } := ⟨rfl,rfl,rfl⟩

theorem step_agrees (hcodec : codec.Lawful) (call : ContextCall) (hagrees : plugin.Agrees codec) :
    (plugin.step codec call).Agrees codec := by
  have hsettles :=
    handle_settles hcodec ((same_turns plugin call.turns).agrees hagrees) call.command
  rw [ContextPlugin.step]
  cases h : call.command.handle codec { plugin with turns := call.turns } with
  | ok response next =>
    rw [after_ok h]
    exact hsettles.ok response next h
  | error failure next =>
    rw [after_error h]
    exact (hsettles.error failure next h).agrees ((same_turns plugin call.turns).agrees hagrees)

theorem startContext_agrees {started : ContextPlugin}
    (h : startContext codec plugin = .ok () started) : started.Agrees codec := by
  obtain ⟨snapshot,reached,hread,h⟩ := stateful_bind_eq_ok.mp h
  obtain ⟨state,hstate,h⟩ := check_bind_eq_ok.mp h
  cases h
  obtain ⟨hreached,rfl⟩ := readRaw_eq_ok hread
  rw [ContextPlugin.Agrees, hreached.records]
  exact mapError_eq_ok.mp hstate

/-- The plugin starts with the stored projections if they can be read. -/
theorem startContext_of_restore {state : ContextStateService}
    (hturn : (plugin.turns 0).failure = none)
    (h : ContextStateService.restore codec (plugin.records contextProjectionStateKey) =
      .ok state) :
    startContext codec plugin =
      .ok () { plugin with
        state := state
        turns := fun n => plugin.turns (n + 1) } := by
  have hread : readRaw contextProjectionStateKey plugin =
      .ok (plugin.records contextProjectionStateKey)
        { plugin with turns := fun n => plugin.turns (n + 1) } := by
    simp only [readRaw, nextTurn, readable, stateful_bind, stateful_get, stateful_set,
      stateful_pure, hturn, check_ok]
  rw [startContext, stateful_bind_ok hread, h]
  rfl

/-- In every run the memory agrees with the store; a command that fails leaves both as they were;
and a load that succeeds appends its injection and invalidates the projection in one commit. -/
theorem memory_agrees (hcodec : codec.Lawful) {started : ContextPlugin}
    (hstart : startContext codec plugin = .ok () started) (calls : List ContextCall) :
    let reached := runAll (ContextPlugin.step codec) started calls
    reached.Agrees codec ∧ ∀ call : ContextCall,
      let result := call.command.handle codec { reached with turns := call.turns }
      (∀ failure next, result = .error failure next → reached.Same next) ∧
      (∀ response next, result = .ok response next → next.Agrees codec) ∧
      ∀ executionId resourceId revision requester lifetime reason,
        call.command = .load executionId resourceId revision requester lifetime reason →
        ∀ response next, result = .ok response next → ∃ sequence resource,
          let injection : ContextInjection :=
            ⟨sequence,executionId,⟨resourceId,revision⟩,requester,lifetime,reason⟩
          response = .loaded injection resource ∧ Loads codec reached injection next := by
  intro reached
  have hagrees : reached.Agrees codec := runAll_invariant
    (fun _ call h => step_agrees hcodec call h) calls (startContext_agrees hstart)
  refine ⟨hagrees,fun call => ?_⟩
  have hturns := same_turns reached call.turns
  have hcall := hturns.agrees hagrees
  have hsettles := handle_settles hcodec hcall call.command
  refine ⟨fun failure next h => IsTrans.trans _ _ _ hturns (hsettles.error failure next h),
    hsettles.ok,?_⟩
  intro executionId resourceId revision requester lifetime reason hcommand response next h
  rw [hcommand] at h
  obtain ⟨⟨injection,resource⟩,loaded,hload,⟨⟩⟩ := stateful_bind_eq_ok.mp h
  obtain ⟨⟨sequence,rfl⟩,hloads⟩ := loadContext_eq_ok hcodec hcall hload
  exact ⟨sequence,resource,rfl,⟨hloads.appended,hloads.commits,hloads.invalidated,hloads.others,
    hloads.agrees⟩⟩

/-- The projection of one execution after a number of invalidations. -/
def guideState (n : U64) : ContextStateService :=
  .put .empty "run" { ContextProjectionState.new "run" with revision := ⟨n,n⟩ }

def guideStateText (n : String) : List UInt8 :=
  utf8 ("\x7b\"projections\":\x7b\"run\":\x7b\"execution_id\":\"run\",\"revision\":\x7b\"revision\":" ++
    n ++ ",\"cache_epoch\":" ++ n ++
    "\x7d,\"admitted\":\x7b\x7d,\"committed_checkpoint\":null,\"prepared\":\x7b\x7d\x7d\x7d\x7d")

def guideId : ContextResourceId := ⟨"guide",by decide⟩

def guideRevision : ContextRevisionId := ⟨"r1",by decide⟩

def guideResource : ContextResourceRevision where
  descriptor := ⟨guideId,guideRevision,.projectDocument,"GUIDE.md",.workspace,"r1",2⟩
  content := utf8 "Hi"

def guideResourceText : List UInt8 :=
  utf8 ("\x7b\"descriptor\":\x7b\"resource_id\":\"guide\",\"revision\":\"r1\"," ++
    "\"kind\":\"project_document\",\"source\":\"GUIDE.md\",\"scope\":\"workspace\"," ++
    "\"content_identity\":\"r1\",\"estimated_bytes\":2\x7d,\"content\":[72,105]\x7d")

def guideInjection : ContextInjection := ⟨1,"run",⟨guideId,guideRevision⟩,.user,.execution,"asked"⟩

def guideInjectionsText : List UInt8 :=
  utf8 ("[\x7b\"sequence\":1,\"execution_id\":\"run\",\"source\":\x7b\"resource_id\":\"guide\"," ++
    "\"revision\":\"r1\"\x7d,\"requester\":\"user\",\"lifetime\":\"execution\",\"reason\":\"asked\"\x7d]")

/-- The encodings of all that the example stores: two states, one list and one resource. -/
def tableCodec (text0 text1 list : List UInt8) : ContextCodec where
  encodeState service :=
    if service = guideState 0 then .ok text0
    else if service = guideState 1 then .ok text1
    else .error "no such state"
  decodeState bytes :=
    if bytes = text0 then .ok (guideState 0)
    else if bytes = text1 then .ok (guideState 1)
    else .error "no such state"
  encodeInjections injections :=
    if injections = [guideInjection] then .ok list else .error "no such list"
  decodeInjections bytes := if bytes = list then .ok [guideInjection] else .error "no such list"
  decodeResource bytes :=
    if bytes = guideResourceText then .ok guideResource else .error "no such resource"

theorem tableCodec_lawful {text0 text1 : List UInt8} (hne : text1 ≠ text0) (list : List UInt8) :
    (tableCodec text0 text1 list).Lawful where
  state service bytes h _ := by
    unfold tableCodec at h ⊢
    dsimp only at h ⊢
    split_ifs at h with h0 h1 <;> cases h
    · rw [if_pos rfl, h0]
    · rw [if_neg hne, if_pos rfl, h1]
  injections injections bytes h := by
    unfold tableCodec at h ⊢
    dsimp only at h ⊢
    split_ifs at h with hlist
    cases h
    rw [if_pos rfl, hlist]

def guideCodec : ContextCodec :=
  tableCodec (guideStateText "0") (guideStateText "1") guideInjectionsText

def guidePlugin : ContextPlugin where
  state := .empty
  records key :=
    if key = contextProjectionStateKey then some (guideStateText "0")
    else if key = "resource/guide/r1" then some guideResourceText
    else none
  committed := []
  turns _ := ⟨none,.ok (.found .active)⟩

def guideStarted : ContextPlugin :=
  { guidePlugin with
    state := guideState 0
    turns := fun n => guidePlugin.turns (n + 1) }

def guideLoad : ContextCall where
  command := .load "run" guideId guideRevision .user .execution "asked"
  turns _ := ⟨none,.ok (.found .active)⟩

def guideLoaded : ContextPlugin := runAll (ContextPlugin.step guideCodec) guideStarted [guideLoad]

/-- The first load for an execution with a projection. -/
theorem memory_agrees_guide : guideLoaded.state = guideState 1 ∧
    guideLoaded.records "injections/run" = some guideInjectionsText ∧
    guideLoaded.Agrees guideCodec := by
  have hcodec : guideCodec.Lawful := tableCodec_lawful (by decide +kernel) _
  have hrestore : ContextStateService.restore guideCodec
      (guidePlugin.records contextProjectionStateKey) = .ok (guideState 0) := by decide +kernel
  have hstart : startContext guideCodec guidePlugin = .ok () guideStarted :=
    startContext_of_restore rfl hrestore
  exact ⟨by decide +kernel,by decide +kernel,(memory_agrees hcodec hstart [guideLoad]).1⟩

end PhenixConductor.Context
