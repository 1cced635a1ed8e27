import PhenixConductor.Application.Roots

/-! # How an execution starts and ends

What the calls of the loop on the worker do for one execution, and when they do all of it.
-/
namespace PhenixConductor.Application
open Collections Contract Client
open Execution (ExecutionRecord)

variable {D R H : Type}

/-- The execution that a change names. -/
def executionOf : SessionChange D R → Option String
  | .textDelta executionId _ => some executionId
  | .execution executionId _ => some executionId
  | .message _ | .renamed _ | .closed | .diagnostic _ | .review _ => none

/-! ## Start -/

section Start
variable {setting : ApplicationSetting D R} {request : PromptInput}
  {worker next : ApplicationWorker D R H} {error : ApplicationError}

def userMessage (request : PromptInput) : SessionId × SessionChange D R :=
  (request.sessionId,.message ⟨.user,request.content⟩)

def runningEntry (sessionId : SessionId) (executionId : String) :
    SessionId × SessionChange D R :=
  (sessionId,.execution executionId (.state .running))

theorem prompt_eq_ok {result : PromptResult} (h : prompt setting request worker = .ok result next) :
    Acts [userMessage request] [result.executionId] [] worker next := by
  obtain ⟨session,opened,hopen,h⟩ := stateful_bind_eq_ok.mp h
  obtain ⟨executionId,allocated,hallocate,h⟩ := stateful_bind_eq_ok.mp h
  obtain ⟨_,appended,happend,h⟩ := stateful_bind_eq_ok.mp h
  cases h
  have hopened := ((silent_requireOpen request.sessionId).ok hopen).acts
  have hallocated := allocateRootExecution_eq_ok hallocate
  cases hchange : appendSessionChange setting session (.message ⟨.user,request.content⟩)
      allocated with
  | ok update after =>
    rw [tryCatch_of_ok hchange] at happend
    cases happend
    have hwrote := appendSessionChange_eq_ok hchange
    rw [requireOpen_id hopen] at hwrote
    exact (hopened.trans hallocated).trans hwrote.acts
  | error failure after =>
    rw [tryCatch_of_error hchange] at happend
    cases happend

/-- A prompt that finds its session open gets the answer of its allocation. -/
def AllocationKnown (setting : ApplicationSetting D R) (request : PromptInput)
    (worker : ApplicationWorker D R H) : Prop :=
  ∀ session opened, requireOpenApplicationSession request.sessionId worker = .ok session opened →
    AllocationAnswered setting opened

/-- A prompt that fails before its execution is handed on: every execution that it has
allocated is finished, unless the answer of the allocation was lost. -/
structure PromptFails (setting : ApplicationSetting D R) (request : PromptInput) (worker next : ApplicationWorker D R H)
    (entries : List (SessionId × SessionChange D R)) (made : List String)
    (issued : List (String × Bool)) : Prop where
  acts : Acts entries made issued worker next
  aside : ∀ entry ∈ entries, executionOf entry.2 = none
  ended : (made = [] ∧ issued = []) ∨ (∃ id, made = [id] ∧ issued = [(id,false)]) ∨
    ∃ id, made = [id] ∧ issued = [] ∧ ¬AllocationKnown setting request worker

theorem prompt_eq_error (h : prompt setting request worker = .error error next) :
    ∃ entries made issued, PromptFails setting request worker next entries made issued := by
  rcases stateful_bind_eq_error.mp h with hopen | ⟨session,opened,hopen,h⟩
  · have hacts := ((silent_requireOpen request.sessionId).failsAlong _ _ _ hopen).acts
    exact ⟨_,_,_,hacts,nofun,.inl ⟨rfl,rfl⟩⟩
  have hopened := ((silent_requireOpen request.sessionId).ok hopen).acts
  rcases stateful_bind_eq_error.mp h with hallocate | ⟨executionId,allocated,hallocate,h⟩
  · rcases allocateRootExecution_eq_error hallocate with hacts | ⟨id,hacts⟩ | ⟨id,hacts,hlost⟩
    · exact ⟨_,_,_,hopened.trans hacts,nofun,.inl ⟨rfl,rfl⟩⟩
    · exact ⟨_,_,_,hopened.trans hacts,nofun,.inr (.inl ⟨id,rfl,rfl⟩)⟩
    · refine ⟨_,_,_,hopened.trans hacts,nofun,.inr (.inr ⟨id,rfl,rfl,fun hknown => ?_⟩)⟩
      exact hlost (hknown session opened hopen)
  have hallocated := allocateRootExecution_eq_ok hallocate
  rcases stateful_bind_eq_error.mp h with happend | ⟨_,appended,-,h⟩
  · cases hchange : appendSessionChange setting session (.message ⟨.user,request.content⟩)
        allocated with
    | ok update after =>
      rw [tryCatch_of_ok hchange] at happend
      cases happend
    | error failure after =>
      rw [tryCatch_of_error hchange] at happend
      cases happend
      have hfinished := finishRootExecution_acts setting executionId false after
      rcases (appendSessionChange_eq_error hchange).wrote with hs | hw
      · exact ⟨_,_,_,((hopened.trans hallocated).trans hs.acts).trans hfinished,nofun,
          .inr (.inl ⟨executionId,rfl,rfl⟩)⟩
      · exact ⟨_,_,_,((hopened.trans hallocated).trans hw.acts).trans hfinished,by simp [executionOf],
          .inr (.inl ⟨executionId,rfl,rfl⟩)⟩
  · cases h

/-- The first state of an execution that a prompt has started reaches the journal. -/
def RunningAppended (setting : ApplicationSetting D R) (request : PromptInput)
    (worker : ApplicationWorker D R H) : Prop :=
  ∀ result prompted, prompt setting request worker = .ok result prompted →
    ∃ update next, appendExecutionChange setting request.sessionId result.executionId
      (.state .running) prompted = .ok update next

theorem startExecution_eq_ok {executionId : String}
    (h : startExecution setting request worker = .ok executionId next) :
    Acts [userMessage request,runningEntry request.sessionId executionId] [executionId] []
      worker next := by
  obtain ⟨result,prompted,hprompt,h⟩ := stateful_bind_eq_ok.mp h
  obtain ⟨update,appended,happend,h⟩ := stateful_bind_eq_ok.mp h
  cases h
  exact (prompt_eq_ok hprompt).trans (appendExecutionChange_eq_ok happend).acts

/-- The execution is made, and its first state is not known to be in the journal. -/
structure RunningFails (request : PromptInput) (worker next : ApplicationWorker D R H)
    (entries : List (SessionId × SessionChange D R)) (executionId : String) : Prop where
  acts : Acts entries [executionId] [] worker next
  noted : next.appendFailed = true
  listed : entries = [userMessage request] ∨
    entries = [userMessage request,runningEntry request.sessionId executionId]

theorem startExecution_eq_error
    (h : startExecution setting request worker = .error error next) :
    (∃ entries made issued, PromptFails setting request worker next entries made issued) ∨
      (¬RunningAppended setting request worker ∧
        ∃ entries executionId, RunningFails request worker next entries executionId) := by
  rcases stateful_bind_eq_error.mp h with hprompt | ⟨result,prompted,hprompt,h⟩
  · exact .inl (prompt_eq_error hprompt)
  have hacts := prompt_eq_ok hprompt
  rcases stateful_bind_eq_error.mp h with happend | ⟨update,appended,-,h⟩
  · right
    constructor
    · intro hrunning
      obtain ⟨update,after,hok⟩ := hrunning result prompted hprompt
      cases happend.symm.trans hok
    · have hfails := appendExecutionChange_eq_error happend
      rcases hfails.wrote with hs | hw
      · exact ⟨_,_,hacts.trans hs.acts,hfails.noted,.inl rfl⟩
      · exact ⟨_,_,hacts.trans hw.acts,hfails.noted,.inr rfl⟩
  · cases h

end Start

/-! ## End -/

section End
variable {setting : ApplicationSetting D R} {sessionId : SessionId} {executionId : String}
  {worker next : ApplicationWorker D R H} {error : ApplicationError}

def stateEntry (sessionId : SessionId) (executionId : String) (state : ExecutionState) :
    SessionId × SessionChange D R :=
  (sessionId,.execution executionId (.state state))

/-- An append whose failure is dropped. -/
theorem appendExecutionChange_acts (setting : ApplicationSetting D R) (sessionId : SessionId)
    (executionId : String) (change : ExecutionChange) (worker : ApplicationWorker D R H) :
    ∃ entries, Acts entries [] [] worker
      (after (appendExecutionChange setting sessionId executionId change) worker) ∧
      (entries = [] ∧ (after (appendExecutionChange setting sessionId executionId change)
          worker).appendFailed = true ∨
        entries = [(sessionId,.execution executionId change)]) := by
  cases h : appendExecutionChange setting sessionId executionId change worker with
  | ok update next =>
    rw [after_ok h]
    exact ⟨_,(appendExecutionChange_eq_ok h).acts,.inr rfl⟩
  | error failure next =>
    rw [after_error h]
    have hfails := appendExecutionChange_eq_error h
    rcases hfails.wrote with hs | hw
    · exact ⟨_,hs.acts,.inl ⟨rfl,hfails.noted⟩⟩
    · exact ⟨_,hw.acts,.inr rfl⟩

/-- The end of an execution that has not put out a result: it is finished without success, and
its last state is in the journal unless the append has failed. -/
structure EndsIn (setting : ApplicationSetting D R) (sessionId : SessionId) (executionId : String)
    (state : ExecutionState) (worker next : ApplicationWorker D R H)
    (entries : List (SessionId × SessionChange D R)) : Prop where
  acts : Acts entries [] [(executionId,false)] worker next
  listed : entries = [] ∧ next.appendFailed = true ∨
    entries = [stateEntry sessionId executionId state]

theorem cancelExecution_endsIn (setting : ApplicationSetting D R) (sessionId : SessionId)
    (executionId : String) (worker : ApplicationWorker D R H) :
    ∃ entries, EndsIn setting sessionId executionId .cancelled worker
      (after (cancelExecution setting sessionId executionId) worker) entries := by
  obtain ⟨entries,hacts,hlisted⟩ := appendExecutionChange_acts setting sessionId executionId
    (.state .cancelled) (after (finishRootExecution setting executionId false) worker)
  exact ⟨_,(finishRootExecution_acts setting executionId false worker).trans hacts,hlisted⟩

theorem endExecution_error_endsIn (setting : ApplicationSetting D R) (sessionId : SessionId)
    (executionId : String) (error : ApplicationError) (worker : ApplicationWorker D R H) :
    ∃ next entries, endExecution setting sessionId executionId (.error error) worker =
      .error error next ∧
        EndsIn setting sessionId executionId (.failed error) worker next entries := by
  obtain ⟨entries,hacts,hlisted⟩ := appendExecutionChange_acts setting sessionId executionId
    (.state (.failed error)) (after (finishRootExecution setting executionId false) worker)
  exact ⟨_,_,rfl,(finishRootExecution_acts setting executionId false worker).trans hacts,hlisted⟩

/-- The changes that a result is written as. -/
def outputEntries (sessionId : SessionId) (executionId text : String) :
    List (SessionId × SessionChange D R) :=
  [(sessionId,.textDelta executionId text),(sessionId,.message ⟨.assistant,[.text text]⟩),
    stateEntry sessionId executionId .completed]

theorem completePromptOutput_eq_ok {text : String} {result : PromptResult}
    (h : completePromptOutput setting sessionId executionId text worker = .ok result next) :
    Wrote (outputEntries sessionId executionId text) worker next := by
  obtain ⟨session,opened,hopen,h⟩ := stateful_bind_eq_ok.mp h
  obtain ⟨_,texted,htext,h⟩ := stateful_bind_eq_ok.mp h
  obtain ⟨_,messaged,hmessage,h⟩ := stateful_bind_eq_ok.mp h
  obtain ⟨_,completed,hcompleted,h⟩ := stateful_bind_eq_ok.mp h
  cases h
  have hopened := (silent_requireOpen sessionId).ok hopen
  have htexted := appendSessionChange_eq_ok htext
  have hmessaged := appendSessionChange_eq_ok hmessage
  rw [requireOpen_id hopen] at htexted hmessaged
  exact ((hopened.trans htexted).trans hmessaged).trans (appendExecutionChange_eq_ok hcompleted)

/-- A result that is written in part: an append has failed, or the session could not be read
as an open one in the first place. -/
theorem completePromptOutput_eq_error {text : String}
    (h : completePromptOutput setting sessionId executionId text worker = .error error next) :
    ∃ entries, entries <+: outputEntries sessionId executionId text ∧ Wrote entries worker next ∧
      (next.appendFailed = true ∨
        requireOpenApplicationSession sessionId worker = .error error next) := by
  rcases stateful_bind_eq_error.mp h with hopen | ⟨session,opened,hopen,h⟩
  · exact ⟨[],List.nil_prefix,(silent_requireOpen sessionId).failsAlong _ _ _ hopen,.inr hopen⟩
  have hopened := (silent_requireOpen sessionId).ok hopen
  have hid := requireOpen_id hopen
  have hpart (n : ℕ) : (outputEntries (D := D) (R := R) sessionId executionId text).take n <+:
      outputEntries sessionId executionId text := List.take_prefix n _
  rcases stateful_bind_eq_error.mp h with htext | ⟨_,texted,htext,h⟩
  · have hfails := appendSessionChange_eq_error htext
    rw [hid] at hfails
    rcases hfails.wrote with hs | hw
    · exact ⟨_,hpart 0,hopened.trans hs,.inl hfails.noted⟩
    · exact ⟨_,hpart 1,hopened.trans hw,.inl hfails.noted⟩
  have htexted := appendSessionChange_eq_ok htext
  rcases stateful_bind_eq_error.mp h with hmessage | ⟨_,messaged,hmessage,h⟩
  · have hfails := appendSessionChange_eq_error hmessage
    rw [hid] at hfails htexted
    rcases hfails.wrote with hs | hw
    · exact ⟨_,hpart 1,(hopened.trans htexted).trans hs,.inl hfails.noted⟩
    · exact ⟨_,hpart 2,(hopened.trans htexted).trans hw,.inl hfails.noted⟩
  have hmessaged := appendSessionChange_eq_ok hmessage
  rcases stateful_bind_eq_error.mp h with hcompleted | ⟨_,completed,-,h⟩
  · have hfails := appendExecutionChange_eq_error hcompleted
    rw [hid] at htexted hmessaged
    rcases hfails.wrote with hs | hw
    · exact ⟨_,hpart 2,((hopened.trans htexted).trans hmessaged).trans hs,.inl hfails.noted⟩
    · exact ⟨_,hpart 3,((hopened.trans htexted).trans hmessaged).trans hw,.inl hfails.noted⟩
  · cases h

/-- The ledger says that the execution is completed. -/
def ApplicationWorker.Completed (worker : ApplicationWorker D R H) (executionId : String) : Prop :=
  ∃ execution, worker.executions.executions.get? executionId = some execution ∧
    execution.state = .completed

/-- The calls that complete an execution get through: the first two calls are served, the
execution is active and the session is open. -/
structure CanComplete (sessionId : SessionId) (executionId : String)
    (worker : ApplicationWorker D R H) : Prop where
  finishServed : worker.fates.headD .served = .served
  readServed : worker.fates.tail.headD .served = .served
  active : ∃ execution, worker.executions.executions.get? executionId = some execution ∧
    execution.state = .active
  isOpen : ∃ session, worker.sessions.records.get? sessionId = some session ∧
    session.workingDirectory.isSome ∧ session.lifecycle = .open

variable {ledger : Execution.ExecutionProjection}

theorem execute_finish {context : Execution.CallContext} {execution : ExecutionRecord}
    (hget : ledger.executions.get? executionId = some execution)
    (hactive : execution.state = .active) (success : Bool) :
    Execution.execute context (fun _ => ⟨.ok (),.committed⟩) (.finishExecution executionId success)
      ledger = .ok (.execution { execution with state := if success then .completed else .failed })
        (ledger.putExecution executionId
          { execution with state := if success then .completed else .failed }) := by
  have hmutate : Execution.mutate context ledger (.finishExecution executionId success) =
      .ok (ledger.putExecution executionId
        { execution with state := if success then .completed else .failed },
        .execution { execution with state := if success then .completed else .failed }) := by
    simp only [Execution.mutate, Execution.finishExecution,
      Execution.activeExecution_eq_ok.mpr ⟨hget,hactive⟩]
    rfl
  simp only [Execution.execute, Execution.mutateState, check_ok, stateful_bind, stateful_get,
    hmutate, stateful_set, stateful_pure]

theorem invokeExecution_of_served {command : Execution.ExecutionCommand}
    {response : Execution.ExecutionResponse} (setting : ApplicationSetting D R)
    (hserved : worker.fates.headD .served = .served)
    (h : Execution.execute setting.context (fun _ => ⟨.ok (),.committed⟩) command worker.executions = .ok response ledger) :
    invokeExecution setting command worker = .ok response { worker with
      executions := ledger
      fates := worker.fates.tail
      allocated := worker.allocated ++ newExecutions worker.executions ledger
      finished := worker.finished ++ issuedFinish command } := by
  unfold invokeExecution
  simp only [hserved, CallFate.call, h, check_ok]

theorem CanComplete.finish (h : CanComplete sessionId executionId worker)
    (setting : ApplicationSetting D R) :
    ∃ next, finishRootExecution setting executionId true worker = .ok () next ∧
      next.sessions = worker.sessions ∧ next.fates = worker.fates.tail := by
  obtain ⟨execution,hget,hactive⟩ := h.active
  have hinvoke := invokeExecution_of_served setting h.finishServed
    (execute_finish hget hactive true)
  exact ⟨_,stateful_bind_ok hinvoke,rfl,rfl⟩

theorem requireOpen_of_open {session : SessionRecord}
    (hserved : worker.fates.headD .served = .served)
    (hget : worker.sessions.records.get? sessionId = some session)
    (hdirectory : session.workingDirectory.isSome) (hopen : session.lifecycle = .open) :
    ∃ next, requireOpenApplicationSession sessionId worker = .ok session next := by
  obtain ⟨directory,hdirectory⟩ := Option.isSome_iff_exists.mp hdirectory
  have hcheck : requireOpenRecord sessionId (some session) = .ok session := by
    simp [requireOpenRecord, applicationSessionInfo, hdirectory, hopen, bind, Except.bind, pure,
      Except.pure]
  refine ⟨{ worker with fates := worker.fates.tail },?_⟩
  simp only [requireOpenApplicationSession, sessionRecord, invokeSession, stateful_bind, hserved,
    CallFate.call, sessionService, handleSession, hget, check_ok, hcheck, stateful_pure]

theorem CanComplete.read (h : CanComplete sessionId executionId worker)
    (hsessions : next.sessions = worker.sessions) (hfates : next.fates = worker.fates.tail) :
    ∃ session opened, requireOpenApplicationSession sessionId next = .ok session opened := by
  obtain ⟨session,hget,hdirectory,hopen⟩ := h.isOpen
  obtain ⟨opened,hok⟩ := requireOpen_of_open (hfates ▸ h.readServed) (hsessions ▸ hget)
    hdirectory hopen
  exact ⟨session,opened,hok⟩

theorem Completed.of_wrote {entries : List (SessionId × SessionChange D R)}
    (h : Wrote entries worker next) (hcompleted : worker.Completed executionId) :
    next.Completed executionId := by
  unfold ApplicationWorker.Completed
  rw [h.executions]
  exact hcompleted

/-- The end of an execution whose run has put out a result. -/
structure EndsWithOutput (sessionId : SessionId) (executionId text : String)
    (worker next : ApplicationWorker D R H) (entries : List (SessionId × SessionChange D R)) :
    Prop where
  acts : Acts entries [] [(executionId,true)] worker next
  listed : entries <+: outputEntries sessionId executionId text
  completed : entries ≠ [] → next.Completed executionId
  whole : entries = outputEntries sessionId executionId text ∨ next.appendFailed = true ∨
    ¬CanComplete sessionId executionId worker

theorem endExecution_ok (setting : ApplicationSetting D R) (sessionId : SessionId)
    (executionId text : String) : (endExecution setting sessionId executionId (.ok text) :
      WorkerM D R H PromptResult) = (finishRootExecution setting executionId true >>= fun _ =>
        completePromptOutput setting sessionId executionId text) := rfl

theorem endExecution_output (setting : ApplicationSetting D R) (sessionId : SessionId)
    (executionId text : String) (worker : ApplicationWorker D R H) :
    ∃ entries, EndsWithOutput sessionId executionId text worker
      (after (endExecution setting sessionId executionId (.ok text)) worker) entries := by
  rw [endExecution_ok]
  cases hfinish : finishRootExecution setting executionId true worker with
  | error failure next =>
    have hacts := finishRootExecution_acts setting executionId true worker
    rw [after_error hfinish] at hacts
    rw [after_error (stateful_bind_error hfinish)]
    refine ⟨[],hacts,List.nil_prefix,nofun,.inr (.inr fun hcan => ?_)⟩
    obtain ⟨finished,hok,-⟩ := hcan.finish setting
    cases hfinish.symm.trans hok
  | ok _ finished =>
    obtain ⟨hacts,hcompleted⟩ := finishRootExecution_eq_ok hfinish
    have hafter : after (finishRootExecution setting executionId true >>= fun _ =>
        completePromptOutput setting sessionId executionId text) worker =
        after (completePromptOutput setting sessionId executionId text) finished := by
      unfold after
      rw [stateful_bind_ok hfinish]
    rw [hafter]
    cases hcomplete : completePromptOutput setting sessionId executionId text finished with
    | ok result next =>
      rw [after_ok hcomplete]
      have hwrote := completePromptOutput_eq_ok hcomplete
      exact ⟨_,hacts.trans hwrote.acts,List.prefix_rfl,fun _ => Completed.of_wrote hwrote hcompleted,
        .inl rfl⟩
    | error failure next =>
      rw [after_error hcomplete]
      obtain ⟨entries,hlisted,hwrote,hreason⟩ := completePromptOutput_eq_error hcomplete
      refine ⟨entries,hacts.trans hwrote.acts,hlisted,fun _ => Completed.of_wrote hwrote hcompleted,
        .inr (hreason.imp id fun hopen hcan => ?_)⟩
      obtain ⟨after,hok,hsessions,hfates⟩ := hcan.finish setting
      cases hfinish.symm.trans hok
      obtain ⟨session,opened,hread⟩ := hcan.read hsessions hfates
      cases hopen.symm.trans hread

end End

end PhenixConductor.Application

/-! ## Operations on sessions

The operations that create, rename, close and resume a session, and the record of a review,
leave the executions alone: what they append to a journal names no execution.
-/
namespace PhenixConductor.Application
open Collections Contract Client

variable {D R H : Type}

/-- The executions are left as they are, and no change that is appended names one. -/
def Aside (before after : ApplicationWorker D R H) : Prop :=
  ∃ entries, (∀ entry ∈ entries, executionOf entry.2 = none) ∧ Wrote entries before after

instance reflAside : Std.Refl (Aside (D := D) (R := R) (H := H)) :=
  ⟨fun worker => ⟨[],nofun,.refl worker⟩⟩

instance transAside : IsTrans (ApplicationWorker D R H) Aside where
  trans := by
    rintro a b c ⟨entries,hnone,hwrote⟩ ⟨entries',hnone',hwrote'⟩
    refine ⟨entries ++ entries',fun entry hentry => ?_,hwrote.trans hwrote'⟩
    exact (List.mem_append.mp hentry).elim (hnone entry) (hnone' entry)

variable {before after : ApplicationWorker D R H}

theorem Wrote.aside {entries : List (SessionId × SessionChange D R)}
    (h : Wrote entries before after) (hnone : ∀ entry ∈ entries, executionOf entry.2 = none) :
    Aside before after :=
  ⟨entries,hnone,h⟩

theorem Aside.acts (h : Aside before after) :
    ∃ entries, (∀ entry ∈ entries, executionOf entry.2 = none) ∧
      Acts entries [] [] before after := by
  obtain ⟨entries,hnone,hwrote⟩ := h
  exact ⟨entries,hnone,hwrote.acts⟩

theorem aside_of_silent {α : Type} {x : WorkerM D R H α} (h : Moves Silent x) : Moves Aside x :=
  fun worker => (h worker).aside nofun

section Operations
variable (setting : ApplicationSetting D R)

theorem aside_invokeSession {command : SessionCommand (SessionChange D R)}
    {entries : List (SessionId × SessionChange D R)} (hwrites : Writes command entries)
    (hnone : ∀ entry ∈ entries, executionOf entry.2 = none) :
    Moves Aside (invokeSession (H := H) command) := by
  intro worker
  cases h : invokeSession command worker with
  | ok response next =>
    rw [after_ok h]
    exact ((invokeSession_eq_ok h).wrote hwrites).aside hnone
  | error error next =>
    rw [after_error h]
    rcases invokeSession_error_wrote h hwrites with hs | hw
    · exact hs.aside nofun
    · exact hw.aside hnone

theorem aside_createSession (request : SessionCreateInput) :
    Moves Aside (createSessionOp setting request : WorkerM D R H _) := by
  refine (aside_of_silent (silent_of_reads reads_allocateSessionId)).bind fun id => ?_
  refine (aside_invokeSession (.create _) nofun).bind fun response => ?_
  cases response with
  | created session =>
    exact (moves_check _).bind fun info => (aside_of_silent (silent_project _)).bind fun _ =>
      aside_of_silent (moves_pure info)
  | session | transitioned | journalAppended | journal => exact aside_of_silent (moves_throw _)

/-- A transition of an open session appends its one change. -/
theorem aside_transition {α : Type} (id : SessionId) (transition : SessionTransition)
    {change : SessionChange D R} (hnone : executionOf change = none) (operation : String)
    (answer : SessionInfo → α) :
    Moves Aside (do
      let _ ← requireOpenApplicationSession id
      reserveSessionEventSlot
      match ← invokeSession (.transition id transition (sessionChangeJournal change)) with
      | .transitioned session journal =>
        let info ← check (applicationSessionInfo session)
        let _ ← projectJournalEntry setting info journal
        return answer info
      | _ => throw (unexpectedSessionResponse operation) : WorkerM D R H α) := by
  refine (aside_of_silent (silent_requireOpen id)).bind fun _ => ?_
  refine (aside_of_silent silent_reserve).bind fun _ => ?_
  refine (aside_invokeSession (.transition id transition change) ?_).bind fun response => ?_
  · intro entry hentry
    rw [List.mem_singleton.mp hentry]
    exact hnone
  · cases response with
    | transitioned session journal =>
      exact (moves_check _).bind fun info =>
        (aside_of_silent (silent_projectJournalEntry setting info journal)).bind fun _ =>
          aside_of_silent (moves_pure _)
    | session | created | journalAppended | journal => exact aside_of_silent (moves_throw _)

theorem aside_renameSession (request : SessionRenameInput) :
    Moves Aside (renameSession setting request : WorkerM D R H _) :=
  aside_transition setting request.sessionId (.rename request.title) rfl "rename" id

theorem aside_closeSession (request : SessionInput) :
    Moves Aside (closeSession setting request : WorkerM D R H _) :=
  aside_transition setting request.sessionId .close rfl "close" fun _ => ()

theorem aside_resumeSession (request : SessionResumeInput) :
    Moves Aside (resumeSession setting request : WorkerM D R H _) := by
  refine (aside_of_silent (silent_loadSessionSnapshot request)).bind fun snapshot => ?_
  cases hwatermark : request.afterSequence with
  | none => exact aside_of_silent ((silent_project _).bind fun _ => moves_pure snapshot)
  | some sequence => exact aside_of_silent (moves_pure snapshot)

theorem aside_recordReview (sessionId : SessionId) (review : R) :
    Moves Aside (recordReview setting sessionId review : WorkerM D R H _) := by
  refine (aside_of_silent (silent_requireOpen sessionId)).bind fun session => ?_
  refine Moves.bind (fun worker => ?_) fun _ => aside_of_silent (moves_pure review)
  cases h : appendSessionChange setting session (.review review) worker with
  | ok update next =>
    rw [after_ok h]
    exact (appendSessionChange_eq_ok h).aside (by simp [executionOf])
  | error error next =>
    rw [after_error h]
    rcases (appendSessionChange_eq_error h).wrote with hs | hw
    · exact hs.aside nofun
    · exact hw.aside (by simp [executionOf])

end Operations

end PhenixConductor.Application
