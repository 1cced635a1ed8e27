import PhenixConductor.Application.Tales

/-! # Every root execution is finished and tells one story

Each kind of step keeps what holds of the executions, as long as it does not run into one of
the clean-ups that the loop leaves out: an execution whose first state cannot be appended, one
whose allocation is not answered, and one that has put out a result but cannot be completed.
-/
namespace PhenixConductor.Application
open Collections Contract Client

variable {D R H : Type}

/-! ## Ends -/

section Ends
variable {setting : ApplicationSetting D R} {sessionId : SessionId} {executionId : String}
  {worker next : ApplicationWorker D R H} {entries : List (SessionId × SessionChange D R)}

variable {state : ExecutionState}

theorem EndsIn.onlyNames (h : EndsIn setting sessionId executionId state worker next entries) :
    OnlyNames entries sessionId executionId := by
  rcases h.listed with ⟨rfl,-⟩ | rfl
  · simp [OnlyNames]
  · simp [OnlyNames, stateEntry, executionOf]

theorem EndsIn.closing (h : EndsIn setting sessionId executionId state worker next entries)
    (hterminal : IsTerminal state) :
    Closing executionId next.appendFailed (named entries sessionId executionId) := by
  rcases h.listed with ⟨rfl,hfailed⟩ | rfl
  · exact .silent hfailed (by simp [named])
  · have hnamed : named [stateEntry (D := D) (R := R) sessionId executionId state] sessionId
        executionId = [] ++ [.execution executionId (.state state)] := by
      simp [named, written, stateEntry, executionOf]
    rw [hnamed]
    exact .state (by simp) hterminal

theorem EndsIn.not_completed (h : EndsIn setting sessionId executionId state worker next entries)
    (hstate : state ≠ .completed) :
    .execution executionId (.state .completed) ∉ named entries sessionId executionId := by
  intro hmem
  have hentry := (mem_named.mp hmem).1
  rcases h.listed with ⟨rfl,-⟩ | rfl
  · cases hentry
  · rw [List.mem_singleton] at hentry
    cases hentry
    exact hstate rfl

variable {text : String}

/-- Before the last entry there is no state. -/
theorem EndsWithOutput.whole_or_silent
    (h : EndsWithOutput sessionId executionId text worker next entries) :
    entries = outputEntries sessionId executionId text ∨
      ∀ change ∈ named entries sessionId executionId, stateOf change = none := by
  have hshort : entries = outputEntries sessionId executionId text ∨
      entries ⊆ [(sessionId,.textDelta executionId text),
        (sessionId,.message ⟨.assistant,[.text text]⟩)] := by
    have hlisted := h.listed
    simp only [outputEntries, List.prefix_cons_iff, List.prefix_nil] at hlisted ⊢
    rcases hlisted with rfl | ⟨_,rfl,rfl | ⟨_,rfl,rfl | ⟨_,rfl,rfl⟩⟩⟩ <;> simp
  refine hshort.imp id fun hsubset change hchange => ?_
  obtain ⟨hmem,hid⟩ := mem_named.mp hchange
  rcases List.mem_cons.mp (hsubset hmem) with heq | hmem
  · cases heq
    rfl
  · cases List.mem_singleton.mp hmem
    cases hid

theorem EndsWithOutput.onlyNames (h : EndsWithOutput sessionId executionId text worker next entries) :
    OnlyNames entries sessionId executionId := by
  have hall : OnlyNames (outputEntries (D := D) (R := R) sessionId executionId text) sessionId
      executionId := by
    simp [OnlyNames, outputEntries, stateEntry, executionOf]
  exact fun entry hentry => hall entry (h.listed.subset hentry)

theorem EndsWithOutput.closing (h : EndsWithOutput sessionId executionId text worker next entries)
    (hcan : CanComplete sessionId executionId worker) :
    Closing executionId next.appendFailed (named entries sessionId executionId) := by
  have hwhole : named (outputEntries (D := D) (R := R) sessionId executionId text) sessionId
      executionId = [.textDelta executionId text] ++ [.execution executionId (.state .completed)] := by
    simp [named, written, outputEntries, stateEntry, executionOf]
  rcases h.whole with rfl | hfailed | hnot
  · rw [hwhole]
    exact .state (by simp [stateOf]) trivial
  · rcases h.whole_or_silent with rfl | hsilent
    · rw [hwhole]
      exact .state (by simp [stateOf]) trivial
    · exact .silent hfailed hsilent
  · exact absurd hcan hnot

end Ends

namespace PromptLoop
variable (setting : ApplicationSetting D R)

/-! ## Steps -/

section Steps
variable {s : PromptLoop D R H}

theorem Tells.answerWith {α : Type} (h : Tells s) (taken number : ℕ)
    (input : Except ApplicationError α) {operation : α → WorkerM D R H (Reply R)}
    (haside : ∀ a, Moves Aside (operation a)) :
    Tells (answerWith { s with taken } number input operation) := by
  have hmoves : Moves Aside (check input >>= operation) := (moves_check input).bind haside
  unfold PromptLoop.answerWith
  cases hx : (check input >>= operation) s.worker with
  | ok reply worker =>
    obtain ⟨entries,hnone,hacts⟩ := (hmoves.ok hx).acts
    exact (h.calls hacts hnone).events ..
  | error error worker =>
    obtain ⟨entries,hnone,hacts⟩ := (hmoves.failsAlong _ _ _ hx).acts
    exact (h.calls hacts hnone).events ..

theorem Tells.cancelPrompt (h : Tells s) (hsound : Sound s) (taken number : ℕ)
    (input : Except ApplicationError SessionInput) :
    Tells (cancelPrompt setting { s with taken } number input) := by
  unfold PromptLoop.cancelPrompt
  cases input with
  | error error => exact h.events ..
  | ok request =>
    cases hcancel : cancel request s.worker with
    | error error worker =>
      have hsilent := (silent_cancel request).failsAlong _ _ _ hcancel
      simp only [hcancel]
      exact (h.calls hsilent.acts (by simp)).events ..
    | ok _ worker =>
      have hsilent := (silent_cancel request).ok hcancel
      simp only [hcancel]
      have hcalls := h.calls hsilent.acts (by simp)
      cases hget : s.active.get? request.sessionId.text with
      | none => exact hcalls.events ..
      | some x =>
        obtain ⟨entries,hends⟩ :=
          cancelExecution_endsIn setting request.sessionId x.executionId worker
        have hclosed := hcalls.closed (hsound.worker hsilent.acts.knows s.roots) hget
          (s.cancelled ++ [x.cancellation]) hends.acts hends.onlyNames (hends.closing trivial)
          (fun hmem => absurd hmem (hends.not_completed (by simp))) (by simp) (by simp)
        exact hclosed.events ..

/-- A prompt either starts its execution, or what it has made is finished. -/
theorem Tells.startPrompt (h : Tells s) (taken number : ℕ) (request : PromptInput)
    (tools : Except ApplicationError Unit)
    (hstarts : ∀ text, tools = .ok () → request.sessionId.text ∉ s.active.keys →
      modelInputFromContent request.content = .ok text →
      AllocationKnown setting request s.worker ∧ RunningAppended setting request s.worker) :
    Tells (startPrompt setting { s with taken } number (.ok request) tools) := by
  unfold PromptLoop.startPrompt
  dsimp only
  split_ifs with hactive
  · exact h.events ..
  have hfree := (BTreeMap.get?_eq_none _).mpr hactive
  cases hcontent : modelInputFromContent request.content with
  | error error => exact h.events ..
  | ok text =>
    cases tools with
    | error error => exact h.events ..
    | ok _ =>
      obtain ⟨hknown,hrunning⟩ := hstarts text rfl hactive hcontent
      cases hstart : startExecution setting request s.worker with
      | ok executionId worker =>
        have hacts := startExecution_eq_ok hstart
        have hdrop : worker.allocated.drop s.worker.allocated.length = [executionId] := by
          rw [hacts.allocated, List.drop_left]
        simp only [PromptLoop.rooted, hdrop]
        exact h.started hacts hfree number taken
      | error error worker =>
        rcases startExecution_eq_error hstart with ⟨entries,made,issued,hfails⟩ | ⟨hnot,-⟩
        · have hdrop : worker.allocated.drop s.worker.allocated.length = made := by
            rw [hfails.acts.allocated, List.drop_left]
          simp only [PromptLoop.rooted, hdrop]
          have hacts := hfails.acts
          rcases hfails.ended with ⟨rfl,rfl⟩ | ⟨id,rfl,rfl⟩ | ⟨id,-,-,hunknown⟩
          · have hcalls := h.calls hacts hfails.aside
            simp only [List.map_nil, List.append_nil]
            exact hcalls.events ..
          · exact (h.failed number hacts hfails.aside).events ..
          · exact absurd hknown hunknown
        · exact absurd hrunning hnot

theorem change_silent (executionId : String) (change : ToolChange) :
    stateOf (.execution executionId change.change : SessionChange D R) = none := by
  cases change <;> rfl

theorem progress_named (sessionId : SessionId) (executionId : String) (change : ToolChange) :
    OnlyNames [((sessionId,.execution executionId change.change) : SessionId × SessionChange D R)]
      sessionId executionId ∧
    ∀ c ∈ named [((sessionId,.execution executionId change.change) :
      SessionId × SessionChange D R)] sessionId executionId, stateOf c = none := by
  constructor
  · simp [OnlyNames, executionOf]
  · intro c hc
    obtain ⟨hmem,-⟩ := mem_named.mp hc
    cases List.mem_singleton.mp hmem
    exact change_silent executionId change

theorem Tells.handleExecutionProgress (h : Tells s) (hsound : Sound s) (sessionId : SessionId)
    (executionId : String) (change : ToolChange) :
    Tells (handleExecutionProgress setting s sessionId executionId change) := by
  unfold PromptLoop.handleExecutionProgress
  cases hget : s.active.get? sessionId.text with
  | none => exact h
  | some x =>
    dsimp only
    split_ifs with hother
    · exact h
    obtain rfl := not_not.mp hother
    obtain ⟨honly,hsilent⟩ := progress_named (D := D) (R := R) sessionId x.executionId change
    cases happend : appendExecutionChange setting sessionId x.executionId change.change s.worker with
    | ok update worker =>
      exact h.progressed hsound hget (appendExecutionChange_eq_ok happend).acts honly hsilent
    | error error worker =>
      have hfails := appendExecutionChange_eq_error happend
      have hfinish := finishRootExecution_acts setting x.executionId false worker
      have hfailed := hfinish.appendFailed hfails.noted
      rcases hfails.wrote with hs | hw
      · have hclosed := h.closed hsound hget (s.cancelled ++ [x.cancellation])
          (hs.acts.trans hfinish) nofun (.silent hfailed nofun) nofun nofun (by simp)
        exact hclosed.events ..
      · have hacts := hw.acts.trans hfinish
        have hclosed := h.closed hsound hget (s.cancelled ++ [x.cancellation]) hacts honly
          (.silent hfailed hsilent) (fun hmem => absurd (hsilent _ hmem) nofun) nofun (by simp)
        exact hclosed.events ..

/-- The completion that is read was sent by the task of the entry. -/
theorem succeeded_of_sent (hsound : Sound s) {sessionId : SessionId} {x : ActiveExecution}
    {text : String} (hx : s.active.get? sessionId.text = some x)
    (hsent : .complete sessionId x.executionId (.ok text) ∈ s.events)
    (worker : ApplicationWorker D R H) :
    Succeeded { s with worker, active := s.active.erase sessionId.text } x.executionId := by
  obtain ⟨i,task,htask,-,hexecution,hresult⟩ := hsound.sent _ hsent
  refine ⟨i,task,text,htask,hexecution.symm,hresult _ _ _ rfl,fun hi => ?_,fun key y hy heq => ?_⟩
  · obtain ⟨own,hown,howner,-⟩ := hsound.entry _ x hx
    exact (hsound.flagged i hi).2 _ x hx (hsound.task_unique hown htask (howner.trans hexecution))
  · rw [BTreeMap.get?_erase] at hy
    split_ifs at hy with hkey
    obtain ⟨own,hown,howner,-⟩ := hsound.entry key y hy
    rw [heq] at hown
    cases hown.symm.trans htask
    exact hkey (hsound.entry_unique hy hx (howner.symm.trans hexecution.symm))

theorem Tells.finishPrompt (h : Tells s) (hsound : Sound s) {sessionId : SessionId}
    {executionId : String} {result : RunResult} {events : List ExecutionWorkerEvent}
    (hevents : s.events = .complete sessionId executionId result :: events)
    (hown : ∀ x, s.active.get? sessionId.text = some x → x.executionId = executionId)
    (hcan : ∀ text, result = .ok text → sessionId.text ∈ s.active.keys →
      CanComplete sessionId executionId s.worker) :
    Tells (finishPrompt setting { s with events } sessionId executionId result) := by
  unfold PromptLoop.finishPrompt
  cases hget : s.active.get? sessionId.text with
  | none => exact h.events ..
  | some x =>
    obtain rfl := hown x hget
    dsimp only
    split_ifs with hother hcancelled
    · exact absurd rfl hother
    · exact absurd rfl ((hsound.flagged _ hcancelled).2 _ x hget)
    cases result with
    | ok text =>
      have hkey : sessionId.text ∈ s.active.keys := by
        rw [BTreeMap.mem_keys_iff, hget]
        rfl
      obtain ⟨entries,hends⟩ :=
        endExecution_output setting sessionId x.executionId text s.worker
      have hdone : .execution x.executionId (.state .completed) ∈
          named entries sessionId x.executionId →
          (after (endExecution setting sessionId x.executionId (.ok text)) s.worker).Completed
            x.executionId ∧ true = true := by
        intro hmem
        exact ⟨hends.completed (List.ne_nil_of_mem (mem_named.mp hmem).1),rfl⟩
      have hclosed := h.closed hsound hget s.cancelled hends.acts hends.onlyNames
        (hends.closing (hcan text rfl hkey)) hdone
        (fun _ => succeeded_of_sent hsound hget (hevents ▸ List.mem_cons_self) _)
        fun i hi => .inl hi
      cases hend : endExecution setting sessionId x.executionId (.ok text) s.worker with
      | ok answer worker =>
        rw [after_ok hend] at hclosed
        exact hclosed.events ..
      | error error worker =>
        rw [after_error hend] at hclosed
        exact hclosed.events ..
    | error error =>
      obtain ⟨next,entries,hend,hends⟩ :=
        endExecution_error_endsIn setting sessionId x.executionId error s.worker
      have hclosed := h.closed hsound hget s.cancelled hends.acts hends.onlyNames
        (hends.closing trivial) (fun hmem => absurd hmem (hends.not_completed nofun)) nofun
        fun i hi => .inl hi
      rw [hend]
      exact hclosed.events ..

theorem Tells.serve (h : Tells s) (hsound : Sound s) (invocation : ApplicationInvocation R)
    (hstarts : ∀ request text, invocation = .prompt (.ok request) (.ok ()) →
      request.sessionId.text ∉ s.active.keys →
      modelInputFromContent request.content = .ok text →
      AllocationKnown setting request s.worker ∧ RunningAppended setting request s.worker) :
    Tells (serve setting { s with taken := s.taken + 1 } s.taken invocation) := by
  cases invocation with
  | prompt input tools =>
    cases input with
    | error error => exact h.events ..
    | ok request =>
      refine h.startPrompt setting (s.taken + 1) s.taken request tools fun text htools => ?_
      exact hstarts request text (by rw [htools])
  | cancel input => exact h.cancelPrompt setting hsound (s.taken + 1) s.taken input
  | createSession input =>
    exact h.answerWith _ _ input fun request => (aside_createSession setting request).map _
  | renameSession input =>
    exact h.answerWith _ _ input fun request => (aside_renameSession setting request).map _
  | closeSession input =>
    exact h.answerWith _ _ input fun request => (aside_closeSession setting request).map _
  | resumeSession input =>
    exact h.answerWith _ _ input fun request => (aside_resumeSession setting request).map _
  | recordReview sessionId review =>
    exact h.answerWith _ _ (.ok ()) fun _ => (aside_recordReview setting sessionId review).map _
  | other answer => exact h.answerWith _ _ answer fun _ => aside_of_silent (moves_pure _)

theorem Tells.supply (h : Tells s) (turn : Turn R) : Tells (s.supply turn) := by
  have hacts : Acts [] [] [] s.worker { s.worker with fates := turn.fates, looks := turn.looks } :=
    ⟨by simp,.refl _,by simp,by simp,by simp,id⟩
  exact h.calls hacts (by simp)

theorem Tells.external (h : Tells s) (invocation : Execution.Invocation) :
    Tells { s with worker := { s.worker with
      executions := s.worker.executions.step invocation } } := by
  have hacts : Acts [] [] [] s.worker { s.worker with
      executions := s.worker.executions.step invocation } :=
    ⟨by simp,ledgerKept_step s.worker.executions invocation,by simp,by simp,by simp,id⟩
  exact h.calls hacts (by simp)

end Steps

/-! ## Runs -/

theorem Tells.allocated {s : PromptLoop D R H} (h : Tells s) {n : ℕ} {id : String}
    (hroot : (n,id) ∈ s.roots) : id ∈ s.worker.allocated := by
  rw [← h.rooted]
  exact List.mem_map_of_mem hroot

section Started
variable {setting : ApplicationSetting D R} {request : PromptInput}
  {worker next : ApplicationWorker D R H} {executionId : String}

end Started

variable {s : PromptLoop Unit Unit Unit}

end PromptLoop

end PhenixConductor.Application
