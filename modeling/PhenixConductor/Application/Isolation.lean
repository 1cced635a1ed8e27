import PhenixConductor.Application.Entries

/-! # Prompts on a session

Whatever comes in between, a step keeps the entries and the tasks of the loop together.
-/
namespace PhenixConductor.Application
open Collections Contract Client ApplicationWorker

variable {D R H : Type}

namespace PromptLoop
variable (setting : ApplicationSetting D R)

/-! ## Steps -/

section Steps
variable {s : PromptLoop D R H}

theorem Aside.knows {before after : ApplicationWorker D R H} (h : Aside before after)
    (id : String) (hid : before.Knows id) : after.Knows id := by
  obtain ⟨entries,-,hacts⟩ := h.acts
  exact hacts.knows id hid

/-- An invocation that leaves the executions alone is answered at once. -/
theorem Sound.answerWith {α : Type} (h : Sound s) (input : Except ApplicationError α)
    {operation : α → WorkerM D R H (Reply R)} (haside : ∀ a, Moves Aside (operation a)) :
    Sound (answerWith { s with taken := s.taken + 1 } s.taken input operation) := by
  have hmoves : Moves Aside (check input >>= operation) := (moves_check input).bind haside
  unfold PromptLoop.answerWith
  cases hx : (check input >>= operation) s.worker with
  | ok reply worker => exact (h.worker (Aside.knows (hmoves.ok hx)) s.roots).take (.ok reply)
  | error error worker =>
    exact (h.worker (Aside.knows (hmoves.failsAlong _ _ _ hx)) s.roots).take (.error error)

theorem Sound.startPrompt (h : Sound s) (input : Except ApplicationError PromptInput)
    (tools : Except ApplicationError Unit) :
    Sound (startPrompt setting { s with taken := s.taken + 1 } s.taken input tools) := by
  unfold PromptLoop.startPrompt
  cases input with
  | error error => exact h.take _
  | ok request =>
    dsimp only
    split_ifs with hactive
    · exact h.take _
    have hfree := (BTreeMap.get?_eq_none _).mpr hactive
    cases hcontent : modelInputFromContent request.content with
    | error error => exact h.take _
    | ok text =>
      cases tools with
      | error error => exact h.take _
      | ok _ =>
        cases hstart : startExecution setting request s.worker with
        | ok executionId worker =>
          have hacts := startExecution_eq_ok hstart
          obtain ⟨hnew,hmade⟩ := hacts.fresh executionId (by simp)
          exact h.started hfree hacts.knows hnew hmade _
        | error error worker =>
          have hknows : ∀ id, s.worker.Knows id → worker.Knows id := by
            rcases startExecution_eq_error hstart with
              ⟨_,_,_,hfails⟩ | ⟨-,_,_,hfails⟩
            · exact hfails.acts.knows
            · exact hfails.acts.knows
          exact (h.worker hknows _).take _

theorem silent_cancel (request : SessionInput) :
    Moves Silent (cancel request : WorkerM D R H Unit) :=
  (silent_requireOpen request.sessionId).bind fun _ => moves_pure ()

theorem Sound.cancelPrompt (h : Sound s) (input : Except ApplicationError SessionInput) :
    Sound (cancelPrompt setting { s with taken := s.taken + 1 } s.taken input) := by
  unfold PromptLoop.cancelPrompt
  cases input with
  | error error => exact h.take _
  | ok request =>
    cases hcancel : cancel request s.worker with
    | error error worker =>
      have hsilent := (silent_cancel request).failsAlong _ _ _ hcancel
      simp only [hcancel]
      exact (h.worker hsilent.acts.knows s.roots).take _
    | ok _ worker =>
      have hsilent := (silent_cancel request).ok hcancel
      simp only [hcancel]
      cases hget : s.active.get? request.sessionId.text with
      | none => exact (h.worker hsilent.acts.knows s.roots).take _
      | some x =>
        obtain ⟨entries,hends⟩ := cancelExecution_endsIn setting request.sessionId x.executionId worker
        have hknows := (hsilent.acts.trans hends.acts).knows
        have hremoved := (h.worker hknows s.roots).removeCancelled hget
          (.ok (.prompt ⟨x.executionId,.cancelled⟩))
        exact hremoved.take (.ok .acknowledged)

theorem Sound.handleExecutionProgress (h : Sound s) (sessionId : SessionId) (executionId : String)
    (change : ToolChange) :
    Sound (handleExecutionProgress setting s sessionId executionId change) := by
  unfold PromptLoop.handleExecutionProgress
  cases hget : s.active.get? sessionId.text with
  | none => exact h
  | some x =>
    dsimp only
    split_ifs with hother
    · exact h
    cases happend : appendExecutionChange setting sessionId executionId change.change s.worker with
    | ok update worker =>
      have hacts := (appendExecutionChange_eq_ok happend).acts
      exact h.worker hacts.knows s.roots
    | error error worker =>
      have hknows : ∀ id, s.worker.Knows id →
          (after (finishRootExecution setting x.executionId false) worker).Knows id := by
        have hfinish := finishRootExecution_acts setting x.executionId false worker
        intro id hid
        rcases (appendExecutionChange_eq_error happend).wrote with hs | hw
        · exact hfinish.knows id (hs.acts.knows id hid)
        · exact hfinish.knows id (hw.acts.knows id hid)
      exact (h.worker hknows s.roots).removeCancelled hget _

/-- What the end of an execution does to the worker. -/
theorem endExecution_knows (sessionId : SessionId) (executionId : String) (result : RunResult)
    (worker : ApplicationWorker D R H) (id : String) (hid : worker.Knows id) :
    (after (endExecution setting sessionId executionId result) worker).Knows id := by
  cases result with
  | ok text =>
    obtain ⟨entries,hends⟩ := endExecution_output setting sessionId executionId text worker
    exact hends.acts.knows id hid
  | error error =>
    obtain ⟨next,entries,hend,hends⟩ :=
      endExecution_error_endsIn setting sessionId executionId error worker
    rw [after_error hend]
    exact hends.acts.knows id hid

variable {events : List ExecutionWorkerEvent}

/-- The event that a completion is taken from is gone when its entry is. -/
theorem Sound.finishPrompt (h : Sound s) {sessionId : SessionId} {executionId : String}
    {result : RunResult} (hevents : s.events = .complete sessionId executionId result :: events) :
    Sound (finishPrompt setting { s with events } sessionId executionId result) := by
  have hdrop : ∀ {t : PromptLoop D R H}, Sound t →
      t.events = .complete sessionId executionId result :: events →
      t.active.get? sessionId.text = none → Sound { t with events } := by
    intro t ht htevents hnone
    refine ht.dropEvent htevents fun sid eid r heq => ?_
    cases heq
    exact hnone
  unfold PromptLoop.finishPrompt
  cases hget : s.active.get? sessionId.text with
  | none => exact hdrop h hevents hget
  | some x =>
    dsimp only
    have hnone : (s.active.erase sessionId.text).get? sessionId.text = none := by
      rw [BTreeMap.get?_erase, if_pos rfl]
    split_ifs with hother hcancelled
    · exact hdrop (h.close hget _) hevents hnone
    · exact hdrop (h.close hget _) hevents hnone
    have hknows := endExecution_knows setting sessionId executionId result s.worker
    cases hend : endExecution setting sessionId executionId result s.worker with
    | ok answer worker =>
      rw [after_ok hend] at hknows
      exact hdrop ((h.worker hknows s.roots).close hget _) hevents hnone
    | error error worker =>
      rw [after_error hend] at hknows
      exact hdrop ((h.worker hknows s.roots).close hget _) hevents hnone

theorem Sound.serve (h : Sound s) (invocation : ApplicationInvocation R) :
    Sound (serve setting { s with taken := s.taken + 1 } s.taken invocation) := by
  cases invocation with
  | prompt input tools => exact h.startPrompt setting input tools
  | cancel input => exact h.cancelPrompt setting input
  | createSession input =>
    exact h.answerWith input fun request => (aside_createSession setting request).map _
  | renameSession input =>
    exact h.answerWith input fun request => (aside_renameSession setting request).map _
  | closeSession input =>
    exact h.answerWith input fun request => (aside_closeSession setting request).map _
  | resumeSession input =>
    exact h.answerWith input fun request => (aside_resumeSession setting request).map _
  | recordReview sessionId review =>
    exact h.answerWith (.ok ()) fun _ => (aside_recordReview setting sessionId review).map _
  | other answer => exact h.answerWith answer fun _ => aside_of_silent (moves_pure _)

theorem Sound.handleEvent (h : Sound s) {event : ExecutionWorkerEvent}
    (hevents : s.events = event :: events) :
    Sound (handleEvent setting { s with events } event) := by
  cases event with
  | progress sessionId executionId change =>
    have hdropped := h.dropEvent hevents fun sid eid r heq => by cases heq
    exact hdropped.handleExecutionProgress setting sessionId executionId change
  | complete sessionId executionId result => exact h.finishPrompt setting hevents

theorem Sound.external (h : Sound s) (invocation : Execution.Invocation) :
    Sound { s with worker := { s.worker with
      executions := s.worker.executions.step invocation } } := by
  have hknows : ∀ id, s.worker.Knows id → ApplicationWorker.Knows { s.worker with
      executions := s.worker.executions.step invocation } id :=
    (ledgerKept_step s.worker.executions invocation).known
  exact h.worker hknows s.roots

theorem Sound.act (h : Sound s) (action : Action R) : Sound (act setting s action) := by
  cases action with
  | invocation invocation =>
    simp only [PromptLoop.act]
    split_ifs
    · exact h
    · exact h.serve setting invocation
  | closeInput => exact { h with }
  | event =>
    simp only [PromptLoop.act]
    split_ifs
    · exact h
    cases hevents : s.events with
    | nil => exact h
    | cons event events => exact h.handleEvent setting hevents
  | report task change =>
    refine h.send task (fun _ => rfl) (fun _ => rfl) (fun _ _ _ _ heq => ?_) nofun
    cases heq
  | complete task result =>
    refine h.send task (fun _ => rfl) (fun _ => rfl) (fun _ _ _ _ heq => ?_) fun r hr _ => ?_
    · cases heq
      rfl
    · cases hr
      rfl
  | external invocation => exact h.external invocation

theorem Sound.supply (h : Sound s) (turn : Turn R) : Sound (s.supply turn) := by
  have hknows : ∀ id, s.worker.Knows id → ApplicationWorker.Knows { s.worker with
      fates := turn.fates, looks := turn.looks } id := fun _ hid => hid
  exact h.worker hknows s.roots

/-- A step, whatever it is, and whatever becomes of the calls that it makes. -/
theorem sound_step (s : PromptLoop D R H) (turn : Turn R) (h : Sound s) :
    Sound (s.step setting turn) :=
  (h.supply turn).act setting turn.action

end Steps

theorem sound_run (worker : ApplicationWorker D R H) (turns : List (Turn R)) :
    Sound ((start worker).run setting turns) :=
  runAll_invariant (sound_step setting) turns (sound_start worker)

/-! ## Events -/

/-- The loop reads an event in the step. -/
def Receives (s : PromptLoop D R H) (turn : Turn R) (event : ExecutionWorkerEvent) : Prop :=
  turn.action = .event ∧ s.active.keys ≠ [] ∧ s.events.head? = some event

/-- The entries of the other executions stay as they are, and their prompts are not answered. -/
def Untouched (s next : PromptLoop D R H) (executionId : String) : Prop :=
  ∀ key x, s.active.get? key = some x → x.executionId ≠ executionId →
    next.active.get? key = some x ∧ x.prompt ∉ next.answers.map (·.1)

/-- A completion that is read is that of the execution that is active in its session, if one
is. -/
def OwnCompletion (s : PromptLoop D R H) (turn : Turn R) : Prop :=
  ∀ sessionId executionId result, Receives s turn (.complete sessionId executionId result) →
    ∀ x, s.active.get? sessionId.text = some x → x.executionId = executionId

section Events
variable {setting : ApplicationSetting D R} {s : PromptLoop D R H} {turn : Turn R}
  {event : ExecutionWorkerEvent}

theorem Sound.unanswered (h : Sound s) {key : String} {x : ActiveExecution}
    (hx : s.active.get? key = some x) : x.prompt ∉ s.answers.map (·.1) := by
  have hnodup : (s.answers.map (·.1) ++ s.active.values.map (·.prompt)).Nodup :=
    h.answered.nodup_iff.mpr List.nodup_range
  intro hanswered
  have hactive : x.prompt ∈ s.active.values.map (·.prompt) :=
    List.mem_map_of_mem ((BTreeMap.mem_values _).mpr ⟨key,hx⟩)
  exact List.disjoint_of_nodup_append hnodup hanswered hactive

/-- An event is handled as it stands at the head of the queue. -/
theorem Receives.step_eq (setting : ApplicationSetting D R) (h : Receives s turn event) :
    ∃ events, s.events = event :: events ∧
      s.step setting turn = handleEvent setting { s.supply turn with events } event := by
  obtain ⟨haction,hactive,hhead⟩ := h
  obtain ⟨events,hevents⟩ := List.head?_eq_some_iff.mp hhead
  refine ⟨events,hevents,?_⟩
  have hsupplied : (s.supply turn).events = event :: events := hevents
  have hkeys : (s.supply turn).active.keys ≠ [] := hactive
  simp only [step, haction, act, if_neg hkeys, hsupplied]

/-- Progress takes out the entry of its own execution or none. -/
theorem handleExecutionProgress_active (setting : ApplicationSetting D R) (s : PromptLoop D R H)
    (sessionId : SessionId) (executionId : String) (change : ToolChange) :
    (handleExecutionProgress setting s sessionId executionId change).active = s.active ∨
      (handleExecutionProgress setting s sessionId executionId change).active =
        s.active.erase sessionId.text ∧
      ∃ x, s.active.get? sessionId.text = some x ∧ x.executionId = executionId := by
  unfold PromptLoop.handleExecutionProgress
  cases hget : s.active.get? sessionId.text with
  | none => exact .inl rfl
  | some x =>
    dsimp only
    split_ifs with hother
    · exact .inl rfl
    cases appendExecutionChange setting sessionId executionId change.change s.worker with
    | ok update worker => exact .inl rfl
    | error error worker => exact .inr ⟨rfl,x,rfl,not_not.mp hother⟩

/-- A completion takes out the entry of its session, whichever execution it has. -/
theorem finishPrompt_active (setting : ApplicationSetting D R) (s : PromptLoop D R H)
    (sessionId : SessionId) (executionId : String) (result : RunResult) :
    (finishPrompt setting s sessionId executionId result).active =
      s.active.erase sessionId.text := by
  unfold PromptLoop.finishPrompt
  cases hget : s.active.get? sessionId.text with
  | none =>
    ext1 key
    rw [BTreeMap.get?_erase]
    split_ifs with hkey
    · rw [hkey]
      exact hget
    · rfl
  | some x =>
    dsimp only
    split_ifs
    · rfl
    · rfl
    · cases endExecution setting sessionId executionId result s.worker <;> rfl

/-- An entry that is not the one of the session outlives an event, and so does every entry if
the event takes none out. -/
theorem untouched_of_active (h : Sound s) (sessionId : SessionId) {executionId : String}
    (hactive : (s.step setting turn).active = s.active ∨
      (s.step setting turn).active = s.active.erase sessionId.text ∧
        ∀ x, s.active.get? sessionId.text = some x → x.executionId = executionId) :
    Untouched s (s.step setting turn) executionId := by
  intro key x hx hother
  have hkept : (s.step setting turn).active.get? key = some x := by
    rcases hactive with hsame | ⟨herased,hown⟩
    · rw [hsame]
      exact hx
    · rw [herased, BTreeMap.get?_erase, if_neg]
      · exact hx
      · rintro rfl
        exact hother (hown x hx)
  exact ⟨hkept,(sound_step setting s turn h).unanswered hkept⟩

/-- What a step that reads an event does to the other executions. -/
theorem untouched_iff (h : Sound s) :
    (∀ event, Receives s turn event → Untouched s (s.step setting turn) event.executionId) ↔
      OwnCompletion s turn := by
  constructor
  · intro huntouched sessionId executionId result hreceives x hx
    by_contra hother
    obtain ⟨events,-,hstep⟩ := hreceives.step_eq setting
    have hkept := (huntouched _ hreceives sessionId.text x hx hother).1
    rw [hstep] at hkept
    change (finishPrompt setting _ sessionId executionId result).active.get? _ = _ at hkept
    rw [finishPrompt_active, BTreeMap.get?_erase, if_pos rfl] at hkept
    cases hkept
  · intro hown event hreceives
    obtain ⟨events,-,hstep⟩ := hreceives.step_eq setting
    cases event with
    | progress sessionId executionId change =>
      refine untouched_of_active h sessionId ?_
      rw [hstep]
      refine (handleExecutionProgress_active setting _ sessionId executionId change).imp id ?_
      rintro ⟨herased,x,hx,hid⟩
      refine ⟨herased,fun y hy => ?_⟩
      cases hx.symm.trans hy
      exact hid
    | complete sessionId executionId result =>
      refine untouched_of_active h sessionId (.inr ⟨?_,hown sessionId executionId result hreceives⟩)
      rw [hstep]
      exact finishPrompt_active setting _ sessionId executionId result

end Events

/-! ## Runs -/

/-- The prompts of a run are isolated. -/
structure PromptsIsolated (setting : ApplicationSetting D R) (worker : ApplicationWorker D R H)
    (turns : List (Turn R)) : Prop where
  answered : ((start worker).run setting turns).Drained →
    ∀ n < ((start worker).run setting turns).taken,
      (((start worker).run setting turns).answers.map (·.1)).count n = 1
  isolated : Along (step setting)
    (fun s turn => ∀ event, Receives s turn event →
      Untouched s (s.step setting turn) event.executionId) (start worker) turns
  single : ∀ key key' x x' task task',
    ((start worker).run setting turns).active.get? key = some x →
    ((start worker).run setting turns).active.get? key' = some x' →
    ((start worker).run setting turns).tasks[x.cancellation]? = some task →
    ((start worker).run setting turns).tasks[x'.cancellation]? = some task' →
      task.sessionId = task'.sessionId → x = x'
  owed : ∀ key x task, ((start worker).run setting turns).active.get? key = some x →
    ((start worker).run setting turns).tasks[x.cancellation]? = some task →
      task.result = none ∨ ∃ result, .complete task.sessionId task.executionId result ∈
        ((start worker).run setting turns).events

section Run
variable {s : PromptLoop D R H}

theorem Sound.count_answers (h : Sound s) (hdrained : s.Drained) (n : ℕ) (hn : n < s.taken) :
    (s.answers.map (·.1)).count n = 1 := by
  have hempty : s.active.values = [] := by
    simp [BTreeMap.values, hdrained.2]
  have hperm := h.answered
  rw [hempty, List.map_nil, List.append_nil] at hperm
  rw [hperm.count_eq]
  exact List.count_eq_one_of_mem List.nodup_range (List.mem_range.mpr hn)

theorem Sound.single (h : Sound s) {key key' : String} {x x' : ActiveExecution}
    {task task' : AgentTask} (hx : s.active.get? key = some x)
    (hx' : s.active.get? key' = some x') (htask : s.tasks[x.cancellation]? = some task)
    (htask' : s.tasks[x'.cancellation]? = some task')
    (hsession : task.sessionId = task'.sessionId) : x = x' := by
  obtain ⟨found,hfound,-,hkey⟩ := h.entry key x hx
  obtain ⟨found',hfound',-,hkey'⟩ := h.entry key' x' hx'
  cases hfound.symm.trans htask
  cases hfound'.symm.trans htask'
  have hkeys : key = key' := by rw [← hkey, ← hkey', hsession]
  subst hkeys
  exact Option.some.inj (hx.symm.trans hx')

end Run

/-- Prompts are isolated exactly along the runs in which no completion is read while another
execution is active in its session. -/
theorem prompts_isolated_iff (setting : ApplicationSetting D R) (worker : ApplicationWorker D R H)
    (turns : List (Turn R)) :
    PromptsIsolated setting worker turns ↔ Along (step setting) OwnCompletion (start worker) turns := by
  have hsound := sound_run setting worker turns
  have hsteps : Along (step setting) (fun s turn => ∀ event, Receives s turn event →
      Untouched s (s.step setting turn) event.executionId) (start worker) turns ↔
      Along (step setting) OwnCompletion (start worker) turns := by
    rw [along_iff, along_iff]
    have hbefore (before : List (Turn R)) : Sound (runAll (step setting) (start worker) before) :=
      sound_run setting worker before
    exact forall_congr' fun before => forall_congr' fun turn => imp_congr_right fun _ =>
      untouched_iff (hbefore before)
  constructor
  · exact fun h => hsteps.mp h.isolated
  · intro h
    exact {
      answered := hsound.count_answers
      isolated := hsteps.mpr h
      single := fun key key' x x' task task' hx hx' => hsound.single hx hx'
      owed := fun key x task hx htask => hsound.pending key x hx task htask }

/-! ## A late completion -/

/-- The projection written as the list of its sequence numbers. -/
def guideSetting : ApplicationSetting Unit Unit where
  toValue state := .list (state.sessions.values.map fun projection =>
    .u64 (UInt64.ofNat projection.throughSequence.val))
  schema := .list .u64
  context := ⟨.new [],some ⟨"graph-1"⟩,fun _ _ _ => .error "no service"⟩

def guideWorker : ApplicationWorker Unit Unit Unit :=
  (new guideSetting .empty .empty).toOption.get (by decide +kernel)

theorem new_guideWorker : new guideSetting .empty .empty = .ok guideWorker := by
  have hsome : (new guideSetting .empty .empty).toOption = some guideWorker :=
    (Option.some_get _).symm
  cases h : (new guideSetting .empty .empty :
      Except _ (ApplicationWorker Unit Unit Unit)) with
  | ok worker =>
    rw [h] at hsome
    rw [Option.some.inj hsome]
  | error failure =>
    rw [h] at hsome
    cases hsome

theorem guideSession_valid : validateText IdentifierKind.session.noun "session-1" = .ok () := by
  decide +kernel

def guideSession : SessionId := ⟨"session-1",guideSession_valid⟩

def guideTurn (action : Action Unit) : Turn Unit := ⟨action,[],[]⟩

/-- A prompt is cancelled and the next one has started when the first run ends. -/
def lateTurns : List (Turn Unit) :=
  [guideTurn (.invocation (.createSession (.ok ⟨"/work",none⟩))),
    guideTurn (.invocation (.prompt (.ok ⟨guideSession,[.text "one"]⟩) (.ok ()))),
    guideTurn (.invocation (.cancel (.ok ⟨guideSession⟩))),
    guideTurn (.invocation (.prompt (.ok ⟨guideSession,[.text "two"]⟩) (.ok ()))),
    guideTurn (.complete 0 (.ok "late"))]

/-- The completion of the cancelled execution removes the entry of the one that runs. -/
theorem late_completion_removes :
    new guideSetting .empty .empty = .ok guideWorker ∧
      ¬PromptsIsolated guideSetting guideWorker (lateTurns ++ [guideTurn .event]) := by
  refine ⟨new_guideWorker,fun h => ?_⟩
  have hlast := along_iff.mp h.isolated lateTurns (guideTurn .event) List.prefix_rfl
  have hhead : ((runAll (step guideSetting) (start guideWorker) lateTurns).events.head?.map
      (·.executionId)) = some "execution-1" := by decide +kernel
  have hactive : (runAll (step guideSetting) (start guideWorker) lateTurns).active.get? "session-1" =
      some ⟨"execution-2",1,3⟩ := by decide +kernel
  have hgone : (step guideSetting (runAll (step guideSetting) (start guideWorker) lateTurns)
      (guideTurn .event)).active.get? "session-1" = none := by decide +kernel
  obtain ⟨event,hevent,hid⟩ := Option.map_eq_some_iff.mp hhead
  have hreceives : Receives (runAll (step guideSetting) (start guideWorker) lateTurns)
      (guideTurn .event) event := ⟨rfl,by decide +kernel,hevent⟩
  obtain ⟨hkept,-⟩ := hlast event hreceives "session-1" _ hactive (by rw [hid]; decide)
  rw [hgone] at hkept
  cases hkept

end PromptLoop

end PhenixConductor.Application
