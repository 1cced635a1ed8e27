import PhenixConductor.Application.Isolation
import PhenixConductor.Application.Synchrony

/-! # The projection follows the journals

After every operation the projections that are held are parts of the journals, and after one
that has succeeded on a session the projection of this session is up to date.
-/
namespace PhenixConductor.Application
open Collections Contract Client

variable {α β D R H : Type}

/-! ## Operations that keep the projection in step -/

/-- The journals are numbered, the projections are parts of them, and the registered value is
that of the reducer. -/
structure Follows (setting : ApplicationSetting D R) (worker : ApplicationWorker D R H) : Prop where
  numbered : Numbered worker.sessions
  held : Held worker.sessions worker.projection.reducer
  agrees : Agrees setting.toValue worker.projection

/-- The journals and the projections are left as they are. -/
def SameJournals (before after : ApplicationWorker D R H) : Prop :=
  after.sessions = before.sessions ∧ after.projection = before.projection

instance reflSameJournals : Std.Refl (SameJournals (D := D) (R := R) (H := H)) :=
  ⟨fun _ => ⟨rfl,rfl⟩⟩

instance transSameJournals : IsTrans (ApplicationWorker D R H) SameJournals :=
  ⟨fun _ _ _ h h' => ⟨h'.1.trans h.1,h'.2.trans h.2⟩⟩

theorem Reads.sameJournals {a b : ApplicationWorker D R H} (h : Reads a b) : SameJournals a b := by
  rw [h]
  exact ⟨rfl,rfl⟩

theorem sameJournals_of_reads {x : WorkerM D R H α} (h : Moves Reads x) : Moves SameJournals x :=
  fun worker => (h worker).sameJournals

variable {setting : ApplicationSetting D R}

theorem Follows.same {a b : ApplicationWorker D R H} (h : Follows setting a)
    (hsame : SameJournals a b) : Follows setting b := by
  obtain ⟨hsessions,hprojection⟩ := hsame
  exact ⟨hsessions ▸ h.numbered,hsessions ▸ hprojection ▸ h.held,hprojection ▸ h.agrees⟩

/-- The projection of the session is up to date. -/
def ApplicationWorker.Level (worker : ApplicationWorker D R H) (id : SessionId) : Prop :=
  UpToDate worker.sessions worker.projection.reducer id

theorem level_of_same {a b : ApplicationWorker D R H} {id : SessionId} (h : a.Level id)
    (hsame : SameJournals a b) : b.Level id := by
  unfold ApplicationWorker.Level
  rw [hsame.1, hsame.2]
  exact h

/-- The operation keeps the projections in step, and if it succeeds it leaves the one of its
session up to date. -/
structure Settles (setting : ApplicationSetting D R) (session : α → SessionId)
    (x : WorkerM D R H α) (worker : ApplicationWorker D R H) : Prop where
  follows : Follows setting (after x worker)
  level : ∀ a next, x worker = .ok a next → next.Level (session a)

section Settles
variable {setting : ApplicationSetting D R} {session : α → SessionId} {x : WorkerM D R H α}
  {worker : ApplicationWorker D R H}

theorem settles_throw (error : ApplicationError) (h : Follows setting worker) :
    Settles setting session (throw error) worker := ⟨h,nofun⟩

theorem Settles.bind {y : WorkerM D R H β} {f : β → WorkerM D R H α}
    (hy : Follows setting (after y worker))
    (hf : ∀ b next, y worker = .ok b next → Follows setting next →
      Settles setting session (f b) next) : Settles setting session (y >>= f) worker where
  follows := after_bind_invariant hy fun b next hok hnext => (hf b next hok hnext).follows
  level a next hok := by
    obtain ⟨b,reached,hb,hok⟩ := stateful_bind_eq_ok.mp hok
    rw [after_ok hb] at hy
    exact (hf b reached hb hy).level a next hok

/-- A part that leaves the journals and projections alone. -/
theorem Settles.after_same {y : WorkerM D R H β} {f : β → WorkerM D R H α}
    (h : Follows setting worker) (hy : Moves SameJournals y)
    (hf : ∀ b next, y worker = .ok b next → Follows setting next →
      Settles setting session (f b) next) : Settles setting session (y >>= f) worker :=
  .bind (h.same (hy worker)) hf

/-- What follows leaves the journals and projections alone. -/
theorem Settles.then_same {session' : β → SessionId} {f : α → WorkerM D R H β}
    (hx : Settles setting session x worker) (hf : ∀ a, Moves SameJournals (f a))
    (hsession : ∀ a s b t, x worker = .ok a s → f a s = .ok b t → session' b = session a) :
    Settles setting session' (x >>= f) worker where
  follows := after_bind_invariant hx.follows fun a next _ hnext => hnext.same (hf a next)
  level b next hok := by
    obtain ⟨a,reached,ha,hb⟩ := stateful_bind_eq_ok.mp hok
    rw [hsession a reached b next ha hb]
    exact level_of_same (hx.level a reached ha) ((hf a).ok hb)

theorem Settles.noted (hx : Settles setting session x worker) :
    Settles setting session (noted x) worker where
  follows := by
    have hfollows := hx.follows
    unfold after at hfollows ⊢
    unfold Application.noted
    cases h : x worker with
    | ok a next =>
      rw [h] at hfollows
      exact hfollows
    | error error next =>
      rw [h] at hfollows
      exact hfollows.same ⟨rfl,rfl⟩
  level a next hok := hx.level a next (noted_eq_ok hok)

/-- A clean-up that leaves the journals and projections alone, and then fails. -/
theorem Settles.orCleanUp {handler : ApplicationError → WorkerM D R H α}
    (hx : Settles setting session x worker) (hhandler : ∀ error, Moves SameJournals (handler error))
    (hfails : ∀ error s a t, handler error s ≠ .ok a t) :
    Settles setting session (tryCatch x handler) worker := by
  have hfollows := hx.follows
  cases h : x worker with
  | ok a next =>
    rw [after_ok h] at hfollows
    refine ⟨after_ok (tryCatch_of_ok h) ▸ hfollows,fun b reached hok => ?_⟩
    cases (tryCatch_of_ok h).symm.trans hok
    exact hx.level a next h
  | error error next =>
    rw [after_error h] at hfollows
    have hcatch : tryCatch x handler worker = handler error next := tryCatch_of_error h
    refine ⟨?_,fun b reached hok => (hfails _ _ _ _ (hcatch.symm.trans hok)).elim⟩
    have hsame := hhandler error next
    unfold after at hsame ⊢
    rw [hcatch]
    exact hfollows.same hsame

end Settles

/-! ## Calls of the session service -/

section Calls
variable {setting : ApplicationSetting D R} {worker next : ApplicationWorker D R H}
  {command : SessionCommand (SessionChange D R)} {response : SessionResponse (SessionChange D R)}
  {entries : List (SessionId × SessionChange D R)}

theorem Follows.grows (h : Follows setting worker) (hgrows : Grows worker.sessions next.sessions)
    (hprojection : next.projection = worker.projection) : Follows setting next where
  numbered := h.numbered.step hgrows
  held := hprojection ▸ h.held.grows hgrows
  agrees := hprojection ▸ h.agrees

theorem follows_invokeSession (h : Follows setting worker) (hwrites : Writes command entries) :
    Follows setting (after (invokeSession command) worker) := by
  cases hinvoke : invokeSession command worker with
  | ok response next =>
    rw [after_ok hinvoke]
    have hinvoked := invokeSession_eq_ok hinvoke
    exact h.grows (h.numbered.grows hinvoked.effect hwrites) (by rw [hinvoked.rest])
  | error error next =>
    rw [after_error hinvoke]
    obtain ⟨hrest,hsame | ⟨response,heffect⟩⟩ := invokeSession_eq_error hinvoke
    · exact h.same ⟨hsame,by rw [hrest]⟩
    · exact h.grows (h.numbered.grows heffect hwrites) (by rw [hrest])

end Calls

/-- The entry that a command has appended. -/
theorem last_of_append {store next : SessionStore (SessionChange D R)} {id : SessionId}
    {change : SessionChange D R} {entry : SessionJournalEntry (SessionChange D R)}
    (h : SessionEffect store (.appendJournal id (sessionChangeJournal change)) next
      (.journalAppended entry)) : (next.entries id).getLast? = some entry := by
  cases h with
  | appendJournal found appended =>
    rw [sessionChangeJournal, entries_putJournal, if_pos rfl, List.getLast?_concat]

theorem last_of_transition {store next : SessionStore (SessionChange D R)} {id : SessionId}
    {transition : SessionTransition} {change : SessionChange D R} {session : SessionRecord}
    {entry : SessionJournalEntry (SessionChange D R)}
    (h : SessionEffect store (.transition id transition (sessionChangeJournal change)) next
      (.transitioned session entry)) :
    session.id = id ∧ (next.entries id).getLast? = some entry := by
  cases h with
  | transition found isOpen named directory appended =>
    refine ⟨named,?_⟩
    rw [sessionChangeJournal, entries_putJournal, if_pos rfl, List.getLast?_concat]

/-! ## Calls of the projection -/

section Project
variable {setting : ApplicationSetting D R} {worker : ApplicationWorker D R H}

theorem after_project (x : ProjectionM D R H Unit) (worker : ApplicationWorker D R H) :
    after (project x) worker = { worker with projection := after x worker.projection } := by
  unfold after project
  cases x worker.projection <;> rfl

theorem project_eq_ok {x : ProjectionM D R H Unit} {next : ApplicationWorker D R H}
    (h : project x worker = .ok () next) : ∃ projection, x worker.projection = .ok () projection ∧
      next = { worker with projection } := by
  unfold project at h
  cases hx : x worker.projection with
  | ok _ projection =>
    rw [hx] at h
    cases h
    exact ⟨projection,rfl,rfl⟩
  | error failure projection =>
    rw [hx] at h
    cases h

/-- A commit of a change that keeps the projections in step. -/
theorem settles_commit (h : Follows setting worker) (id : SessionId)
    {mutate : SessionProjectionState D R →
      Except SessionProjectionError (SessionProjectionState D R)}
    (hmutate : ∀ reducer, mutate worker.projection.reducer = .ok reducer →
      Held worker.sessions reducer ∧ UpToDate worker.sessions reducer id) :
    Settles setting (fun _ => id) (project (commit setting.toValue mutate)) worker where
  follows := by
    rw [after_project]
    refine ⟨h.numbered,?_,agrees_commit h.agrees mutate⟩
    rcases reducer_commit h.agrees mutate with hsame | hnext
    · exact hsame ▸ h.held
    · exact (hmutate _ hnext).1
  level _ next hok := by
    obtain ⟨projection,hcommit,rfl⟩ := project_eq_ok hok
    exact (hmutate _ (commit_eq_ok hcommit)).2

theorem settles_replaceSnapshot (h : Follows setting worker) {id : SessionId}
    {snapshot : SessionSnapshot D R} (hwhole : Whole worker.sessions id snapshot) :
    Settles setting (fun _ => id) (project (replaceSnapshot setting.toValue snapshot)) worker := by
  refine settles_commit h id fun reducer hreducer => ?_
  cases hreducer
  exact ⟨h.held.replaceSnapshot hwhole,upToDate_replaceSnapshot hwhole⟩

/-- A snapshot that covers the update makes the repair a replacement. -/
theorem repair_covered {toValue : SessionProjectionState D R → PhenixValue}
    {snapshot : SessionSnapshot D R} {update : SessionUpdate D R}
    (hsession : update.sessionId = snapshot.session.sessionId)
    (hold : update.sequence ≤ snapshot.throughSequence) :
    (repairWithSnapshot toValue snapshot [update] : ProjectionM D R H Unit) =
      replaceSnapshot toValue snapshot := by
  funext held
  rw [repairWithSnapshot_eq (.covered hsession hold (.nil _)), stateful_bind]
  cases replaceSnapshot toValue snapshot held <;> rfl

/-- The last entry of a journal is projected. -/
theorem settles_projectJournalEntry (h : Follows setting worker) {info : SessionInfo}
    {entry : SessionJournalEntry (SessionChange D R)}
    (hlast : (worker.sessions.entries info.sessionId).getLast? = some entry) :
    Settles setting (fun _ => info.sessionId) (projectJournalEntry setting info entry) worker := by
  have hlength : entry.sequence.val = (worker.sessions.entries info.sessionId).length := by
    have hnumber := h.numbered.last info.sessionId
    rw [hlast] at hnumber
    exact hnumber
  have hmem : entry ∈ worker.sessions.entries info.sessionId := List.mem_of_getLast? hlast
  refine .after_same h (moves_check _) fun update reached hcheck _ => ?_
  obtain ⟨hupdate,hsame⟩ := check_eq_ok.mp hcheck
  rw [hsame]
  unfold sessionUpdateFromJournal at hupdate
  split_ifs at hupdate
  cases hupdate
  refine .after_same h moves_get fun found reached hget _ => ?_
  cases hget
  have hemit : ∀ update : SessionUpdate D R, Moves SameJournals (do
      emitSessionUpdate update
      return update : WorkerM D R H (SessionUpdate D R)) := fun update =>
    (sameJournals_of_reads (reads_emit update)).bind fun _ => moves_pure _
  dsimp only
  split_ifs
  · refine (settles_commit h info.sessionId fun reducer hreducer => ?_).then_same
      (fun _ => hemit _) fun _ _ _ _ _ _ => rfl
    have hupdate : (⟨info.sessionId,entry.sequence,entry.payload⟩ : SessionUpdate D R) ∈
        worker.sessions.updates info.sessionId := List.mem_map_of_mem hmem
    refine ⟨h.held.applyUpdate h.numbered hupdate hreducer,?_⟩
    obtain ⟨projection,-,-,rfl⟩ := applyUpdate_eq_ok hreducer
    exact ⟨_,by rw [get?_put, if_pos rfl],hlength⟩
  · refine .after_same h (sameJournals_of_reads (reads_loadSessionSnapshot _))
      fun snapshot reached hload hreached => ?_
    have hwhole := loadSessionSnapshot_eq_ok h.numbered hload
    have hread := (reads_loadSessionSnapshot _).ok hload
    have hold : entry.sequence ≤ snapshot.throughSequence := by
      rw [Fin.le_def, hwhole.through, hlength]
    rw [repair_covered hwhole.session.symm hold]
    have hsessions : reached.sessions = worker.sessions := hread.sameJournals.1
    refine (settles_replaceSnapshot hreached (hsessions ▸ hwhole)).then_same
      (fun _ => hemit _) fun _ _ _ _ _ _ => rfl

end Project

/-! ## Operations -/

section Operations
variable {setting : ApplicationSetting D R} {worker : ApplicationWorker D R H}

theorem applicationSessionInfo_eq_ok {session : SessionRecord} {info : SessionInfo}
    (h : applicationSessionInfo session = .ok info) : info.sessionId = session.id := by
  unfold applicationSessionInfo at h
  cases hdirectory : session.workingDirectory with
  | none => simp [hdirectory] at h
  | some directory =>
    simp only [hdirectory, Except.ok.injEq] at h
    rw [← h]

section
variable (h : Follows setting worker)
include h

theorem settles_appendSessionChange (session : SessionRecord)
    (change : SessionChange D R) :
    Settles setting (fun _ => session.id) (appendSessionChange setting session change) worker := by
  refine Settles.noted (.after_same h (sameJournals_of_reads reads_reserve) fun _ reached _ hreached => ?_)
  refine .bind (follows_invokeSession hreached (.appendJournal session.id change))
    fun response invoked hinvoke hinvoked => ?_
  have heffect := (invokeSession_eq_ok hinvoke).effect
  cases response with
  | journalAppended entry =>
    have hlast := last_of_append heffect
    refine .after_same hinvoked (moves_check _) fun info checked hcheck _ => ?_
    obtain ⟨hinfo,hsame⟩ := check_eq_ok.mp hcheck
    rw [hsame]
    have hid := applicationSessionInfo_eq_ok hinfo
    rw [← hid] at hlast ⊢
    exact settles_projectJournalEntry hinvoked hlast
  | created | session | transitioned | journal => exact settles_throw _ hinvoked

/-- An operation that first looks for the open session. -/
theorem Settles.requireOpen {id : SessionId} {f : SessionRecord → WorkerM D R H α}
    (hf : ∀ session next, session.id = id → Follows setting next →
      Settles setting (fun _ => id) (f session) next) :
    Settles setting (fun _ => id) (requireOpenApplicationSession id >>= f) worker :=
  .after_same h (sameJournals_of_reads (reads_requireOpen id)) fun session next hopen hnext =>
    hf session next (requireOpen_id hopen) hnext

theorem settles_appendExecutionChange (sessionId : SessionId)
    (executionId : String) (change : ExecutionChange) :
    Settles setting (fun _ => sessionId)
      (appendExecutionChange setting sessionId executionId change) worker := by
  refine Settles.noted (.requireOpen h fun session next hid hnext => ?_)
  exact hid ▸ settles_appendSessionChange hnext session _

theorem settles_recordReview (sessionId : SessionId) (review : R) :
    Settles setting (fun _ => sessionId) (recordReview setting sessionId review) worker := by
  refine .requireOpen h fun session next hid hnext => ?_
  exact (hid ▸ settles_appendSessionChange hnext session _).then_same (fun _ => moves_pure review)
    fun _ _ _ _ _ _ => rfl

theorem settles_createSession (request : SessionCreateInput) :
    Settles setting (·.sessionId) (createSessionOp setting request) worker := by
  refine .after_same h (sameJournals_of_reads reads_allocateSessionId) fun id reached _ hreached => ?_
  refine .bind (follows_invokeSession hreached (.create _)) fun response invoked hinvoke hinvoked => ?_
  have heffect := (invokeSession_eq_ok hinvoke).effect
  cases response with
  | created session =>
    refine .after_same hinvoked (moves_check _) fun info checked hcheck _ => ?_
    obtain ⟨hinfo,hsame⟩ := check_eq_ok.mp hcheck
    rw [hsame]
    have hid := applicationSessionInfo_eq_ok hinfo
    have hempty : invoked.sessions.entries info.sessionId = [] := by
      rw [hid]
      generalize invoked.sessions = sessions at heffect
      cases heffect with
      | create isOpen fresh => exact hreached.numbered.unknown _ fresh
    refine (settles_commit hinvoked info.sessionId fun reducer hreducer => ?_).then_same
      (fun _ => moves_pure info) fun _ _ _ _ _ hpure => ?_
    · cases hreducer
      refine ⟨hinvoked.held.insertCreated info,⟨info,0,[]⟩,?_,?_⟩
      · rw [SessionProjectionState.insertCreated, get?_put, if_pos rfl]
      · rw [hempty]
        rfl
    · cases hpure
      rfl
  | journalAppended | session | transitioned | journal => exact settles_throw _ hinvoked

/-- A transition of an open session. -/
theorem settles_transition (id : SessionId)
    (transition : SessionTransition) (change : SessionChange D R) (operation : String)
    (answer : SessionInfo → α) :
    Settles setting (fun _ => id) (do
      let _ ← requireOpenApplicationSession id
      reserveSessionEventSlot
      match ← invokeSession (.transition id transition (sessionChangeJournal change)) with
      | .transitioned session journal =>
        let info ← check (applicationSessionInfo session)
        let _ ← projectJournalEntry setting info journal
        return answer info
      | _ => throw (unexpectedSessionResponse operation) : WorkerM D R H α) worker := by
  refine .requireOpen h fun _ opened _ hopened => ?_
  refine .after_same hopened (sameJournals_of_reads reads_reserve) fun _ reached _ hreached => ?_
  refine .bind (follows_invokeSession hreached (.transition id transition change))
    fun response invoked hinvoke hinvoked => ?_
  have heffect := (invokeSession_eq_ok hinvoke).effect
  cases response with
  | transitioned session journal =>
    obtain ⟨hname,hlast⟩ := last_of_transition heffect
    refine .after_same hinvoked (moves_check _) fun info checked hcheck _ => ?_
    obtain ⟨hinfo,hsame⟩ := check_eq_ok.mp hcheck
    rw [hsame]
    have hid := (applicationSessionInfo_eq_ok hinfo).trans hname
    rw [← hid] at hlast ⊢
    exact (settles_projectJournalEntry hinvoked hlast).then_same (fun _ => moves_pure _)
      fun _ _ _ _ _ _ => rfl
  | created | session | journalAppended | journal => exact settles_throw _ hinvoked

theorem settles_renameSession (request : SessionRenameInput) :
    Settles setting (fun _ => request.sessionId) (renameSession setting request) worker :=
  settles_transition h request.sessionId (.rename request.title) (.renamed request.title) "rename" id

theorem settles_closeSession (request : SessionInput) :
    Settles setting (fun _ => request.sessionId) (closeSession setting request) worker :=
  settles_transition h request.sessionId .close .closed "close" fun _ => ()

/-- A resumption without a watermark replaces the projection. -/
theorem settles_resumeSession (id : SessionId) :
    Settles setting (fun _ => id) (resumeSession setting ⟨id,none⟩) worker := by
  refine .after_same h (sameJournals_of_reads (reads_loadSessionSnapshot _))
    fun snapshot reached hload hreached => ?_
  have hwhole := loadSessionSnapshot_eq_ok h.numbered hload
  have hsessions : reached.sessions = worker.sessions :=
    ((reads_loadSessionSnapshot _).ok hload).sameJournals.1
  exact (settles_replaceSnapshot hreached (hsessions ▸ hwhole)).then_same
    (fun _ => moves_pure snapshot) fun _ _ _ _ _ _ => rfl

end

theorem sameJournals_invokeExecution (command : Execution.ExecutionCommand) :
    Moves SameJournals (invokeExecution setting command : WorkerM D R H _) := by
  intro worker
  refine (after_check _ _).symm ▸ ?_
  exact ⟨rfl,rfl⟩

theorem sameJournals_finishRootExecution (executionId : String) (success : Bool) :
    Moves SameJournals (finishRootExecution setting executionId success : WorkerM D R H Unit) := by
  refine (sameJournals_invokeExecution _).bind fun response => ?_
  cases response <;> first | exact moves_pure _ | exact moves_throw _

/-- A clean-up finishes the execution and passes the error on. -/
theorem sameJournals_cleanUp (executionId : String) (error : ApplicationError) :
    Moves SameJournals (do
      ignored (finishRootExecution setting executionId false)
      throw error : WorkerM D R H α) := by
  have hfinish : Moves SameJournals (ignored (finishRootExecution setting executionId false :
      WorkerM D R H Unit)) := fun worker => sameJournals_finishRootExecution executionId false worker
  exact hfinish.bind fun _ => moves_throw error

theorem sameJournals_allocateRootExecution :
    Moves SameJournals (allocateRootExecution setting : WorkerM D R H String) := by
  have hbudget : Moves SameJournals (registerRootBudget : WorkerM D R H Unit) := by
    intro worker
    refine (after_check _ _).symm ▸ ?_
    exact ⟨rfl,rfl⟩
  refine (sameJournals_invokeExecution _).bind fun response => ?_
  cases response with
  | execution execution =>
    exact (hbudget.tryCatch fun error => sameJournals_cleanUp _ error).bind fun _ => moves_pure _
  | _ => exact moves_throw _

theorem settles_prompt (h : Follows setting worker) (request : PromptInput) :
    Settles setting (fun _ => request.sessionId) (prompt setting request) worker := by
  refine .requireOpen h fun session opened hid hopened => ?_
  refine .after_same hopened sameJournals_allocateRootExecution
    fun executionId allocated _ hallocated => ?_
  have happend := settles_appendSessionChange hallocated session (.message ⟨.user,request.content⟩)
  rw [hid] at happend
  refine (happend.orCleanUp (sameJournals_cleanUp executionId) fun error s update t hok => ?_).then_same
    (fun _ => moves_pure _) fun _ _ _ _ _ _ => rfl
  rw [finish_and_throw] at hok
  cases hok

end Operations

/-! ## Runs -/

inductive WorkerOperation (D R : Type)
  | createSession (request : SessionCreateInput)
  | renameSession (request : SessionRenameInput)
  | closeSession (request : SessionInput)
  | resumeSession (request : SessionResumeInput)
  | prompt (request : PromptInput)
  | appendSessionChange (session : SessionRecord) (change : SessionChange D R)
  | appendExecutionChange (sessionId : SessionId) (executionId : String) (update : ExecutionChange)
  | recordReview (sessionId : SessionId) (review : R)

/-- A resumption with a watermark, which only asks for what comes after it. -/
def catchesUp : WorkerOperation D R → Bool
  | .resumeSession request => request.afterSequence.isSome
  | _ => false

section Perform
variable (setting : ApplicationSetting D R)

/-- The operation, with the session that it is on. -/
def performOperation : WorkerOperation D R → WorkerM D R H SessionId
  | .createSession request => do
    let info ← createSessionOp setting request
    return info.sessionId
  | .renameSession request => do
    let _ ← renameSession setting request
    return request.sessionId
  | .closeSession request => do
    closeSession setting request
    return request.sessionId
  | .resumeSession request => do
    let _ ← resumeSession setting request
    return request.sessionId
  | .prompt request => do
    let _ ← prompt setting request
    return request.sessionId
  | .appendSessionChange session change => do
    let _ ← appendSessionChange setting session change
    return session.id
  | .appendExecutionChange sessionId executionId update => do
    let _ ← appendExecutionChange setting sessionId executionId update
    return sessionId
  | .recordReview sessionId review => do
    let _ ← recordReview setting sessionId review
    return sessionId

variable {worker : ApplicationWorker D R H}

theorem settles_performOperation (h : Follows setting worker) {operation : WorkerOperation D R}
    (hreads : catchesUp operation = false) :
    Settles setting id (performOperation setting operation) worker := by
  have hreturn {α : Type} {x : WorkerM D R H α} {session : α → SessionId}
      (hx : Settles setting session x worker) :
      Settles setting id (do
        let a ← x
        return session a) worker := by
    refine hx.then_same (fun _ => moves_pure _) fun _ _ _ _ _ hpure => ?_
    cases hpure
    rfl
  cases operation with
  | createSession request =>
    have hsettles := settles_createSession h request
    exact hreturn hsettles
  | renameSession request =>
    have hsettles := settles_renameSession h request
    exact hreturn hsettles
  | closeSession request =>
    have hsettles := settles_closeSession h request
    exact hreturn hsettles
  | resumeSession request =>
    obtain ⟨sessionId,afterSequence⟩ := request
    cases afterSequence with
    | none => exact hreturn (settles_resumeSession h sessionId)
    | some sequence => cases hreads
  | prompt request =>
    have hsettles := settles_prompt h request
    exact hreturn hsettles
  | appendSessionChange session change =>
    exact hreturn (settles_appendSessionChange h session change)
  | appendExecutionChange sessionId executionId update =>
    exact hreturn (settles_appendExecutionChange h sessionId executionId update)
  | recordReview sessionId review => exact hreturn (settles_recordReview h sessionId review)

/-- An operation, whatever becomes of it. -/
theorem follows_performOperation (h : Follows setting worker) (operation : WorkerOperation D R) :
    Follows setting (after (performOperation setting operation) worker) := by
  cases hreads : catchesUp operation with
  | false => exact (settles_performOperation setting h hreads).follows
  | true =>
    cases operation with
    | resumeSession request =>
      obtain ⟨sequence,hsequence⟩ := Option.isSome_iff_exists.mp hreads
      have hmoves : Moves SameJournals (do
          let _ ← resumeSession setting request
          return request.sessionId : WorkerM D R H SessionId) := by
        refine Moves.bind ?_ fun _ => moves_pure _
        refine (sameJournals_of_reads (reads_loadSessionSnapshot request)).bind fun snapshot => ?_
        rw [hsequence]
        exact moves_pure snapshot
      exact h.same (hmoves worker)
    | _ => cases hreads

/-- An operation with the fates of the calls that it makes. -/
structure OperationCall (D R : Type) where
  operation : WorkerOperation D R
  fates : List (CallFate ApplicationError)
  looks : List SenderStatus

def supplied (worker : ApplicationWorker D R H) (call : OperationCall D R) :
    ApplicationWorker D R H :=
  { worker with fates := call.fates, looks := call.looks }

def operate (worker : ApplicationWorker D R H) (call : OperationCall D R) :
    ApplicationWorker D R H :=
  after (performOperation setting call.operation) (supplied worker call)

theorem follows_supplied (h : Follows setting worker) (call : OperationCall D R) :
    Follows setting (supplied worker call) := h.same ⟨rfl,rfl⟩

theorem follows_operate (worker : ApplicationWorker D R H) (call : OperationCall D R)
    (h : Follows setting worker) : Follows setting (operate setting worker call) :=
  follows_performOperation setting (follows_supplied setting h call) call.operation

end Perform

theorem follows_new {sessions : SessionStore (SessionChange D R)}
    {executions : Execution.ExecutionProjection} {worker : ApplicationWorker D R H}
    (hnew : ApplicationWorker.new setting sessions executions = .ok worker)
    (hnumbered : Numbered sessions) : Follows setting worker := by
  obtain ⟨projection,hprojection,hnew⟩ := bind_eq_ok.mp hnew
  cases hnew
  unfold SessionProjectionStore.new Observable.ObservableStore.register at hprojection
  dsimp only at hprojection
  cases hparse : setting.schema.parse (setting.toValue ⟨.empty⟩) with
  | error error =>
    rw [hparse] at hprojection
    cases hprojection
  | ok _ =>
    rw [hparse] at hprojection
    cases hprojection
    refine ⟨hnumbered,fun id projection hget => ?_,rfl,?_⟩
    · simp [SessionProjectionState.get?] at hget
    · have hfresh : sessionProjectionValueId ∉
          (BTreeMap.empty : BTreeMap ValueId Observable.RegisteredValue).keys := List.not_mem_nil
      simp [Observable.ObservableStore.locked, Observable.ObservableStore.registerBody,
        Observable.ObservableStore.default, Observable.ensureOpen, Observable.StoreState.default,
        Observable.StoreState.current, Observable.StoreState.write, hfresh]

/-- What the projections say after a run, with the operations that leave the projection of
their session up to date. -/
structure ProjectionIsJournal (setting : ApplicationSetting D R)
    (upToDate : WorkerOperation D R → Prop) (worker : ApplicationWorker D R H) : Prop where
  part : ∀ id projection, worker.projection.reducer.get? id = some projection →
    projection.updates = (worker.sessions.updates id).take projection.throughSequence.val ∧
      projection.updates.map (·.sequence.val) = List.range' 1 projection.throughSequence.val
  registered : worker.projection.store.state.current sessionProjectionValueId =
    some (setting.toValue worker.projection.reducer)
  level : ∀ call id next, upToDate call.operation →
    performOperation setting call.operation (supplied worker call) = .ok id next →
      next.Level id
  failing : ∀ call failure next,
    callProjection setting.toValue call worker.projection = .error failure next →
      next.store.state.current sessionProjectionValueId = some (setting.toValue next.reducer)
  repair : ∀ (snapshot : SessionSnapshot D R) suffix buffered,
    Buffers snapshot.session.sessionId snapshot.throughSequence suffix buffered →
      repairWithSnapshot setting.toValue snapshot buffered worker.projection =
        (replaceSnapshot setting.toValue snapshot >>= fun _ =>
          suffix.forM (applyUpdate setting.toValue)) worker.projection

theorem Follows.part {worker : ApplicationWorker D R H} (h : Follows setting worker)
    {id : SessionId} {projection : SessionProjection D R}
    (hget : worker.projection.reducer.get? id = some projection) :
    projection.updates = (worker.sessions.updates id).take projection.throughSequence.val ∧
      projection.updates.map (·.sequence.val) = List.range' 1 projection.throughSequence.val := by
  obtain ⟨hpart,hthrough⟩ := h.held id projection hget
  have hupdates : projection.updates =
      (worker.sessions.updates id).take projection.throughSequence.val := by
    rw [hthrough]
    exact List.prefix_iff_eq_take.mp hpart
  refine ⟨hupdates,?_⟩
  have hnumbers : (worker.sessions.updates id).map (·.sequence.val) =
      List.range' 1 (worker.sessions.updates id).length := by
    rw [SessionStore.updates, List.map_map, List.length_map]
    exact h.numbered.numbered id
  have hle : projection.throughSequence.val ≤ (worker.sessions.updates id).length :=
    hthrough ▸ hpart.length_le
  rw [hupdates, List.map_take, hnumbers, List.take_range'_of_length_ge hle]

/-- After every run of operations, whatever becomes of their calls. -/
theorem projection_is_journal {setting : ApplicationSetting D R}
    {sessions : SessionStore (SessionChange D R)} {executions : Execution.ExecutionProjection}
    {worker : ApplicationWorker D R H}
    (hnew : ApplicationWorker.new setting sessions executions = .ok worker)
    (hnumbered : Numbered sessions) (calls : List (OperationCall D R)) :
    ProjectionIsJournal setting (catchesUp · = false) (runAll (operate setting) worker calls) := by
  have h : Follows setting (runAll (operate setting) worker calls) :=
    runAll_invariant (follows_operate setting) calls (follows_new hnew hnumbered)
  exact {
    part := fun id projection => h.part
    registered := h.agrees.current
    level := fun call id next hreads hok =>
      (settles_performOperation setting (follows_supplied setting h call) hreads).level id next hok
    failing := fun call failure next hfails => by
      have hagrees := agrees_callProjection setting.toValue call h.agrees
      rw [after_error hfails] at hagrees
      exact hagrees.current
    repair := fun snapshot suffix buffered hbuffers => repairWithSnapshot_eq hbuffers _ }

open PromptLoop (guideSetting guideWorker guideSession new_guideWorker)

def operationCall (operation : WorkerOperation Unit Unit)
    (fates : List (CallFate ApplicationError)) : OperationCall Unit Unit := ⟨operation,fates,[]⟩

/-- The reply of an append is lost, so that the journal is ahead of the projection. -/
def lostCalls : List (OperationCall Unit Unit) :=
  [operationCall (.createSession ⟨"/work",none⟩) [],
    operationCall (.appendSessionChange (.application guideSession "/work" none)
      (.message ⟨.user,[.text "one"]⟩)) [.lost (.failed "cancelled")]]

theorem numbered_empty : Numbered (SessionStore.empty : SessionStore (SessionChange D R)) where
  numbered _ := rfl
  streams _ _ hentry := absurd hentry List.not_mem_nil
  unknown _ _ := rfl

theorem projection_is_journal_lostCalls :
    ProjectionIsJournal guideSetting (catchesUp · = false)
      (runAll (operate guideSetting) guideWorker lostCalls) :=
  projection_is_journal new_guideWorker numbered_empty lostCalls

/-- The client asks for what comes after the first nothing. -/
def catchUpCall : OperationCall Unit Unit :=
  operationCall (.resumeSession ⟨guideSession,some 0⟩) []

/-- A resumption with a watermark succeeds and leaves the projection behind its journal. -/
theorem catching_up_leaves_behind :
    ApplicationWorker.new guideSetting .empty .empty = .ok guideWorker ∧
      Numbered (SessionStore.empty : SessionStore (SessionChange Unit Unit)) ∧
      ¬ProjectionIsJournal guideSetting (fun _ => True)
        (runAll (operate guideSetting) guideWorker lostCalls) := by
  refine ⟨new_guideWorker,numbered_empty,fun h => ?_⟩
  obtain ⟨next,hok⟩ : ∃ next, performOperation guideSetting catchUpCall.operation
      (supplied (runAll (operate guideSetting) guideWorker lostCalls) catchUpCall) =
        .ok guideSession next := answer?_eq_some.mp (by decide +kernel)
  have hnext : operate guideSetting (runAll (operate guideSetting) guideWorker lostCalls)
      catchUpCall = next := after_ok hok
  have hbehind : ((operate guideSetting (runAll (operate guideSetting) guideWorker lostCalls)
      catchUpCall).projection.reducer.get? guideSession).map (·.throughSequence.val) =
        some 0 := by decide +kernel
  have hjournal : ((operate guideSetting (runAll (operate guideSetting) guideWorker lostCalls)
      catchUpCall).sessions.entries guideSession).length = 1 := by decide +kernel
  obtain ⟨projection,hget,hthrough⟩ := h.level catchUpCall guideSession next trivial hok
  rw [hnext] at hbehind hjournal
  rw [hget, Option.map_some, hthrough, hjournal] at hbehind
  cases hbehind

end PhenixConductor.Application
