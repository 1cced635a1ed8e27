import PhenixConductor.Application.Prompts

/-! # What the operations of the worker append

Every operation of the worker appends a list of changes to the journals, which its code fixes up
to the point where it fails.
-/
namespace PhenixConductor.Application
open Collections Contract Client
open Execution (U64)

variable {C D R H : Type}

/-! ## Changes -/

/-- The changes in the journal of a session. -/
def SessionStore.changes (store : SessionStore C) (id : SessionId) : List C :=
  (store.journalOf id sessionChangeStream).map (·.payload)

/-- The part of what is written that belongs to a session. -/
def written (entries : List (SessionId × C)) (id : SessionId) : List C :=
  (entries.filter (·.1 = id)).map (·.2)

@[simp] theorem written_nil (id : SessionId) : written ([] : List (SessionId × C)) id = [] := rfl

theorem written_append (entries entries' : List (SessionId × C)) (id : SessionId) :
    written (entries ++ entries') id = written entries id ++ written entries' id := by
  simp [written]

theorem written_singleton (id j : SessionId) (change : C) :
    written [(id,change)] j = if id = j then [change] else [] := by
  unfold written
  by_cases h : id = j <;> simp [h]

/-- The command uses the stream of the session changes, and appends the listed changes to it. -/
inductive Writes : SessionCommand C → List (SessionId × C) → Prop
  | create (session : SessionRecord) : Writes (.create session) []
  | get (id : SessionId) : Writes (.get id) []
  | transition (id : SessionId) (transition : SessionTransition) (change : C) :
      Writes (.transition id transition ⟨sessionChangeStream,change⟩) [(id,change)]
  | appendJournal (id : SessionId) (change : C) :
      Writes (.appendJournal id ⟨sessionChangeStream,change⟩) [(id,change)]
  | journal (id : SessionId) (stream : ContractId) (afterSequence : Option U64) :
      Writes (.journal id stream afterSequence) []

theorem changes_putJournal {store base : SessionStore C}
    (hbase : ∀ j, base.journalOf j sessionChangeStream = store.journalOf j sessionChangeStream)
    (id : SessionId) (entry : SessionJournalEntry C) (j : SessionId) :
    (base.putJournal id sessionChangeStream
      (store.journalOf id sessionChangeStream ++ [entry])).changes j =
        store.changes j ++ written [(id,entry.payload)] j := by
  unfold SessionStore.changes
  rw [journalOf_putJournal, written_singleton]
  by_cases hj : j = id
  · simp [hj]
  · rw [if_neg hj, if_neg fun hid => hj hid.symm, hbase, List.append_nil]

theorem SessionEffect.changes {store next : SessionStore C} {command : SessionCommand C}
    {response : SessionResponse C} (h : SessionEffect store command next response)
    {entries : List (SessionId × C)} (hwrites : Writes command entries) (j : SessionId) :
    next.changes j = store.changes j ++ written entries j := by
  cases h with
  | create isOpen fresh =>
    cases hwrites
    simp [SessionStore.changes]
  | get id =>
    cases hwrites
    simp
  | transition found isOpen named directory appended =>
    cases hwrites
    refine (changes_putJournal (fun _ => rfl) _ _ j).trans ?_
    rw [appended.payload]
    rfl
  | appendJournal found appended =>
    cases hwrites
    refine (changes_putJournal (fun _ => rfl) _ _ j).trans ?_
    rw [appended.payload]
  | journal found streams =>
    cases hwrites
    simp

/-! ## The worker -/

/-- What an operation that calls only the session service does: it appends the listed changes. -/
structure Wrote (entries : List (SessionId × SessionChange D R))
    (before after : ApplicationWorker D R H) : Prop where
  changes : ∀ id, after.sessions.changes id = before.sessions.changes id ++ written entries id
  executions : after.executions = before.executions
  allocated : after.allocated = before.allocated
  finished : after.finished = before.finished
  appendFailed : before.appendFailed = true → after.appendFailed = true

theorem Wrote.refl (worker : ApplicationWorker D R H) : Wrote [] worker worker :=
  ⟨by simp,rfl,rfl,rfl,id⟩

variable {entries : List (SessionId × SessionChange D R)}

theorem Wrote.trans {entries' : List (SessionId × SessionChange D R)}
    {a b c : ApplicationWorker D R H} (h : Wrote entries a b) (h' : Wrote entries' b c) :
    Wrote (entries ++ entries') a c where
  changes id := by rw [h'.changes, h.changes, written_append, List.append_assoc]
  executions := h'.executions.trans h.executions
  allocated := h'.allocated.trans h.allocated
  finished := h'.finished.trans h.finished
  appendFailed hfailed := h'.appendFailed (h.appendFailed hfailed)

/-- Nothing is appended. -/
abbrev Silent : ApplicationWorker D R H → ApplicationWorker D R H → Prop := Wrote []

instance reflSilent : Std.Refl (Silent (D := D) (R := R) (H := H)) := ⟨Wrote.refl⟩

instance transSilent : IsTrans (ApplicationWorker D R H) Silent :=
  ⟨fun _ _ _ h h' => Wrote.trans h h'⟩

/-- The services and the projection are left as they are. -/
def Reads (before after : ApplicationWorker D R H) : Prop :=
  after = { before with
    nextSessionOrdinal := after.nextSessionOrdinal
    fates := after.fates
    looks := after.looks
    emitted := after.emitted }

instance reflReads : Std.Refl (Reads (D := D) (R := R) (H := H)) := ⟨fun _ => rfl⟩

instance transReads : IsTrans (ApplicationWorker D R H) Reads where
  trans a b c h h' := by
    unfold Reads at h h' ⊢
    rw [h', h]

variable {before after : ApplicationWorker D R H}

theorem Reads.silent (h : Reads before after) : Silent before after := by
  rw [h]
  exact ⟨by simp,rfl,rfl,rfl,id⟩

theorem silent_of_reads {α : Type} {x : WorkerM D R H α} (h : Moves Reads x) : Moves Silent x :=
  fun worker => (h worker).silent

section Calls
variable {worker next : ApplicationWorker D R H} {command : SessionCommand (SessionChange D R)}
  {response : SessionResponse (SessionChange D R)} {error : ApplicationError}
  {entries : List (SessionId × SessionChange D R)}

/-- What a call of the session service that is answered leaves. -/
structure Invoked (worker : ApplicationWorker D R H) (command : SessionCommand (SessionChange D R))
    (response : SessionResponse (SessionChange D R)) (next : ApplicationWorker D R H) : Prop where
  effect : SessionEffect worker.sessions command next.sessions response
  rest : next = { worker with sessions := next.sessions, fates := worker.fates.tail }

theorem invokeSession_eq_ok (h : invokeSession command worker = .ok response next) :
    Invoked worker command response next := by
  obtain ⟨hanswer,hnext⟩ := check_eq_ok.mp h
  have hcall : (worker.fates.headD .served).call .failed (sessionService command)
      worker.sessions = (.ok response,next.sessions) := by
    rw [hnext]
    exact Prod.ext hanswer rfl
  have hservice := (CallFate.call_eq_ok hcall).2
  exact ⟨sessionService_eq_ok hservice,by rw [hnext]⟩

/-- Where a call fails, the service may still have done its work. -/
theorem invokeSession_eq_error (h : invokeSession command worker = .error error next) :
    next = { worker with sessions := next.sessions, fates := worker.fates.tail } ∧
      (next.sessions = worker.sessions ∨
        ∃ response, SessionEffect worker.sessions command next.sessions response) := by
  unfold invokeSession at h
  dsimp only at h
  have hstate := (worker.fates.headD .served).call_state .failed (sessionService command)
    worker.sessions
  have hnext : next = { worker with
      sessions := ((worker.fates.headD .served).call .failed (sessionService command)
        worker.sessions).2
      fates := worker.fates.tail } := by
    have hafter := after_error h
    rw [after_check] at hafter
    exact hafter.symm
  rw [hnext]
  refine ⟨rfl,?_⟩
  rcases hstate with hsame | hserved
  · exact .inl hsame
  · rw [hserved]
    exact after_sessionService worker.sessions command

theorem SessionEffect.wrote (h : SessionEffect worker.sessions command next.sessions response)
    (hwrites : Writes command entries)
    (hrest : next = { worker with sessions := next.sessions, fates := worker.fates.tail }) :
    Wrote entries worker next := by
  have hchanges := h.changes hwrites
  rw [hrest]
  exact ⟨hchanges,rfl,rfl,rfl,id⟩

theorem Invoked.wrote (h : Invoked worker command response next)
    (hwrites : Writes command entries) : Wrote entries worker next :=
  h.effect.wrote hwrites h.rest

theorem invokeSession_error_wrote (h : invokeSession command worker = .error error next)
    (hwrites : Writes command entries) : Silent worker next ∨ Wrote entries worker next := by
  obtain ⟨hrest,hsame | ⟨response,heffect⟩⟩ := invokeSession_eq_error h
  · left
    rw [hrest,hsame]
    exact ⟨by simp,rfl,rfl,rfl,id⟩
  · exact .inr (heffect.wrote hwrites hrest)

end Calls

section Silent
variable (setting : ApplicationSetting D R)

section Relation
variable {α : Type} {R' : ApplicationWorker D R H → ApplicationWorker D R H → Prop} [Std.Refl R']

theorem moves_throw (error : ApplicationError) : Moves R' (throw error : WorkerM D R H α) :=
  fun worker => Std.Refl.refl worker

theorem moves_pure (a : α) : Moves R' (pure a : WorkerM D R H α) :=
  fun worker => Std.Refl.refl worker

end Relation

/-- A command that changes nothing. -/
theorem reads_invokeSession {command : SessionCommand (SessionChange D R)}
    (hreads : ∀ store next response, SessionEffect store command next response → next = store) :
    Moves Reads (invokeSession (H := H) command) := by
  intro worker
  cases h : invokeSession command worker with
  | ok response next =>
    have hinvoked := invokeSession_eq_ok h
    have hsame := hreads _ _ _ hinvoked.effect
    rw [after_ok h, hinvoked.rest, hsame]
    rfl
  | error error next =>
    obtain ⟨hrest,hsame⟩ := invokeSession_eq_error h
    rw [after_error h, hrest, hsame.elim id fun ⟨_,heffect⟩ => hreads _ _ _ heffect]
    rfl

theorem reads_sessionRecord (id : SessionId) :
    Moves Reads (sessionRecord id : WorkerM D R H _) := by
  have hget : ∀ store next response, SessionEffect (C := SessionChange D R) store (.get id) next
      response → next = store := by
    intro store next response h
    cases h
    rfl
  refine (reads_invokeSession hget).bind fun response => ?_
  cases response with
  | session session => exact moves_pure session
  | created | transitioned | journalAppended | journal => exact moves_throw _

theorem reads_requireOpen (id : SessionId) :
    Moves Reads (requireOpenApplicationSession id : WorkerM D R H _) :=
  (reads_sessionRecord id).bind fun _ => moves_check _

theorem reads_loadSessionSnapshot (request : SessionResumeInput) :
    Moves Reads (loadSessionSnapshot request : WorkerM D R H _) := by
  have hjournal : ∀ store next response, SessionEffect (C := SessionChange D R) store
      (.journal request.sessionId sessionChangeStream request.afterSequence) next response →
        next = store := by
    intro store next response h
    cases h
    rfl
  refine (reads_sessionRecord _).bind fun record => ?_
  cases record with
  | none => exact moves_throw _
  | some record =>
    refine (moves_check _).bind fun session => ?_
    refine (reads_invokeSession hjournal).bind fun response => ?_
    cases response with
    | journal throughSequence entries =>
      dsimp only
      split_ifs
      · exact moves_throw _
      · exact (moves_check _).bind fun _ => moves_pure _
    | created | transitioned | journalAppended | session => exact moves_throw _

theorem reads_reserve : Moves Reads (reserveSessionEventSlot : WorkerM D R H Unit) := by
  intro worker
  unfold after reserveSessionEventSlot
  cases worker.looks.headD .ready <;> rfl

theorem reads_emit (update : SessionUpdate D R) :
    Moves Reads (emitSessionUpdate update : WorkerM D R H Unit) := by
  intro worker
  unfold after emitSessionUpdate
  cases worker.looks.headD .ready <;> rfl

/-- The ordinals that are tried are used up, and nothing else changes. -/
theorem reads_allocateSessionLoop (left : ℕ) :
    Moves Reads (allocateSessionLoop left : WorkerM D R H SessionId) := by
  induction left with
  | zero => exact moves_throw _
  | succ left ih =>
    intro worker
    unfold allocateSessionLoop
    cases hnext : checkedSucc worker.nextSessionOrdinal with
    | none =>
      simp only [after, stateful_bind, stateful_get, hnext, stateful_throw]
      exact reflReads.refl worker
    | some next =>
      have hmoved : Reads worker { worker with nextSessionOrdinal := next } :=
        rfl
      simp only [after, stateful_bind, stateful_get, hnext, stateful_set]
      refine transReads.trans _ _ _ hmoved ?_
      cases sessionIdOf worker.nextSessionOrdinal with
      | error message =>
        have hthrown : Moves Reads (throw (.failed ("generated invalid session id: " ++ message)) :
            WorkerM D R H SessionId) := moves_throw _
        exact hthrown _
      | ok id =>
        refine ((reads_sessionRecord id).bind fun found => ?_) _
        cases found with
        | none => exact moves_pure id
        | some record => exact ih

theorem reads_allocateSessionId : Moves Reads (allocateSessionId : WorkerM D R H SessionId) :=
  moves_get.bind fun _ => reads_allocateSessionLoop _

theorem silent_requireOpen (id : SessionId) :
    Moves Silent (requireOpenApplicationSession id : WorkerM D R H _) :=
  silent_of_reads (reads_requireOpen id)

theorem silent_loadSessionSnapshot (request : SessionResumeInput) :
    Moves Silent (loadSessionSnapshot request : WorkerM D R H _) :=
  silent_of_reads (reads_loadSessionSnapshot request)

theorem silent_reserve : Moves Silent (reserveSessionEventSlot : WorkerM D R H Unit) :=
  silent_of_reads reads_reserve

theorem silent_project (x : ProjectionM D R H Unit) : Moves Silent (project x) := by
  intro worker
  unfold after project
  cases x worker.projection <;> exact ⟨by simp,rfl,rfl,rfl,id⟩

theorem silent_projectJournalEntry (session : SessionInfo)
    (journal : SessionJournalEntry (SessionChange D R)) :
    Moves Silent (projectJournalEntry setting session journal : WorkerM D R H _) := by
  refine (moves_check _).bind fun update => ?_
  refine moves_get.bind fun worker => ?_
  have hend : Moves Silent (do
      emitSessionUpdate update
      return update : WorkerM D R H (SessionUpdate D R)) :=
    (silent_of_reads (reads_emit _)).bind fun _ => moves_pure _
  split_ifs
  · exact (silent_project _).bind fun _ => hend
  · exact (silent_loadSessionSnapshot _).bind fun _ => (silent_project _).bind fun _ => hend

end Silent

/-! ## Appends -/

section Noted
variable {α : Type} {x : WorkerM D R H α} {worker next : ApplicationWorker D R H} {a : α}
  {error : ApplicationError}

theorem noted_eq_ok (h : noted x worker = .ok a next) : x worker = .ok a next := by
  unfold noted at h
  cases hx : x worker with
  | ok b u => simpa [hx] using h
  | error e u => simp [hx] at h

theorem noted_eq_error (h : noted x worker = .error error next) :
    ∃ failed, x worker = .error error failed ∧ next = { failed with appendFailed := true } := by
  unfold noted at h
  cases hx : x worker with
  | ok b u => simp [hx] at h
  | error e u =>
    rw [hx] at h
    cases h
    exact ⟨u,rfl,rfl⟩

end Noted

theorem Wrote.note (h : Wrote entries before after) :
    Wrote entries before { after with appendFailed := true } :=
  ⟨h.changes,h.executions,h.allocated,h.finished,fun _ => rfl⟩

/-- An append that fails, before or after its change is in the journal. -/
structure AppendFails (entries : List (SessionId × SessionChange D R))
    (worker next : ApplicationWorker D R H) : Prop where
  noted : next.appendFailed = true
  wrote : Silent worker next ∨ Wrote entries worker next

section Append
variable {setting : ApplicationSetting D R} {session : SessionRecord} {change : SessionChange D R}
  {worker next : ApplicationWorker D R H} {update : SessionUpdate D R} {error : ApplicationError}

theorem appendSessionChange_eq_ok
    (h : appendSessionChange setting session change worker = .ok update next) :
    Wrote [(session.id,change)] worker next := by
  obtain ⟨_,reserved,hreserve,h⟩ := stateful_bind_eq_ok.mp (noted_eq_ok h)
  obtain ⟨response,invoked,hinvoke,h⟩ := stateful_bind_eq_ok.mp h
  have hsilent := silent_reserve.ok hreserve
  have hinvoked := invokeSession_eq_ok hinvoke
  have hwrote := hinvoked.wrote (.appendJournal session.id change)
  have heffect := hinvoked.effect
  generalize invoked.sessions = sessions at heffect
  cases heffect with
  | appendJournal found appended =>
    have hrest := ((moves_check (applicationSessionInfo session)).bind fun info =>
      silent_projectJournalEntry setting info _).ok h
    exact (hsilent.trans hwrote).trans hrest

theorem appendSessionChange_eq_error
    (h : appendSessionChange setting session change worker = .error error next) :
    AppendFails [(session.id,change)] worker next := by
  obtain ⟨failed,hbody,rfl⟩ := noted_eq_error h
  refine ⟨rfl,?_⟩
  rcases stateful_bind_eq_error.mp hbody with hreserve | ⟨_,reserved,hreserve,h⟩
  · exact .inl (silent_reserve.failsAlong _ _ _ hreserve).note
  have hsilent := silent_reserve.ok hreserve
  rcases stateful_bind_eq_error.mp h with hinvoke | ⟨response,invoked,hinvoke,h⟩
  · rcases invokeSession_error_wrote hinvoke (.appendJournal session.id change) with hs | hw
    · exact .inl (hsilent.trans hs).note
    · exact .inr (hsilent.trans hw).note
  · have hinvoked := invokeSession_eq_ok hinvoke
    have hwrote := hinvoked.wrote (.appendJournal session.id change)
    have heffect := hinvoked.effect
    generalize invoked.sessions = sessions at heffect
    cases heffect with
    | appendJournal found appended =>
      have hrest := ((moves_check (applicationSessionInfo session)).bind fun info =>
        silent_projectJournalEntry setting info _).failsAlong _ _ _ h
      exact .inr ((hsilent.trans hwrote).trans hrest).note

end Append

section AppendExecution
variable {setting : ApplicationSetting D R} {sessionId : SessionId} {executionId : String}
  {change : ExecutionChange} {worker next : ApplicationWorker D R H}
  {update : SessionUpdate D R} {error : ApplicationError}

/-- The record that is found is the one of the session. -/
theorem requireOpen_id {session : SessionRecord}
    (h : requireOpenApplicationSession sessionId worker = .ok session next) :
    session.id = sessionId := by
  obtain ⟨found,read,hread,h⟩ := stateful_bind_eq_ok.mp h
  obtain ⟨hcheck,-⟩ := check_eq_ok.mp h
  obtain ⟨response,invoked,hinvoke,hread⟩ := stateful_bind_eq_ok.mp hread
  have heffect := (invokeSession_eq_ok hinvoke).effect
  generalize invoked.sessions = sessions at heffect
  cases heffect with
  | get =>
    cases hread
    cases hget : worker.sessions.records.get? sessionId with
    | none => simp [hget, requireOpenRecord] at hcheck
    | some record =>
      rw [hget] at hcheck
      obtain ⟨_,-,hcheck⟩ := bind_eq_ok.mp hcheck
      split_ifs at hcheck
      cases hcheck
      exact worker.sessions.named _ _ hget

theorem appendExecutionChange_eq_ok
    (h : appendExecutionChange setting sessionId executionId change worker = .ok update next) :
    Wrote [(sessionId,.execution executionId change)] worker next := by
  obtain ⟨session,opened,hopen,h⟩ := stateful_bind_eq_ok.mp (noted_eq_ok h)
  have hwrote := appendSessionChange_eq_ok h
  rw [requireOpen_id hopen] at hwrote
  exact ((silent_requireOpen sessionId).ok hopen).trans hwrote

theorem appendExecutionChange_eq_error
    (h : appendExecutionChange setting sessionId executionId change worker = .error error next) :
    AppendFails [(sessionId,.execution executionId change)] worker next := by
  obtain ⟨failed,hbody,rfl⟩ := noted_eq_error h
  refine ⟨rfl,?_⟩
  rcases stateful_bind_eq_error.mp hbody with hopen | ⟨session,opened,hopen,h⟩
  · exact .inl ((silent_requireOpen sessionId).failsAlong _ _ _ hopen).note
  · have hsilent := (silent_requireOpen sessionId).ok hopen
    have hfails := appendSessionChange_eq_error h
    rw [requireOpen_id hopen] at hfails
    exact hfails.wrote.imp (fun hs => (hsilent.trans hs).note) fun hw => (hsilent.trans hw).note

end AppendExecution

end PhenixConductor.Application
