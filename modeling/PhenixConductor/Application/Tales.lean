import PhenixConductor.Application.Isolation

/-! # What the journals say about an execution

The changes that name an execution begin with its running state.
-/
namespace PhenixConductor.Application
open Contract Client

variable {D R H : Type}

/-! ## Changes of one execution -/

def stateOf : SessionChange D R → Option ExecutionState
  | .execution _ (.state state) => some state
  | _ => none

def IsTerminal : ExecutionState → Prop
  | .completed | .cancelled | .failed _ => True
  | .pending | .running => False

/-- The running state, and then changes that are no states. -/
def Begun (executionId : String) (changes : List (SessionChange D R)) : Prop :=
  ∃ rest, changes = .execution executionId (.state .running) :: rest ∧
    ∀ change ∈ rest, stateOf change = none

/-- A last state after all the rest. -/
def Ended (executionId : String) (changes : List (SessionChange D R)) : Prop :=
  ∃ begun state, Begun executionId begun ∧ IsTerminal state ∧
    changes = begun ++ [.execution executionId (.state state)]

inductive Story (executionId : String) : List (SessionChange D R) → Prop
  | unheard : Story executionId []
  | begun {changes : List (SessionChange D R)} (h : Begun executionId changes) :
      Story executionId changes
  | ended {changes : List (SessionChange D R)} (h : Ended executionId changes) :
      Story executionId changes

/-- What an execution adds at its end: one last state, or none if an append has failed. -/
inductive Closing (executionId : String) (appendFailed : Bool) : List (SessionChange D R) → Prop
  | silent {changes : List (SessionChange D R)} (failed : appendFailed = true)
      (h : ∀ change ∈ changes, stateOf change = none) : Closing executionId appendFailed changes
  | state {changes : List (SessionChange D R)} {state : ExecutionState}
      (h : ∀ change ∈ changes, stateOf change = none) (terminal : IsTerminal state) :
      Closing executionId appendFailed (changes ++ [.execution executionId (.state state)])

section Changes
variable {executionId : String} {changes extra : List (SessionChange D R)}

theorem Begun.append (h : Begun executionId changes) (hextra : ∀ change ∈ extra, stateOf change = none) :
    Begun executionId (changes ++ extra) := by
  obtain ⟨rest,rfl,hrest⟩ := h
  refine ⟨rest ++ extra,rfl,fun change hchange => ?_⟩
  exact (List.mem_append.mp hchange).elim (hrest change) (hextra change)

theorem Begun.closed (h : Begun executionId changes) {appendFailed : Bool}
    (hextra : Closing executionId appendFailed extra) :
    Story executionId (changes ++ extra) ∧
      (appendFailed = false → Ended executionId (changes ++ extra)) := by
  cases hextra with
  | silent hfailed hsilent =>
    refine ⟨.begun (h.append hsilent),fun hnot => ?_⟩
    rw [hnot] at hfailed
    cases hfailed
  | state hsilent hterminal =>
    have hended := (⟨_,_,h.append hsilent,hterminal,(List.append_assoc ..).symm⟩ :
      Ended executionId (changes ++ _))
    exact ⟨.ended hended,fun _ => hended⟩

theorem Begun.not_completed (h : Begun executionId changes) :
    .execution executionId (.state .completed) ∉ changes := by
  obtain ⟨rest,rfl,hrest⟩ := h
  intro hmem
  rcases List.mem_cons.mp hmem with heq | hmem
  · cases heq
  · cases hrest _ hmem

end Changes

/-! ## Entries -/

/-- What the entries say about an execution in the journal of a session. -/
def named (entries : List (SessionId × SessionChange D R)) (sessionId : SessionId)
    (executionId : String) : List (SessionChange D R) :=
  (written entries sessionId).filter (executionOf · = some executionId)

/-- The entries name no execution but one, and that in the journal of one session. -/
def OnlyNames (entries : List (SessionId × SessionChange D R)) (sessionId : SessionId)
    (executionId : String) : Prop :=
  ∀ entry ∈ entries, executionOf entry.2 = none ∨
    entry.1 = sessionId ∧ executionOf entry.2 = some executionId

section Named
variable {entries : List (SessionId × SessionChange D R)}

variable {sessionId : SessionId} {executionId : String}

theorem mem_named {change : SessionChange D R} : change ∈ named entries sessionId executionId ↔
      (sessionId,change) ∈ entries ∧ executionOf change = some executionId := by
  simp [named, written]

theorem named_of_aside (h : ∀ entry ∈ entries, executionOf entry.2 = none) (sessionId : SessionId)
    (executionId : String) : named entries sessionId executionId = [] := by
  apply List.eq_nil_iff_forall_not_mem.mpr
  intro change hchange
  obtain ⟨hmem,hid⟩ := mem_named.mp hchange
  rw [h _ hmem] at hid
  cases hid

theorem OnlyNames.named_of_ne (h : OnlyNames entries sessionId executionId) {j : SessionId}
    {id : String} (hne : ¬(j = sessionId ∧ id = executionId)) : named entries j id = [] := by
  apply List.eq_nil_iff_forall_not_mem.mpr
  intro change hchange
  obtain ⟨hmem,hid⟩ := mem_named.mp hchange
  rcases h _ hmem with hnone | ⟨hsession,hexecution⟩
  · rw [hnone] at hid
    cases hid
  · exact hne ⟨hsession,Option.some.inj (hid.symm.trans hexecution)⟩

theorem OnlyNames.at_session {j : SessionId} {change : SessionChange D R}
    (h : OnlyNames entries sessionId executionId) (hmem : change ∈ named entries j executionId) :
    change ∈ named entries sessionId executionId := by
  by_cases hj : j = sessionId
  · exact hj ▸ hmem
  · rw [h.named_of_ne fun heq => hj heq.1] at hmem
    cases hmem

end Named

/-- The changes in the journal of a session that name an execution. -/
def ApplicationWorker.told (worker : ApplicationWorker D R H) (sessionId : SessionId)
    (executionId : String) : List (SessionChange D R) :=
  (worker.sessions.changes sessionId).filter (executionOf · = some executionId)

section Acts
variable {entries : List (SessionId × SessionChange D R)} {made : List String}
  {issued : List (String × Bool)} {a b : ApplicationWorker D R H}

theorem Acts.told (h : Acts entries made issued a b) (sessionId : SessionId)
    (executionId : String) :
    b.told sessionId executionId = a.told sessionId executionId ++
      named entries sessionId executionId := by
  unfold ApplicationWorker.told
  rw [h.changes, List.filter_append]
  rfl

theorem Acts.completed (h : Acts entries made issued a b) {executionId : String}
    (hcompleted : a.Completed executionId) : b.Completed executionId := by
  obtain ⟨execution,hget,hstate⟩ := hcompleted
  exact ⟨execution,h.kept.completed _ _ hget hstate,hstate⟩

theorem Acts.not_failed (h : Acts entries made issued a b) (hfailed : b.appendFailed = false) :
    a.appendFailed = false := by
  by_contra hbefore
  rw [h.appendFailed (Bool.eq_true_of_not_eq_false hbefore)] at hfailed
  cases hfailed

end Acts

/-! ## Executions that are over -/

/-- The execution is not active any more. -/
structure Over (worker : ApplicationWorker D R H) (executionId : String) : Prop where
  finished : ∃ success, (executionId,success) ∈ worker.finished
  story : ∀ sessionId, Story executionId (worker.told sessionId executionId)
  ended : worker.appendFailed = false → ∀ sessionId,
    worker.told sessionId executionId = [] ∨ Ended executionId (worker.told sessionId executionId)

theorem Over.acts {entries : List (SessionId × SessionChange D R)} {made : List String}
    {issued : List (String × Bool)} {a b : ApplicationWorker D R H} {executionId : String}
    (h : Over a executionId) (hacts : Acts entries made issued a b)
    (hnamed : ∀ sessionId, named entries sessionId executionId = []) : Over b executionId where
  finished := by
    obtain ⟨success,hfinished⟩ := h.finished
    exact ⟨success,hacts.finished ▸ List.mem_append_left _ hfinished⟩
  story sessionId := by
    rw [hacts.told, hnamed, List.append_nil]
    exact h.story sessionId
  ended hfailed sessionId := by
    rw [hacts.told, hnamed, List.append_nil]
    exact h.ended (hacts.not_failed hfailed) sessionId

end PhenixConductor.Application

/-! ## The executions of the loop

What holds of the executions that the loop has allocated, between two steps: those that are
active have begun, and the others are over. A step is about one execution or about none, and
what it is not about stays as it is.
-/
namespace PhenixConductor.Application
open Collections Contract Client

variable {D R H : Type}

namespace PromptLoop

/-- The run of the execution has put out a result, and its prompt is neither active any more
nor cancelled. -/
def Succeeded (s : PromptLoop D R H) (id : String) : Prop :=
  ∃ i task text, s.tasks[i]? = some task ∧ task.executionId = id ∧
    task.result = some (.ok text) ∧ i ∉ s.cancelled ∧
      ∀ key x, s.active.get? key = some x → x.cancellation ≠ i

/-- One execution: while it is active it has begun, and then it is over. -/
structure Tale (s : PromptLoop D R H) (id : String) : Prop where
  begun : ∀ key x, s.active.get? key = some x → x.executionId = id → (x.prompt,id) ∈ s.roots ∧
    ∀ sessionId : SessionId, (sessionId.text = key → Begun id (s.worker.told sessionId id)) ∧
      (sessionId.text ≠ key → s.worker.told sessionId id = [])
  ended : (∀ key x, s.active.get? key = some x → x.executionId ≠ id) → Over s.worker id
  completed : ∀ sessionId, .execution id (.state .completed) ∈ s.worker.told sessionId id →
    s.worker.Completed id ∧ (id,true) ∈ s.worker.finished
  success : (id,true) ∈ s.worker.finished → s.Succeeded id

/-- All executions that the loop has allocated, and nothing is said about others. -/
structure Tells (s : PromptLoop D R H) : Prop where
  rooted : s.roots.map (·.2) = s.worker.allocated
  distinct : s.worker.allocated.Nodup
  known : ∀ id ∈ s.worker.allocated, s.worker.Knows id
  unheard : ∀ sessionId id, ¬s.worker.Knows id → s.worker.told sessionId id = []
  active : ∀ key x, s.active.get? key = some x → x.executionId ∈ s.worker.allocated
  finished : ∀ id success, (id,success) ∈ s.worker.finished → id ∈ s.worker.allocated
  tale : ∀ id ∈ s.worker.allocated, Tale s id

section Frame
variable {s next : PromptLoop D R H} {entries : List (SessionId × SessionChange D R)}
  {made : List String} {issued : List (String × Bool)}

/-- The step is not about the execution. -/
structure Apart (s next : PromptLoop D R H) (entries : List (SessionId × SessionChange D R))
    (issued : List (String × Bool)) (id : String) : Prop where
  named : ∀ sessionId, named entries sessionId id = []
  issued : ∀ success, (id,success) ∉ issued
  active : ∀ key x, x.executionId = id →
    (next.active.get? key = some x ↔ s.active.get? key = some x)
  succeeded : s.Succeeded id → next.Succeeded id

theorem Apart.told {id : String} (h : Apart s next entries issued id)
    (hacts : Acts entries made issued s.worker next.worker) (sessionId : SessionId) :
    next.worker.told sessionId id = s.worker.told sessionId id := by
  rw [hacts.told, h.named, List.append_nil]

/-- An execution that the step is not about. -/
theorem Tale.frame {id : String} (h : Tale s id) (hapart : Apart s next entries issued id)
    (hacts : Acts entries made issued s.worker next.worker) (hroots : s.roots ⊆ next.roots) :
    Tale next id where
  begun key x hx hid := by
    obtain ⟨hroot,htold⟩ := h.begun key x ((hapart.active key x hid).mp hx) hid
    refine ⟨hroots hroot,fun sessionId => ?_⟩
    rw [hapart.told hacts]
    exact htold sessionId
  ended hnone := by
    refine Over.acts (h.ended fun key x hx hid => ?_) hacts hapart.named
    exact hnone key x ((hapart.active key x hid).mpr hx) hid
  completed sessionId hmem := by
    rw [hapart.told hacts] at hmem
    obtain ⟨hcompleted,hfinished⟩ := h.completed sessionId hmem
    exact ⟨hacts.completed hcompleted,hacts.finished ▸ List.mem_append_left _ hfinished⟩
  success hfinished := by
    rw [hacts.finished, List.mem_append] at hfinished
    rcases hfinished with hold | hnew
    · exact hapart.succeeded (h.success hold)
    · exact absurd hnew (hapart.issued true)

/-- A step that is about no execution. -/
theorem Tells.aside (h : Tells s) (hacts : Acts entries [] [] s.worker next.worker)
    (hnone : ∀ entry ∈ entries, executionOf entry.2 = none) (hroots : next.roots = s.roots)
    (hactive : next.active = s.active) (hsucceeded : ∀ id, s.Succeeded id → next.Succeeded id) :
    Tells next := by
  have hallocated : next.worker.allocated = s.worker.allocated := by
    rw [hacts.allocated, List.append_nil]
  have hapart : ∀ id, Apart s next entries [] id := fun id =>
    ⟨fun sessionId => named_of_aside hnone sessionId id,fun _ => List.not_mem_nil,
      fun key x _ => by rw [hactive],hsucceeded id⟩
  exact {
    rooted := by rw [hroots, hallocated]; exact h.rooted
    distinct := hallocated ▸ h.distinct
    known := fun id hid => hacts.knows id (h.known id (hallocated ▸ hid))
    unheard := fun sessionId id hid => by
      rw [(hapart id).told hacts]
      exact h.unheard sessionId id fun hknows => hid (hacts.knows id hknows)
    active := fun key x hx => hallocated ▸ h.active key x (hactive ▸ hx)
    finished := fun id success hid => by
      rw [hacts.finished, List.append_nil] at hid
      exact hallocated ▸ h.finished id success hid
    tale := fun id hid =>
      (h.tale id (hallocated ▸ hid)).frame (hapart id) hacts (hroots ▸ List.Subset.refl _) }

/-- A step that is about one execution. -/
structure About (s next : PromptLoop D R H) (entries : List (SessionId × SessionChange D R))
    (made : List String) (issued : List (String × Bool)) (id : String) : Prop where
  acts : Acts entries made issued s.worker next.worker
  origin : made = [] ∧ id ∈ s.worker.allocated ∧ next.roots = s.roots ∨
    made = [id] ∧ ∃ number, next.roots = s.roots ++ [(number,id)]
  ending : ∀ entry ∈ issued, entry.1 = id
  apart : ∀ j, j ≠ id → Apart s next entries issued j

theorem Tells.about (h : Tells s) (id : String) (habout : About s next entries made issued id)
    (htale : Tale next id) : Tells next := by
  have hacts := habout.acts
  have hroots : s.roots ⊆ next.roots := by
    rcases habout.origin with ⟨-,-,hsame⟩ | ⟨-,number,hmore⟩
    · rw [hsame]
      exact List.Subset.refl _
    · rw [hmore]
      exact List.subset_append_left ..
  have hallocated : ∀ j, j ∈ next.worker.allocated ↔ j ∈ s.worker.allocated ∨ j = id := by
    intro j
    rw [hacts.allocated, List.mem_append]
    rcases habout.origin with ⟨hmade,hold,-⟩ | ⟨hmade,-⟩
    · rw [hmade]
      constructor
      · exact fun hj => .inl (hj.resolve_right List.not_mem_nil)
      · rintro (hj | rfl)
        · exact .inl hj
        · exact .inl hold
    · rw [hmade, List.mem_singleton]
  have hknown : ∀ j ∈ next.worker.allocated, next.worker.Knows j := by
    intro j hj
    rcases (hallocated j).mp hj with hold | rfl
    · exact hacts.knows j (h.known j hold)
    · rcases habout.origin with ⟨-,hold,-⟩ | ⟨hmade,-⟩
      · exact hacts.knows j (h.known j hold)
      · exact (hacts.fresh j (by simp [hmade])).2
  exact {
    rooted := by
      rcases habout.origin with ⟨hmade,-,hsame⟩ | ⟨hmade,number,hmore⟩
      · rw [hsame, hacts.allocated, hmade, List.append_nil]
        exact h.rooted
      · rw [hmore, hacts.allocated, hmade, List.map_append, h.rooted]
        rfl
    distinct := by
      rw [hacts.allocated]
      rcases habout.origin with ⟨hmade,-⟩ | ⟨hmade,-⟩
      · rw [hmade, List.append_nil]
        exact h.distinct
      · have hfresh := (hacts.fresh id (by simp [hmade])).1
        rw [hmade, List.nodup_append]
        refine ⟨h.distinct,List.nodup_singleton id,fun j hj k hk heq => ?_⟩
        rw [List.mem_singleton.mp hk] at heq
        exact hfresh (heq ▸ h.known j hj)
    known := hknown
    unheard := fun sessionId j hj => by
      have hne : j ≠ id := by
        rintro rfl
        exact hj (hknown j ((hallocated j).mpr (.inr rfl)))
      rw [(habout.apart j hne).told hacts]
      exact h.unheard sessionId j fun hknows => hj (hacts.knows j hknows)
    active := fun key x hx => by
      by_cases hid : x.executionId = id
      · exact (hallocated _).mpr (.inr hid)
      · have hold := ((habout.apart _ hid).active key x rfl).mp hx
        exact (hallocated _).mpr (.inl (h.active key x hold))
    finished := fun j success hj => by
      rw [hacts.finished, List.mem_append] at hj
      rcases hj with hold | hnew
      · exact (hallocated j).mpr (.inl (h.finished j success hold))
      · exact (hallocated j).mpr (.inr (habout.ending _ hnew))
    tale := fun j hj => by
      by_cases hid : j = id
      · rw [hid]
        exact htale
      · have hold := ((hallocated j).mp hj).resolve_right hid
        exact (h.tale j hold).frame (habout.apart j hid) hacts hroots }

end Frame

/-! ## The parts of a step -/

section Parts
variable {s : PromptLoop D R H} {worker : ApplicationWorker D R H}
  {entries : List (SessionId × SessionChange D R)}

/-- What is read, answered and counted is not part of it. -/
theorem Tells.events (h : Tells s) (events : List ExecutionWorkerEvent) (taken : ℕ)
    (answers : List (ℕ × Except ApplicationError (Reply R))) (inputClosed : Bool) :
    Tells { s with events, taken, answers, inputClosed } where
  rooted := h.rooted
  distinct := h.distinct
  known := h.known
  unheard := h.unheard
  active := h.active
  finished := h.finished
  tale id hid := { h.tale id hid with }

theorem Tells.calls (h : Tells s) (hacts : Acts entries [] [] s.worker worker)
    (hnone : ∀ entry ∈ entries, executionOf entry.2 = none) : Tells { s with worker } :=
  h.aside hacts hnone rfl rfl fun _ hid => hid

/-- A task sends an event. -/
theorem Tells.send (h : Tells s) (i : ℕ) (event : AgentTask → ExecutionWorkerEvent)
    (result : Option RunResult) : Tells (s.send i event result) := by
  unfold PromptLoop.send
  cases hsender : s.tasks[i]? with
  | none => exact h
  | some sender =>
    dsimp only
    split_ifs with hfull
    · exact h
    have hwaits : sender.result = none := by simpa using (not_or.mp hfull).1
    refine h.aside (Wrote.refl s.worker).acts (by simp) rfl rfl ?_
    rintro id ⟨j,task,text,htask,hid,hresult,hrest⟩
    have hne : j ≠ i := by
      rintro rfl
      cases hsender.symm.trans htask
      rw [hwaits] at hresult
      cases hresult
    refine ⟨j,task,text,?_,hid,hresult,hrest⟩
    rw [List.getElem?_set_ne (Ne.symm hne)]
    exact htask

/-- An execution is made and finished at once, without a word in the journals. -/
theorem Tells.failed (h : Tells s) {id : String} (number : ℕ)
    (hacts : Acts entries [id] [(id,false)] s.worker worker)
    (hnone : ∀ entry ∈ entries, executionOf entry.2 = none) :
    Tells { s with worker, roots := s.roots ++ [(number,id)] } := by
  obtain ⟨hfresh,-⟩ := hacts.fresh id (List.mem_singleton_self id)
  have hnew : id ∉ s.worker.allocated := fun hid => hfresh (h.known id hid)
  have hunheard : ∀ sessionId, worker.told sessionId id = [] := by
    intro sessionId
    rw [hacts.told, named_of_aside hnone, List.append_nil]
    exact h.unheard sessionId id hfresh
  have habout : About s { s with worker, roots := s.roots ++ [(number,id)] } entries [id]
      [(id,false)] id :=
    { acts := hacts
      origin := .inr ⟨rfl,number,rfl⟩
      ending := by simp
      apart := fun j hj => ⟨fun sessionId => named_of_aside hnone sessionId j,by simp [hj],
        fun _ _ _ => Iff.rfl,fun hsucceeded => hsucceeded⟩ }
  refine h.about _ habout { begun := ?_, ended := ?_, completed := ?_, success := ?_ }
  · rintro key x hx rfl
    exact absurd (h.active key x hx) hnew
  · intro _
    refine ⟨⟨false,?_⟩,fun sessionId => ?_,fun _ sessionId => .inl (hunheard sessionId)⟩
    · rw [hacts.finished]
      exact List.mem_append_right _ (List.mem_singleton_self _)
    · rw [hunheard]
      exact .unheard
  · intro sessionId hmem
    rw [hunheard] at hmem
    cases hmem
  · intro hfinished
    rw [hacts.finished, List.mem_append] at hfinished
    rcases hfinished with hold | heq
    · exact absurd (h.finished id true hold) hnew
    · simp at heq

/-- An execution starts. -/
theorem Tells.started (h : Tells s) {id : String} {request : PromptInput}
    (hacts : Acts [userMessage request,runningEntry request.sessionId id] [id] [] s.worker worker)
    (hfree : s.active.get? request.sessionId.text = none) (number taken : ℕ) :
    Tells { s with
      taken, worker
      roots := s.roots ++ [(number,id)]
      active := s.active.insert request.sessionId.text ⟨id,s.tasks.length,number⟩
      tasks := s.tasks ++ [⟨request.sessionId,id,none⟩] } := by
  obtain ⟨hfresh,-⟩ := hacts.fresh id (List.mem_singleton_self id)
  have hnew : id ∉ s.worker.allocated := fun hid => hfresh (h.known id hid)
  have honly : OnlyNames [userMessage (D := D) (R := R) request,
      runningEntry request.sessionId id] request.sessionId id := by
    simp [OnlyNames, userMessage, runningEntry, executionOf]
  have hrunning : named [userMessage (D := D) (R := R) request,runningEntry request.sessionId id]
      request.sessionId id = [.execution id (.state .running)] := by
    simp [named, written, userMessage, runningEntry, executionOf]
  have htold : ∀ sessionId, worker.told sessionId id =
      named [userMessage request,runningEntry request.sessionId id] sessionId id := by
    intro sessionId
    rw [hacts.told, h.unheard sessionId id hfresh, List.nil_append]
  refine h.about id ⟨hacts,.inr ⟨rfl,number,rfl⟩,by simp,fun j hj => ?_⟩ ?_
  · refine ⟨fun sessionId => honly.named_of_ne fun heq => hj heq.2,by simp,fun key x hid => ?_,?_⟩
    · rw [BTreeMap.get?_insert]
      split_ifs with hkey
      · rw [hkey, hfree]
        constructor
        · rintro heq
          cases heq
          exact absurd hid.symm hj
        · simp
      · exact Iff.rfl
    · rintro ⟨i,task,text,htask,hid,hresult,hcancelled,hother⟩
      have hlt := (List.getElem?_eq_some_iff.mp htask).1
      refine ⟨i,task,text,List.getElem?_append_left hlt ▸ htask,hid,hresult,hcancelled,?_⟩
      intro key x hx
      rw [BTreeMap.get?_insert] at hx
      split_ifs at hx
      · cases hx
        exact Nat.ne_of_gt hlt
      · exact hother key x hx
  · refine { begun := ?_, ended := ?_, completed := ?_, success := ?_ }
    · intro key x hx hid
      rw [BTreeMap.get?_insert] at hx
      split_ifs at hx with hkey
      · cases hx
        refine ⟨List.mem_append_right _ (List.mem_singleton_self _),fun sessionId => ⟨?_,?_⟩⟩
        · intro heq
          rw [htold, Identifier.text_injective (heq.trans hkey), hrunning]
          exact ⟨[],rfl,by simp⟩
        · intro hne
          rw [htold]
          exact honly.named_of_ne fun heq => hne (heq.1 ▸ hkey.symm)
      · exact absurd (hid ▸ h.active key x hx) hnew
    · intro hnone
      refine absurd rfl (hnone request.sessionId.text ⟨id,s.tasks.length,number⟩ ?_)
      rw [BTreeMap.get?_insert, if_pos rfl]
    · intro sessionId hmem
      rw [htold] at hmem
      simp [mem_named, userMessage, runningEntry] at hmem
    · intro hfinished
      rw [hacts.finished, List.append_nil] at hfinished
      exact absurd (h.finished id true hfinished) hnew

section Entry
variable {sessionId : SessionId} {x : ActiveExecution}

/-- The other entries stay when one is taken out. -/
theorem active_erase (hx : s.active.get? sessionId.text = some x)
    (key : String) (y : ActiveExecution) (hy : y.executionId ≠ x.executionId) :
    (s.active.erase sessionId.text).get? key = some y ↔ s.active.get? key = some y := by
  rw [BTreeMap.get?_erase]
  split_ifs with hkey
  · rw [hkey, hx]
    constructor
    · exact nofun
    · intro heq
      cases heq
      exact absurd rfl hy
  · exact Iff.rfl

/-- An active execution gets a change that is no state. -/
theorem Tells.progressed (h : Tells s) (hsound : Sound s)
    (hx : s.active.get? sessionId.text = some x)
    (hacts : Acts entries [] [] s.worker worker) (honly : OnlyNames entries sessionId x.executionId)
    (hsilent : ∀ change ∈ named entries sessionId x.executionId, stateOf change = none) :
    Tells { s with worker } := by
  have hold := h.tale x.executionId (h.active _ _ hx)
  refine h.about x.executionId ⟨hacts,.inl ⟨rfl,h.active _ _ hx,rfl⟩,nofun,fun j hj =>
    ⟨fun j' => honly.named_of_ne fun heq => hj heq.2,nofun,fun _ _ _ => Iff.rfl,id⟩⟩ ?_
  refine { begun := ?_, ended := ?_, completed := ?_, success := ?_ }
  · intro key y hy hid
    have hkey := hsound.entry_unique hy hx hid
    subst hkey
    cases hx.symm.trans hy
    obtain ⟨hroot,htold⟩ := hold.begun _ x hx rfl
    refine ⟨hroot,fun j => ⟨fun heq => ?_,fun hne => ?_⟩⟩
    · rw [hacts.told, Identifier.text_injective heq]
      exact ((htold sessionId).1 rfl).append hsilent
    · rw [hacts.told, (htold j).2 hne]
      exact honly.named_of_ne fun heq => hne (congrArg Identifier.text heq.1)
  · exact fun hnone => absurd rfl (hnone _ x hx)
  · intro j hmem
    rw [hacts.told, List.mem_append] at hmem
    rcases hmem with hmem | hmem
    · obtain ⟨hcompleted,hfinished⟩ := hold.completed j hmem
      exact ⟨hacts.completed hcompleted,hacts.finished ▸ List.mem_append_left _ hfinished⟩
    · cases hsilent _ (honly.at_session hmem)
  · intro hfinished
    rw [hacts.finished, List.append_nil] at hfinished
    exact hold.success hfinished

/-- An active execution ends and its entry is taken out. -/
theorem Tells.closed (h : Tells s) (hsound : Sound s)
    (hx : s.active.get? sessionId.text = some x) {success : Bool} (cancelled : List ℕ)
    (hacts : Acts entries [] [(x.executionId,success)] s.worker worker)
    (honly : OnlyNames entries sessionId x.executionId)
    (hclosing : Closing x.executionId worker.appendFailed (named entries sessionId x.executionId))
    (hcompleted : .execution x.executionId (.state .completed) ∈
      named entries sessionId x.executionId → worker.Completed x.executionId ∧ success = true)
    (hsucceeded : success = true → Succeeded { s with
      worker, cancelled, active := s.active.erase sessionId.text } x.executionId)
    (hcancelled : ∀ i ∈ cancelled, i ∈ s.cancelled ∨ i = x.cancellation) :
    Tells { s with worker, cancelled, active := s.active.erase sessionId.text } := by
  have hold := h.tale x.executionId (h.active _ _ hx)
  obtain ⟨-,htold⟩ := hold.begun _ x hx rfl
  have hfinished : (x.executionId,success) ∈ worker.finished := by
    rw [hacts.finished]
    exact List.mem_append_right _ (List.mem_singleton_self _)
  obtain ⟨hstory,hended⟩ := ((htold sessionId).1 rfl).closed hclosing
  have hother : ∀ j, j ≠ sessionId → worker.told j x.executionId = [] := by
    intro j hj
    rw [hacts.told, (htold j).2 fun heq => hj (Identifier.text_injective heq)]
    exact honly.named_of_ne fun heq => hj heq.1
  refine h.about x.executionId ⟨hacts,.inl ⟨rfl,h.active _ _ hx,rfl⟩,by simp,fun j hj => ?_⟩ ?_
  · refine ⟨fun j' => honly.named_of_ne fun heq => hj heq.2,by simp [hj],fun key y hy => ?_,?_⟩
    · exact active_erase hx key y (hy ▸ hj)
    · rintro ⟨i,task,text,htask,hid,hresult,hnot,hkeys⟩
      refine ⟨i,task,text,htask,hid,hresult,fun hi => ?_,fun key y hy => ?_⟩
      · rcases hcancelled i hi with hi | rfl
        · exact hnot hi
        · exact hkeys _ x hx rfl
      · rw [BTreeMap.get?_erase] at hy
        split_ifs at hy
        exact hkeys key y hy
  · refine { begun := ?_, ended := ?_, completed := ?_, success := ?_ }
    · intro key y hy hid
      rw [BTreeMap.get?_erase] at hy
      split_ifs at hy with hkey
      exact absurd (hsound.entry_unique hy hx hid) hkey
    · intro _
      refine ⟨⟨success,hfinished⟩,fun j => ?_,fun hnot j => ?_⟩
      · by_cases hj : j = sessionId
        · rw [hj, hacts.told]
          exact hstory
        · rw [hother j hj]
          exact .unheard
      · by_cases hj : j = sessionId
        · rw [hj, hacts.told]
          exact .inr (hended hnot)
        · exact .inl (hother j hj)
    · intro j hmem
      by_cases hj : j = sessionId
      · rw [hj, hacts.told, List.mem_append] at hmem
        rcases hmem with hmem | hmem
        · exact absurd hmem ((htold sessionId).1 rfl).not_completed
        · obtain ⟨hdone,rfl⟩ := hcompleted hmem
          exact ⟨hdone,hfinished⟩
      · rw [hother j hj] at hmem
        cases hmem
    · intro hdone
      rw [hacts.finished, List.mem_append, List.mem_singleton] at hdone
      rcases hdone with hdone | heq
      · obtain ⟨i,task,text,htask,hid,-,-,hkeys⟩ := hold.success hdone
        obtain ⟨own,hown,howner,-⟩ := hsound.entry _ x hx
        have hindex : x.cancellation = i :=
          hsound.task_unique hown htask (howner.trans hid.symm)
        exact absurd hindex (hkeys _ x hx)
      · cases heq
        exact hsucceeded rfl

end Entry

end Parts

end PromptLoop

end PhenixConductor.Application
