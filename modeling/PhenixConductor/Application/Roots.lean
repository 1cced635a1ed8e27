import PhenixConductor.Application.Effects

/-! # What the operations of the worker do

An operation appends changes to journals, makes executions and issues `FinishExecution`
commands.
-/
namespace PhenixConductor.Application
open Collections Contract Client Execution.ExecutionProjection BTreeMap Execution

variable {D R H : Type}

/-! ## The ledger -/

/-- Executions stay in the ledger, and a completed one stays as it is. -/
structure LedgerKept (before after : ExecutionProjection) : Prop where
  known : ∀ id ∈ before.executions.keys, id ∈ after.executions.keys
  completed : ∀ id execution, before.executions.get? id = some execution →
    execution.state = .completed → after.executions.get? id = some execution

theorem LedgerKept.refl (ledger : ExecutionProjection) : LedgerKept ledger ledger :=
  ⟨fun _ h => h,fun _ _ h _ => h⟩

theorem LedgerKept.trans {a b c : ExecutionProjection} (h : LedgerKept a b) (h' : LedgerKept b c) :
    LedgerKept a c where
  known id hid := h'.known id (h.known id hid)
  completed id execution hget hstate :=
    h'.completed id execution (h.completed id execution hget hstate) hstate

variable {ledger : ExecutionProjection}

/-- A put of a new execution, or of one that is not completed. -/
theorem ledgerKept_putExecution {id : String} {execution : ExecutionRecord}
    (h : ∀ found, ledger.executions.get? id = some found → found.state ≠ .completed) :
    LedgerKept ledger (ledger.putExecution id execution) where
  known j hj := by
    rw [executions_putExecution, mem_keys_insert]
    exact .inr hj
  completed j found hget hstate := by
    rw [executions_putExecution, get?_insert_of_ne]
    · exact hget
    · rintro rfl
      exact h found hget hstate

theorem not_found_of_fresh {id : String} (h : id ∉ ledger.executions.keys) (found : ExecutionRecord)
    (hget : ledger.executions.get? id = some found) : found.state ≠ .completed := by
  rw [(get?_eq_none _).mpr h] at hget
  cases hget

theorem Transition.ledgerKept {context : CallContext} {before next : ExecutionProjection}
    {command : ExecutionCommand} {response : ExecutionResponse}
    (h : Transition context before command response next) : LedgerKept before next := by
  cases h with
  | root creates fresh parent state caller =>
    exact ledgerKept_putExecution (not_found_of_fresh fresh)
  | delegate creates fresh named found generation state authority caller =>
    exact ledgerKept_putExecution (not_found_of_fresh fresh)
  | finish found state =>
    refine ledgerKept_putExecution fun execution hget => ?_
    cases found.symm.trans hget
    simp [state]
  | register | create | start | complete | fail | answer =>
    exact ⟨fun _ hid => hid,fun _ _ hget _ => hget⟩

/-- A step of the execution service, whoever takes it. -/
theorem ledgerKept_step (ledger : ExecutionProjection) (invocation : Execution.Invocation) :
    LedgerKept ledger (ledger.step invocation) := by
  rcases step_transition ledger invocation with ⟨response,h⟩ | h
  · exact Transition.ledgerKept h
  · rw [h]
    exact .refl ledger

/-! ## Operations -/

def ApplicationWorker.Knows (worker : ApplicationWorker D R H) (id : String) : Prop :=
  id ∈ worker.executions.executions.keys

/-- What an operation has done: the changes it has appended, the executions it has made and
the `FinishExecution` commands it has issued. -/
structure Acts (entries : List (SessionId × SessionChange D R)) (made : List String)
    (issued : List (String × Bool)) (before after : ApplicationWorker D R H) : Prop where
  changes : ∀ id, after.sessions.changes id = before.sessions.changes id ++ written entries id
  kept : LedgerKept before.executions after.executions
  allocated : after.allocated = before.allocated ++ made
  fresh : ∀ id ∈ made, ¬ before.Knows id ∧ after.Knows id
  finished : after.finished = before.finished ++ issued
  appendFailed : before.appendFailed = true → after.appendFailed = true

section Acts
variable {entries entries' : List (SessionId × SessionChange D R)} {made made' : List String}
  {issued issued' : List (String × Bool)} {a b c : ApplicationWorker D R H}

theorem Wrote.acts (h : Wrote entries a b) : Acts entries [] [] a b where
  changes := h.changes
  kept := h.executions ▸ .refl _
  allocated := by rw [h.allocated, List.append_nil]
  fresh := nofun
  finished := by rw [h.finished, List.append_nil]
  appendFailed := h.appendFailed

theorem Acts.trans (h : Acts entries made issued a b) (h' : Acts entries' made' issued' b c) :
    Acts (entries ++ entries') (made ++ made') (issued ++ issued') a c where
  changes id := by rw [h'.changes, h.changes, written_append, List.append_assoc]
  kept := h.kept.trans h'.kept
  allocated := by rw [h'.allocated, h.allocated, List.append_assoc]
  fresh id hid := by
    rcases List.mem_append.mp hid with hid | hid
    · exact ⟨(h.fresh id hid).1,h'.kept.known id (h.fresh id hid).2⟩
    · exact ⟨fun hold => (h'.fresh id hid).1 (h.kept.known id hold),(h'.fresh id hid).2⟩
  finished := by rw [h'.finished, h.finished, List.append_assoc]
  appendFailed hfailed := h'.appendFailed (h.appendFailed hfailed)

theorem Acts.knows (h : Acts entries made issued a b) (id : String) (hid : a.Knows id) :
    b.Knows id := h.kept.known id hid

end Acts

/-! ## Calls of the execution service -/

section Calls
variable {setting : ApplicationSetting D R} {command : ExecutionCommand}
  {worker next : ApplicationWorker D R H} {response : ExecutionResponse} {error : ApplicationError}

/-- What a call of the execution service leaves besides the ledger. -/
def Called (worker next : ApplicationWorker D R H) (command : ExecutionCommand) : Prop :=
  next = { worker with
    executions := next.executions
    fates := worker.fates.tail
    allocated := worker.allocated ++ newExecutions worker.executions next.executions
    finished := worker.finished ++ issuedFinish command }

theorem execute_outcome (setting : ApplicationSetting D R) (command : ExecutionCommand)
    (worker : ApplicationWorker D R H) :
    Outcome setting.context command worker.executions
      (execute setting.context (fun _ => ⟨.ok (),.committed⟩) command worker.executions) :=
  Execution.execute_outcome _ command

theorem invokeExecution_eq_ok (h : invokeExecution setting command worker = .ok response next) :
    Transition setting.context worker.executions command response next.executions ∧
      Called worker next command := by
  obtain ⟨hanswer,hnext⟩ := check_eq_ok.mp h
  have hcall : (worker.fates.headD .served).call .failed
      (execute setting.context (fun _ => ⟨.ok (),.committed⟩) command)
      worker.executions = (.ok response,next.executions) := by
    rw [hnext]
    exact Prod.ext hanswer rfl
  have hserved := (CallFate.call_eq_ok hcall).2
  have ho := execute_outcome setting command worker
  rw [hserved] at ho
  cases ho with
  | ok htransition => exact ⟨htransition,by rw [Called, hnext]⟩

/-- Where a call fails, the service may still have done its work. -/
theorem invokeExecution_eq_error (h : invokeExecution setting command worker = .error error next) :
    Called worker next command ∧
      (next.executions = worker.executions ∨ ∃ response,
        Transition setting.context worker.executions command response next.executions) := by
  unfold invokeExecution at h
  dsimp only at h
  have hstate := (worker.fates.headD .served).call_state .failed
    (execute setting.context (fun _ => ⟨.ok (),.committed⟩) command) worker.executions
  generalize (worker.fates.headD .served).call .failed
    (execute setting.context (fun _ => ⟨.ok (),.committed⟩) command)
    worker.executions = result at h hstate
  obtain ⟨answer,executions⟩ := result
  cases answer with
  | ok response => cases h
  | error failure =>
    cases h
    refine ⟨rfl,?_⟩
    rcases hstate with hsame | hafter
    · exact .inl hsame
    have ho := execute_outcome setting command worker
    rw [hafter]
    cases hexecute : execute setting.context (fun _ => ⟨.ok (),.committed⟩) command
        worker.executions with
    | ok response ledger =>
      rw [hexecute] at ho
      cases ho with
      | ok htransition => exact .inr ⟨response,by rwa [after_ok hexecute]⟩
    | error failure ledger =>
      rw [hexecute] at ho
      rw [after_error hexecute]
      cases ho
      exact .inl rfl

end Calls

theorem newExecutions_eq_nil {before after : ExecutionProjection}
    (h : ∀ id ∈ after.executions.keys, id ∈ before.executions.keys) :
    newExecutions before after = [] := by
  apply List.filter_eq_nil_iff.mpr
  intro id hid
  simp [h id hid]

theorem newExecutions_putExecution {id : String} (execution : ExecutionRecord)
    (h : id ∉ ledger.executions.keys) :
    newExecutions ledger (ledger.putExecution id execution) = [id] := by
  have hnodup : ((ledger.executions.insert id execution).keys.filter
      (· ∉ ledger.executions.keys)).Nodup := (nodup_keys _).filter _
  have hmem : ∀ j, j ∈ (ledger.executions.insert id execution).keys.filter
      (· ∉ ledger.executions.keys) ↔ j = id := by
    intro j
    rw [List.mem_filter, mem_keys_insert, decide_eq_true_eq]
    constructor
    · rintro ⟨hj | hj,hnot⟩
      · exact hj
      · exact absurd hj hnot
    · rintro rfl
      exact ⟨.inl rfl,h⟩
  exact List.perm_singleton.mp
    ((List.perm_ext_iff_of_nodup hnodup (List.nodup_singleton id)).mpr fun j => by
      rw [hmem, List.mem_singleton])

section Finish
variable {setting : ApplicationSetting D R} {id : String} {success : Bool}
  {worker next : ApplicationWorker D R H}

theorem finish_transition {ledger after : ExecutionProjection} {context : CallContext}
    {response : ExecutionResponse}
    (h : Transition context ledger (.finishExecution id success) response after) :
    newExecutions ledger after = [] ∧ ∃ execution, response = .execution execution ∧
      after.executions.get? id = some execution ∧
        execution.state = if success then .completed else .failed := by
  cases h with
  | root creates | delegate creates | answer creates => cases creates
  | finish found state =>
    refine ⟨newExecutions_eq_nil fun j hj => ?_,_,rfl,?_,rfl⟩
    · rw [executions_putExecution,mem_keys_insert] at hj
      rcases hj with rfl | hj
      · exact (mem_keys_iff _).mpr (by rw [found]; rfl)
      · exact hj
    · rw [executions_putExecution, get?_insert, if_pos rfl]

theorem Called.acts_finish (h : Called worker next (.finishExecution id success))
    (hkept : LedgerKept worker.executions next.executions)
    (hnew : newExecutions worker.executions next.executions = []) :
    Acts [] [] [(id,success)] worker next := by
  have hexecutions : LedgerKept worker.executions next.executions := hkept
  rw [h]
  exact ⟨by simp,hexecutions,by simp [hnew],nofun,rfl,fun hfailed => hfailed⟩

/-- The command is issued, whatever becomes of it. -/
theorem finishRootExecution_acts (setting : ApplicationSetting D R) (id : String)
    (success : Bool) (worker : ApplicationWorker D R H) :
    Acts [] [] [(id,success)] worker (after (finishRootExecution setting id success) worker) := by
  unfold finishRootExecution
  cases h : invokeExecution setting (.finishExecution id success) worker with
  | ok response next =>
    obtain ⟨htransition,hcalled⟩ := invokeExecution_eq_ok h
    obtain ⟨hnew,execution,rfl,-⟩ := finish_transition htransition
    rw [after, stateful_bind_ok h]
    exact hcalled.acts_finish (Transition.ledgerKept htransition) hnew
  | error error next =>
    obtain ⟨hcalled,hsame | ⟨response,htransition⟩⟩ := invokeExecution_eq_error h
    · rw [after_error (stateful_bind_error h)]
      refine hcalled.acts_finish (hsame ▸ .refl _) ?_
      rw [hsame]
      exact newExecutions_eq_nil fun _ hid => hid
    · rw [after_error (stateful_bind_error h)]
      exact hcalled.acts_finish (Transition.ledgerKept htransition)
        (finish_transition htransition).1

theorem finishRootExecution_eq_ok
    (h : finishRootExecution setting id success worker = .ok () next) :
    Acts [] [] [(id,success)] worker next ∧ ∃ execution,
      next.executions.executions.get? id = some execution ∧
        execution.state = if success then .completed else .failed := by
  have hacts := finishRootExecution_acts setting id success worker
  rw [after_ok h] at hacts
  refine ⟨hacts,?_⟩
  obtain ⟨response,invoked,hinvoke,h⟩ := stateful_bind_eq_ok.mp h
  obtain ⟨htransition,-⟩ := invokeExecution_eq_ok hinvoke
  obtain ⟨-,execution,rfl,hget,hstate⟩ := finish_transition htransition
  cases h
  exact ⟨execution,hget,hstate⟩

end Finish

section Allocate
variable {setting : ApplicationSetting D R} {worker next : ApplicationWorker D R H}

variable {authority : Execution.ExecutionAuthority}

theorem allocate_transition {ledger after : ExecutionProjection} {context : CallContext}
    {idPrefix : String} {response : ExecutionResponse}
    (h : Transition context ledger (.allocateExecution idPrefix authority) response after) :
    ∃ execution, response = .execution execution ∧ execution.id ∉ ledger.executions.keys ∧
      after = ledger.putExecution execution.id execution := by
  cases h with
  | root creates fresh => exact ⟨_,rfl,fresh,rfl⟩
  | delegate creates fresh => exact ⟨_,rfl,fresh,rfl⟩
  | answer reads => cases reads

theorem Called.acts_allocate {idPrefix : String} {execution : ExecutionRecord}
    (h : Called worker next (.allocateExecution idPrefix authority))
    (hfresh : execution.id ∉ worker.executions.executions.keys)
    (hnext : next.executions = worker.executions.putExecution execution.id execution) :
    Acts [] [execution.id] [] worker next := by
  have hknown : ∀ id ∈ [execution.id], ¬ worker.Knows id ∧
      id ∈ (worker.executions.putExecution execution.id execution).executions.keys := by
    intro id hid
    rw [List.mem_singleton] at hid
    subst hid
    refine ⟨hfresh,?_⟩
    rw [executions_putExecution, mem_keys_insert]
    exact .inl rfl
  rw [h,hnext]
  exact ⟨by simp,ledgerKept_putExecution (not_found_of_fresh hfresh),
    by simp [newExecutions_putExecution execution hfresh],hknown,
    rfl,fun hfailed => hfailed⟩

/-- The registration of the budget touches nothing that is modelled. -/
theorem silent_registerRootBudget : Moves Silent (registerRootBudget : WorkerM D R H Unit) := by
  intro worker
  refine (after_check _ _).symm ▸ ?_
  exact ⟨by simp,rfl,rfl,rfl,id⟩

/-- A clean-up issues a finish and passes the error on. -/
theorem finish_and_throw {α : Type} (id : String) (error : ApplicationError)
    (worker : ApplicationWorker D R H) :
    (do
      ignored (finishRootExecution setting id false)
      throw error : WorkerM D R H α) worker =
        .error error (after (finishRootExecution setting id false) worker) := rfl

theorem allocateRootExecution_eq_ok {id : String}
    (h : allocateRootExecution setting worker = .ok id next) : Acts [] [id] [] worker next := by
  obtain ⟨response,allocated,hallocate,h⟩ := stateful_bind_eq_ok.mp h
  obtain ⟨htransition,hcalled⟩ := invokeExecution_eq_ok hallocate
  obtain ⟨execution,rfl,hfresh,hledger⟩ := allocate_transition htransition
  have hacts := hcalled.acts_allocate hfresh hledger
  obtain ⟨_,registered,hregister,h⟩ := stateful_bind_eq_ok.mp h
  cases h
  cases hbudget : registerRootBudget allocated with
  | ok _ after =>
    rw [tryCatch_of_ok hbudget] at hregister
    cases hregister
    exact hacts.trans (silent_registerRootBudget.ok hbudget).acts
  | error error after =>
    rw [tryCatch_of_error hbudget] at hregister
    cases hregister

/-- An allocation whose call fails has made no execution: no answer of it is lost. -/
def AllocationAnswered (setting : ApplicationSetting D R) (worker : ApplicationWorker D R H) : Prop :=
  ∀ error next, invokeExecution setting (.allocateExecution "execution-" ⟨.empty⟩) worker =
    .error error next → next.allocated = worker.allocated

/-- How an execution is not handed to the prompt: it is not allocated, it is allocated and
finished, or the answer of the allocation is lost. -/
theorem allocateRootExecution_eq_error {error : ApplicationError}
    (h : allocateRootExecution setting worker = .error error next) :
    Acts [] [] [] worker next ∨ (∃ id, Acts [] [id] [(id,false)] worker next) ∨
      ∃ id, Acts [] [id] [] worker next ∧ ¬AllocationAnswered setting worker := by
  rcases stateful_bind_eq_error.mp h with hallocate | ⟨response,allocated,hallocate,h⟩
  · obtain ⟨hcalled,hsame | ⟨response,htransition⟩⟩ := invokeExecution_eq_error hallocate
    · left
      have hnew : newExecutions worker.executions worker.executions = [] :=
        newExecutions_eq_nil fun _ hid => hid
      rw [hcalled,hsame]
      exact ⟨by simp,.refl _,by simp [hnew],nofun,rfl,fun hfailed => hfailed⟩
    · obtain ⟨execution,rfl,hfresh,hledger⟩ := allocate_transition htransition
      have hacts := hcalled.acts_allocate hfresh hledger
      refine .inr (.inr ⟨execution.id,hacts,fun hanswered => ?_⟩)
      have hallocated := hacts.allocated
      rw [hanswered error next hallocate] at hallocated
      simp at hallocated
  · obtain ⟨htransition,hcalled⟩ := invokeExecution_eq_ok hallocate
    obtain ⟨execution,rfl,hfresh,hledger⟩ := allocate_transition htransition
    have hacts := hcalled.acts_allocate hfresh hledger
    rcases stateful_bind_eq_error.mp h with hregister | ⟨_,registered,-,h⟩
    · cases hbudget : registerRootBudget allocated with
      | ok _ after =>
        rw [tryCatch_of_ok hbudget] at hregister
        cases hregister
      | error failure after =>
        rw [tryCatch_of_error hbudget] at hregister
        cases hregister
        have hsilent := silent_registerRootBudget.failsAlong _ _ _ hbudget
        exact .inr (.inl ⟨execution.id,(hacts.trans hsilent.acts).trans
          (finishRootExecution_acts setting execution.id false after)⟩)
    · cases h

end Allocate

end PhenixConductor.Application
