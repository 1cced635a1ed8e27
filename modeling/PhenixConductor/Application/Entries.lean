import PhenixConductor.Application.Endings
import PhenixConductor.Collections.Entries

/-! # The entries of the loop

Every invocation is answered once, and every active execution has a task of its own that still
owes its result.
-/
namespace PhenixConductor.Application
open Collections Contract Client BTreeMap

variable {D R H : Type}

namespace PromptLoop

/-- The entries and the tasks of the loop fit together. -/
structure Sound (s : PromptLoop D R H) : Prop where
  known : ∀ (i : ℕ) (task : AgentTask), s.tasks[i]? = some task → s.worker.Knows task.executionId
  distinct : (s.tasks.map (·.executionId)).Nodup
  entry : ∀ key x, s.active.get? key = some x → ∃ task, s.tasks[x.cancellation]? = some task ∧
    task.executionId = x.executionId ∧ task.sessionId.text = key
  flagged : ∀ i ∈ s.cancelled, i < s.tasks.length ∧
    ∀ key x, s.active.get? key = some x → x.cancellation ≠ i
  answered : (s.answers.map (·.1) ++ s.active.values.map (·.prompt)).Perm (List.range s.taken)
  sent : ∀ event ∈ s.events, ∃ (i : ℕ) (task : AgentTask), s.tasks[i]? = some task ∧
    event.sessionId = task.sessionId ∧ event.executionId = task.executionId ∧
      ∀ sessionId executionId result, event = .complete sessionId executionId result →
        task.result = some result
  pending : ∀ key x, s.active.get? key = some x → ∀ task, s.tasks[x.cancellation]? = some task →
    task.result = none ∨ ∃ result, .complete task.sessionId task.executionId result ∈ s.events

theorem sound_start (worker : ApplicationWorker D R H) : Sound (start worker) where
  known := by simp [start]
  distinct := by simp [start]
  entry := by simp [start]
  flagged := by simp [start]
  answered := by simp [start, values, empty]
  sent := by simp [start]
  pending := by simp [start]

section Parts
variable {s : PromptLoop D R H}

section
variable (h : Sound s)
include h

/-- The worker may do what it likes, as long as no execution disappears. -/
theorem Sound.worker {worker : ApplicationWorker D R H}
    (hknown : ∀ id, s.worker.Knows id → worker.Knows id) (roots : List (ℕ × String)) :
    Sound { s with worker, roots } where
  known i task htask := hknown _ (h.known i task htask)
  distinct := h.distinct
  entry := h.entry
  flagged := h.flagged
  answered := h.answered
  sent := h.sent
  pending := h.pending

/-- Every task runs an execution of its own. -/
theorem Sound.task_unique {i j : ℕ} {task task' : AgentTask}
    (htask : s.tasks[i]? = some task) (htask' : s.tasks[j]? = some task')
    (hid : task.executionId = task'.executionId) : i = j := by
  have hlt := (List.getElem?_eq_some_iff.mp htask).1
  apply (List.getElem?_inj (by simpa using hlt) h.distinct).mp
  simp [htask, htask', hid]

/-- The execution of an entry is the one of exactly one task. -/
theorem Sound.entry_unique {key key' : String} {x x' : ActiveExecution}
    (hx : s.active.get? key = some x) (hx' : s.active.get? key' = some x')
    (hid : x.executionId = x'.executionId) : key = key' := by
  obtain ⟨task,htask,hexecution,hkey⟩ := h.entry key x hx
  obtain ⟨task',htask',hexecution',hkey'⟩ := h.entry key' x' hx'
  have hindex : x.cancellation = x'.cancellation :=
    h.task_unique htask htask' (hexecution.trans (hid.trans hexecution'.symm))
  rw [hindex] at htask
  cases htask.symm.trans htask'
  exact hkey.symm.trans hkey'

/-- An invocation that is taken and answered. -/
theorem Sound.take (answer : Except ApplicationError (Reply R)) :
    Sound (respond { s with taken := s.taken + 1 } s.taken answer) where
  known := h.known
  distinct := h.distinct
  entry := h.entry
  flagged := h.flagged
  answered := by
    have hperm := h.answered
    simp only [respond, List.map_append, List.map_cons, List.map_nil, List.append_assoc,
      List.range_succ]
    exact (List.perm_append_comm_assoc _ _ _).trans
      ((hperm.cons s.taken).trans (List.perm_append_singleton _ _).symm)
  sent := h.sent
  pending := h.pending

/-- An active prompt that is answered and taken out. -/
theorem Sound.close {key : String} {x : ActiveExecution}
    (hx : s.active.get? key = some x) (answer : Except ApplicationError (Reply R)) :
    Sound (respond { s with active := s.active.erase key } x.prompt answer) where
  known := h.known
  distinct := h.distinct
  entry j y hy := by
    simp only [respond, get?_erase] at hy
    split_ifs at hy
    exact h.entry j y hy
  flagged i hi := by
    refine ⟨(h.flagged i hi).1,fun j y hy => ?_⟩
    simp only [respond, get?_erase] at hy
    split_ifs at hy
    exact (h.flagged i hi).2 j y hy
  answered := by
    have hperm := h.answered
    have hvalues := (s.active.values_erase_perm hx).map (·.prompt)
    simp only [respond, List.map_append, List.map_cons, List.map_nil, List.append_assoc,
      List.singleton_append]
    exact (hvalues.symm.append_left _).trans hperm
  sent := h.sent
  pending j y hy := by
    simp only [respond, get?_erase] at hy
    split_ifs at hy
    exact h.pending j y hy

/-- The flag of a task is set when its prompt is taken out. -/
theorem Sound.removeCancelled {key : String} {x : ActiveExecution}
    (hx : s.active.get? key = some x) (answer : Except ApplicationError (Reply R)) :
    Sound (respond (s.removeCancelled key x) x.prompt answer) := by
  have hclosed := h.close hx answer
  refine { hclosed with flagged := fun i hi => ?_ }
  rcases List.mem_append.mp hi with hi | hi
  · exact hclosed.flagged i hi
  · rw [List.mem_singleton] at hi
    subst hi
    obtain ⟨task,htask,hexecution,-⟩ := h.entry key x hx
    refine ⟨(List.getElem?_eq_some_iff.mp htask).1,fun j y hy heq => ?_⟩
    simp only [respond, PromptLoop.removeCancelled, get?_erase] at hy
    split_ifs at hy with hj
    obtain ⟨task',htask',hexecution',-⟩ := h.entry j y hy
    rw [heq] at htask'
    cases htask.symm.trans htask'
    exact hj (h.entry_unique hy hx (hexecution'.symm.trans hexecution))

/-- An execution that starts has a new task, and its identity was not known before. -/
theorem Sound.started {worker : ApplicationWorker D R H} {sessionId : SessionId}
    {executionId : String} (hfree : s.active.get? sessionId.text = none)
    (hknown : ∀ id, s.worker.Knows id → worker.Knows id) (hnew : ¬ s.worker.Knows executionId)
    (hmade : worker.Knows executionId) (roots : List (ℕ × String)) :
    Sound { s with
      taken := s.taken + 1
      worker, roots
      active := s.active.insert sessionId.text ⟨executionId,s.tasks.length,s.taken⟩
      tasks := s.tasks ++ [⟨sessionId,executionId,none⟩] } where
  known i task htask := by
    rw [List.getElem?_append] at htask
    split_ifs at htask with hlt
    · exact hknown _ (h.known i task htask)
    · obtain rfl := List.mem_singleton.mp (List.mem_of_getElem? htask)
      exact hmade
  distinct := by
    rw [List.map_append, List.nodup_append]
    refine ⟨h.distinct,List.nodup_singleton _,fun id hid id' hid' => ?_⟩
    obtain rfl := List.mem_singleton.mp hid'
    rintro rfl
    obtain ⟨task,htask,hexecution⟩ := List.mem_map.mp hid
    obtain ⟨i,hi⟩ := List.mem_iff_getElem?.mp htask
    exact hnew (hexecution ▸ h.known i task hi)
  entry key x hx := by
    rw [get?_insert] at hx
    split_ifs at hx with hkey
    · cases hx
      exact ⟨⟨sessionId,executionId,none⟩,by simp,rfl,hkey.symm⟩
    · obtain ⟨task,htask,hrest⟩ := h.entry key x hx
      exact ⟨task,List.getElem?_append_left (List.getElem?_eq_some_iff.mp htask).1 ▸ htask,hrest⟩
  flagged i hi := by
    obtain ⟨hlt,hother⟩ := h.flagged i hi
    refine ⟨by simp only [List.length_append]; omega,fun key x hx => ?_⟩
    rw [get?_insert] at hx
    split_ifs at hx with hkey
    · cases hx
      exact Nat.ne_of_gt hlt
    · exact hother key x hx
  answered := by
    have hperm := h.answered
    have hvalues := (s.active.values_insert_perm (⟨executionId,s.tasks.length,s.taken⟩ :
      ActiveExecution) hfree).map (·.prompt)
    rw [List.range_succ]
    refine (hvalues.append_left _).trans ?_
    exact (List.perm_middle.trans (hperm.cons s.taken)).trans
      (List.perm_append_singleton _ _).symm
  sent event hevent := by
    obtain ⟨i,task,htask,hrest⟩ := h.sent event hevent
    exact ⟨i,task,List.getElem?_append_left (List.getElem?_eq_some_iff.mp htask).1 ▸ htask,hrest⟩
  pending key x hx task htask := by
    rw [get?_insert] at hx
    split_ifs at hx with hkey
    · cases hx
      simp at htask
      exact .inl (htask ▸ rfl)
    · obtain ⟨found,hfound,-⟩ := h.entry key x hx
      rw [List.getElem?_append_left (List.getElem?_eq_some_iff.mp hfound).1] at htask
      exact h.pending key x hx task htask

/-- An event is read when it cannot be the result that an active prompt waits for. -/
theorem Sound.dropEvent {event : ExecutionWorkerEvent}
    {events : List ExecutionWorkerEvent} (hevents : s.events = event :: events)
    (hother : ∀ sessionId executionId result, event = .complete sessionId executionId result →
      s.active.get? sessionId.text = none) : Sound { s with events } := by
  refine { h with
    sent := fun e he => h.sent e (hevents ▸ List.mem_cons_of_mem _ he)
    pending := fun key x hx task htask => ?_ }
  refine (h.pending key x hx task htask).imp id fun ⟨result,hresult⟩ => ?_
  rw [hevents] at hresult
  rcases List.mem_cons.mp hresult with hhead | hrest
  · obtain ⟨found,hfound,-,hkey⟩ := h.entry key x hx
    cases hfound.symm.trans htask
    have hnone := hother _ _ _ hhead.symm
    rw [hkey, hx] at hnone
    cases hnone
  · exact ⟨result,hrest⟩

end

/-- The task `i` with the result that it has sent, and the others as they are. -/
def told (result : Option RunResult) (i j : ℕ) (task : AgentTask) : AgentTask :=
  if j = i then { task with result } else task

section Told
variable (result : Option RunResult) (i j : ℕ) (task : AgentTask)

@[simp] theorem told_sessionId : (told result i j task).sessionId = task.sessionId := by
  unfold told
  split_ifs <;> rfl

@[simp] theorem told_executionId :
    (told result i j task).executionId = task.executionId := by
  unfold told
  split_ifs <;> rfl

theorem told_result :
    (told result i j task).result = if j = i then result else task.result := by
  unfold told
  split_ifs <;> rfl

theorem getElem?_told {tasks : List AgentTask} (h : tasks[i]? = some task) :
    (tasks.set i { task with result })[j]? = tasks[j]?.map (told result i j) := by
  by_cases hj : j = i
  · subst hj
    rw [List.getElem?_set_self (List.getElem?_eq_some_iff.mp h).1, h, Option.map_some,
      told, if_pos rfl]
  · rw [List.getElem?_set_ne (Ne.symm hj)]
    cases tasks[j]? with
    | none => rfl
    | some other => rw [Option.map_some, told, if_neg hj]

end Told

/-- A task that has not sent its result sends an event, which is its result or not. -/
theorem Sound.send (h : Sound s) (i : ℕ) {event : AgentTask → ExecutionWorkerEvent}
    {result : Option RunResult} (hsession : ∀ task, (event task).sessionId = task.sessionId)
    (hexecution : ∀ task, (event task).executionId = task.executionId)
    (hcomplete : ∀ task sessionId executionId r, event task = .complete sessionId executionId r →
      result = some r)
    (hresult : ∀ r, result = some r → ∀ task,
      event task = .complete task.sessionId task.executionId r) : Sound (s.send i event result) := by
  unfold PromptLoop.send
  cases hsender : s.tasks[i]? with
  | none => exact h
  | some sender =>
    dsimp only
    split_ifs with hfull
    · exact h
    have hwaits : sender.result = none := by simpa using (not_or.mp hfull).1
    have hset := fun j => getElem?_told result i j sender hsender
    exact {
      known := fun j task htask => by
        rw [hset, Option.map_eq_some_iff] at htask
        obtain ⟨old,hold,rfl⟩ := htask
        rw [told_executionId]
        exact h.known j old hold
      distinct := by
        have hids : (s.tasks.set i { sender with result }).map (·.executionId) =
            s.tasks.map (·.executionId) := by
          apply List.ext_getElem?
          intro j
          rw [List.getElem?_map, List.getElem?_map, hset, Option.map_map]
          congr 1
          funext old
          exact told_executionId result i j old
        exact hids ▸ h.distinct
      entry := fun key x hx => by
        obtain ⟨task,htask,hrest⟩ := h.entry key x hx
        refine ⟨told result i x.cancellation task,?_,by simpa using hrest⟩
        rw [hset, htask, Option.map_some]
      flagged := fun j hj => by
        rw [List.length_set]
        exact h.flagged j hj
      answered := h.answered
      sent := fun e he => by
        rcases List.mem_append.mp he with he | he
        · obtain ⟨j,task,htask,hid,hname,hdone⟩ := h.sent e he
          refine ⟨j,told result i j task,by rw [hset, htask, Option.map_some],
            by simpa using hid,by simpa using hname,fun sessionId executionId r hr => ?_⟩
          have hold := hdone sessionId executionId r hr
          rw [told_result, if_neg, hold]
          rintro rfl
          cases hsender.symm.trans htask
          rw [hwaits] at hold
          cases hold
        · rw [List.mem_singleton] at he
          subst he
          refine ⟨i,told result i i sender,by rw [hset, hsender, Option.map_some],
            by simpa using hsession sender,by simpa using hexecution sender,
            fun sessionId executionId r hr => ?_⟩
          rw [told_result, if_pos rfl]
          exact hcomplete sender sessionId executionId r hr
      pending := fun key x hx task htask => by
        rw [hset, Option.map_eq_some_iff] at htask
        obtain ⟨old,hold,rfl⟩ := htask
        rw [told_result, told_sessionId, told_executionId]
        by_cases hown : x.cancellation = i
        · rw [if_pos hown]
          cases hr : result with
          | none => exact .inl rfl
          | some r =>
            rw [hown] at hold
            cases hsender.symm.trans hold
            refine .inr ⟨r,List.mem_append_right _ ?_⟩
            rw [hresult r hr sender]
            exact List.mem_singleton_self _
        · rw [if_neg hown]
          refine (h.pending key x hx old hold).imp_right fun ⟨r,hr⟩ => ?_
          exact ⟨r,List.mem_append_left _ hr⟩ }

end Parts

end PromptLoop

end PhenixConductor.Application
