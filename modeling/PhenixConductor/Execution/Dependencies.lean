import PhenixConductor.Execution.ResourceSteps
import PhenixConductor.Collections.Digraph

/-! # The dependencies of delegated tasks

A task that is created after everything it depends on closes no circle, so a store that waits
for nothing that runs or has failed always has a task that can be started.
-/
namespace PhenixConductor.Execution
open Collections Relation
open DelegatedWorkerTaskRecord (withState)

inductive DelegatedTaskCall
  | create (task : WorkerTaskRecord) (binding : DelegationTaskBinding)
      (parentAuthority : ExecutionAuthority) (policy : DelegationResourcePolicy) (nowMs : U64)
  | start (taskId executionId : String) (nowMs : U64)
  | complete (taskId executionId : String) (result : DelegatedWorkerResult)
  | fail (taskId executionId cause : String)

namespace DelegatedTaskCall

def perform : DelegatedTaskCall → StoreM DelegatedWorkerTaskRecord
  | .create task binding parentAuthority policy nowMs =>
    DelegatedTaskStore.create task binding parentAuthority policy nowMs
  | .start taskId executionId nowMs => DelegatedTaskStore.start taskId executionId nowMs
  | .complete taskId executionId result => DelegatedTaskStore.complete taskId executionId result
  | .fail taskId executionId cause => DelegatedTaskStore.fail taskId executionId cause

/-- The call succeeds. -/
def Accepted (store : DelegatedTaskStore) (call : DelegatedTaskCall) : Prop :=
  ∃ record next, call.perform store = .ok record next

/-- The task is created, and in a state in which it would be after its completion. -/
def CreatesCompleted (taskId : String) (store : DelegatedTaskStore) (call : DelegatedTaskCall) :
    Prop :=
  Accepted store call ∧ ∃ task binding parentAuthority policy nowMs,
    call = .create task binding parentAuthority policy nowMs ∧ task.id = taskId ∧
      task.state.isCompleted

def Completes (taskId : String) (store : DelegatedTaskStore) (call : DelegatedTaskCall) : Prop :=
  Accepted store call ∧ ∃ executionId result, call = .complete taskId executionId result

end DelegatedTaskCall

namespace DelegatedTaskStore

def empty : DelegatedTaskStore := ⟨.empty⟩

/-- The store after a call, whether it succeeds or fails. -/
def step (self : DelegatedTaskStore) (call : DelegatedTaskCall) : DelegatedTaskStore :=
  after call.perform self

def run (self : DelegatedTaskStore) (calls : List DelegatedTaskCall) : DelegatedTaskStore :=
  runAll step self calls

def DependsOn (self : DelegatedTaskStore) (taskId dependency : String) : Prop :=
  ∃ record, self.tasks.get? taskId = some record ∧ dependency ∈ record.task.dependsOn.keys

/-- Something waits, and nothing runs or has failed. -/
structure Waits (now : DelegatedTaskStore) : Prop where
  pending : ∃ id record, now.tasks.get? id = some record ∧ record.task.state = .pending
  idle : ∀ id record, now.tasks.get? id = some record →
    record.task.state = .pending ∨ record.task.state.isCompleted

end DelegatedTaskStore

/-- No run comes to a standstill over dependencies, and none of them is passed over. -/
structure Scheduled (calls : List DelegatedTaskCall) : Prop where
  dag : ∀ before, before <+: calls → Acyclic (DelegatedTaskStore.empty.run before).DependsOn
  known : ∀ before, before <+: calls → ∀ taskId dependency,
    (DelegatedTaskStore.empty.run before).DependsOn taskId dependency →
      dependency ∈ (DelegatedTaskStore.empty.run before).tasks.keys
  progress : ∀ before, before <+: calls → (DelegatedTaskStore.empty.run before).Waits →
    (DelegatedTaskStore.empty.run before).runnable ≠ []
  started : ∀ before taskId executionId nowMs,
    before ++ [.start taskId executionId nowMs] <+: calls → ∀ record next,
      DelegatedTaskStore.start taskId executionId nowMs (DelegatedTaskStore.empty.run before) =
        .ok record next → ∀ dependency ∈ record.task.dependsOn.keys,
          Happens DelegatedTaskStore.step (DelegatedTaskCall.Completes dependency) .empty before

/-- The tasks are created in an order of their dependencies, and no task is started whose
dependency was completed by its creation. -/
structure InOrder (calls : List DelegatedTaskCall) : Prop where
  created : ∀ before task binding parentAuthority policy nowMs,
    before ++ [.create task binding parentAuthority policy nowMs] <+: calls →
      (DelegatedTaskCall.create task binding parentAuthority policy nowMs).Accepted
        (DelegatedTaskStore.empty.run before) →
      ∀ dependency ∈ task.dependsOn.keys,
        dependency ∈ (DelegatedTaskStore.empty.run before).tasks.keys
  started : ∀ before taskId executionId nowMs,
    before ++ [.start taskId executionId nowMs] <+: calls →
      (DelegatedTaskCall.start taskId executionId nowMs).Accepted
        (DelegatedTaskStore.empty.run before) →
      ∀ dependency, (DelegatedTaskStore.empty.run before).DependsOn taskId dependency →
        ¬ Happens DelegatedTaskStore.step (DelegatedTaskCall.CreatesCompleted dependency)
          .empty before

namespace DelegatedTaskStore
variable {self : DelegatedTaskStore}

/-- What a call can do. -/
inductive Effect (before : DelegatedTaskStore) : DelegatedTaskCall → DelegatedTaskStore → Prop
  | create {task : WorkerTaskRecord} {binding : DelegationTaskBinding}
      {parentAuthority : ExecutionAuthority} {policy : DelegationResourcePolicy} {nowMs : U64}
      (accepted : DelegatedTaskCall.Accepted before
        (.create task binding parentAuthority policy nowMs))
      (fresh : task.id ∉ before.tasks.keys) :
      Effect before (.create task binding parentAuthority policy nowMs)
        (before.put task.id ⟨task,binding,none⟩)
  | start {taskId executionId : String} {nowMs : U64} {record : DelegatedWorkerTaskRecord}
      (accepted : DelegatedTaskCall.Accepted before (.start taskId executionId nowMs))
      (found : before.tasks.get? taskId = some record) (pending : record.task.state = .pending) :
      Effect before (.start taskId executionId nowMs)
        (before.put taskId (record.withState (.running executionId)))
  | complete {taskId executionId : String} {result : DelegatedWorkerResult}
      {record : DelegatedWorkerTaskRecord}
      (accepted : DelegatedTaskCall.Accepted before (.complete taskId executionId result))
      (found : before.tasks.get? taskId = some record)
      (running : record.task.state = .running executionId) :
      Effect before (.complete taskId executionId result)
        (before.put taskId { record.withState (.completed executionId result.resultRefs) with
          result := some result })
  | fail {taskId executionId cause : String} {record : DelegatedWorkerTaskRecord}
      (accepted : DelegatedTaskCall.Accepted before (.fail taskId executionId cause))
      (found : before.tasks.get? taskId = some record)
      (running : record.task.state = .running executionId) :
      Effect before (.fail taskId executionId cause)
        (before.put taskId (record.withState (.failed executionId cause)))
  | refused {call : DelegatedTaskCall} (refused : ¬ call.Accepted before) : Effect before call before

theorem effect_step (hnamed : self.Named) (call : DelegatedTaskCall) :
    Effect self call (self.step call) := by
  have hstep : ∀ {f : DelegatedTaskStore → Except DelegatedTaskStoreError DelegatedWorkerTaskRecord}
      {taskId : String}, call.perform = answered f (·.put taskId) →
      (∀ record, call.Accepted self → f self = .ok record →
        Effect self call (self.put taskId record)) → Effect self call (self.step call) := by
    intro f taskId hperform h
    cases hf : f self with
    | ok record =>
      have hok : call.perform self = .ok record (self.put taskId record) := by
        rw [hperform, answered_eq, hf]
      rw [step, after_ok hok]
      exact h record ⟨_,_,hok⟩ hf
    | error error =>
      have herror : call.perform self = .error error self := by
        rw [hperform, answered_eq, hf]
      rw [step, after_error herror]
      apply Effect.refused
      rintro ⟨record,next,hok⟩
      cases herror.symm.trans hok
  cases call with
  | create task binding parentAuthority policy nowMs =>
    apply hstep rfl
    intro record haccepted hcreatable
    obtain ⟨hfresh,rfl⟩ := creatable_eq_ok hcreatable
    exact .create haccepted hfresh
  | start taskId executionId nowMs =>
    apply hstep rfl
    intro record haccepted hstartable
    obtain ⟨before,hget,hpending,rfl⟩ := startable_eq_ok hnamed hstartable
    exact .start haccepted hget hpending
  | complete taskId executionId result =>
    apply hstep rfl
    intro record haccepted hcompletable
    obtain ⟨before,hknown,h⟩ := bind_eq_ok.mp hcompletable
    obtain ⟨⟨⟩,hrunning,h⟩ := bind_eq_ok.mp h
    obtain ⟨-,-,h⟩ := bind_eq_ok.mp h
    cases h
    exact .complete haccepted (known_eq_ok.mp hknown) (runningOn_eq_ok.mp hrunning)
  | fail taskId executionId cause =>
    apply hstep rfl
    intro record haccepted hfailable
    obtain ⟨before,hknown,h⟩ := bind_eq_ok.mp hfailable
    obtain ⟨⟨⟩,hrunning,h⟩ := bind_eq_ok.mp h
    cases h
    exact .fail haccepted (known_eq_ok.mp hknown) (runningOn_eq_ok.mp hrunning)

/-- The record of the task is of a kind. -/
def Bears (self : DelegatedTaskStore) (taskId : String)
    (kind : DelegatedWorkerTaskRecord → Prop) : Prop :=
  ∃ record, self.tasks.get? taskId = some record ∧ kind record

variable {taskId : String} {record : DelegatedWorkerTaskRecord}
  {kind : DelegatedWorkerTaskRecord → Prop}

theorem bears_put {j : String} : (self.put taskId record).Bears j kind ↔
      if j = taskId then kind record else self.Bears j kind := by
  unfold Bears
  rw [get?_put]
  split_ifs <;> simp

variable {new : DelegatedWorkerTaskRecord}

/-- A record in the place of one of the same kind. -/
theorem bears_put_of_iff {j : String} (hget : self.tasks.get? taskId = some record)
    (hkind : kind new ↔ kind record) : (self.put taskId new).Bears j kind ↔ self.Bears j kind := by
  rw [bears_put]
  split_ifs with hid
  · rw [hkind, hid, Bears, hget]
    simp
  · rfl

theorem not_bears_of_fresh (hfresh : taskId ∉ self.tasks.keys) : ¬ self.Bears taskId kind := by
  rintro ⟨record,hget,-⟩
  exact hfresh (self.tasks.mem_keys_iff.mpr (by simp [hget]))

def HasResult (record : DelegatedWorkerTaskRecord) : Prop := record.result ≠ none

/-- Completed, but not with a result. -/
def CameCompleted (record : DelegatedWorkerTaskRecord) : Prop :=
  record.task.state.isCompleted ∧ record.result = none

open DelegatedTaskCall (Completes CreatesCompleted)
/-- A result comes only with the completion of the task. -/
theorem hasResult_step (hnamed : self.Named) (call : DelegatedTaskCall) (taskId : String) :
    (self.step call).Bears taskId HasResult ↔
      self.Bears taskId HasResult ∨ Completes taskId self call := by
  have hother : (∀ executionId result, call ≠ .complete taskId executionId result) →
      ¬ Completes taskId self call := by
    rintro hne ⟨-,executionId,result,hcall⟩
    exact hne executionId result hcall
  have heffect := effect_step hnamed call
  generalize self.step call = next at heffect ⊢
  cases heffect with
  | create haccepted hfresh =>
    rw [bears_put, or_iff_left (hother nofun)]
    split_ifs with hid
    · exact iff_of_false (fun h => h rfl) (hid ▸ not_bears_of_fresh hfresh)
    · rfl
  | start haccepted hfound hpending =>
    rw [or_iff_left (hother nofun)]
    exact bears_put_of_iff hfound Iff.rfl
  | @complete completedId executionId result record haccepted hfound hrunning =>
    rw [bears_put]
    split_ifs with hid
    · exact iff_of_true nofun (.inr ⟨haccepted,executionId,result,by rw [hid]⟩)
    · refine (or_iff_left (hother fun _ _ hcall => ?_)).symm
      cases hcall
      exact hid rfl
  | fail haccepted hfound hrunning =>
    rw [or_iff_left (hother nofun)]
    exact bears_put_of_iff hfound Iff.rfl
  | refused hrefused => exact (or_iff_left fun h => hrefused h.1).symm

/-- A task that is completed without a result was created so. -/
theorem cameCompleted_step (hnamed : self.Named) (call : DelegatedTaskCall) (taskId : String) :
    (self.step call).Bears taskId CameCompleted ↔
      self.Bears taskId CameCompleted ∨ CreatesCompleted taskId self call := by
  have hother : (∀ task binding parentAuthority policy nowMs,
      call ≠ .create task binding parentAuthority policy nowMs) →
      ¬ CreatesCompleted taskId self call := by
    rintro hne ⟨-,task,binding,parentAuthority,policy,nowMs,hcall,-⟩
    exact hne task binding parentAuthority policy nowMs hcall
  have heffect := effect_step hnamed call
  generalize self.step call = next at heffect ⊢
  cases heffect with
  | @create task binding parentAuthority policy nowMs haccepted hfresh =>
    rw [bears_put]
    split_ifs with hid
    · rw [or_iff_right (hid ▸ not_bears_of_fresh hfresh)]
      constructor
      · exact fun h => ⟨haccepted,_,_,_,_,_,rfl,hid.symm,h.1⟩
      · rintro ⟨-,_,_,_,_,_,hcall,-,hcompleted⟩
        cases hcall
        exact ⟨hcompleted,rfl⟩
    · refine (or_iff_left ?_).symm
      rintro ⟨-,_,_,_,_,_,hcall,hname,-⟩
      cases hcall
      exact hid hname.symm
  | start haccepted hfound hpending =>
    rw [or_iff_left (hother nofun)]
    apply bears_put_of_iff hfound
    simp [CameCompleted, withState, hpending, WorkerTaskState.isCompleted]
  | complete haccepted hfound hrunning =>
    rw [or_iff_left (hother nofun)]
    apply bears_put_of_iff hfound
    simp [CameCompleted, hrunning, WorkerTaskState.isCompleted]
  | fail haccepted hfound hrunning =>
    rw [or_iff_left (hother nofun)]
    apply bears_put_of_iff hfound
    simp [CameCompleted, withState, hrunning, WorkerTaskState.isCompleted]
  | refused hrefused => exact (or_iff_left fun h => hrefused h.1).symm

theorem Named.step (hnamed : self.Named) (call : DelegatedTaskCall) : (self.step call).Named := by
  have heffect := effect_step hnamed call
  generalize self.step call = next at heffect ⊢
  cases heffect with
  | create haccepted hfresh =>
    intro id record hget
    rw [get?_put] at hget
    split_ifs at hget with hid
    · cases hget
      exact hid.symm
    · exact hnamed id record hget
  | start _ hfound _ => exact hnamed.put hfound ⟨⟨_,rfl⟩,rfl⟩
  | complete _ hfound _ => exact hnamed.put hfound ⟨⟨_,rfl⟩,rfl⟩
  | fail _ hfound _ => exact hnamed.put hfound ⟨⟨_,rfl⟩,rfl⟩
  | refused _ => exact hnamed

theorem named_run (calls : List DelegatedTaskCall) : (empty.run calls).Named := by
  have hempty : empty.Named := fun _ _ hget => nomatch hget
  exact runAll_invariant (I := Named) (fun _ call h => h.step call) calls hempty

theorem bears_run {happening : DelegatedTaskStore → DelegatedTaskCall → Prop}
    (hstep : ∀ self : DelegatedTaskStore, self.Named → ∀ call, (self.step call).Bears taskId kind ↔ self.Bears taskId kind ∨ happening self call)
    (calls : List DelegatedTaskCall) :
    (empty.run calls).Bears taskId kind ↔ Happens step happening empty calls := by
  induction calls using List.reverseRecOn with
  | nil => exact iff_of_false (fun ⟨_,hget,_⟩ => nomatch hget) not_happens_nil
  | append_singleton calls call ih =>
    rw [happens_concat, ← ih, run, runAll_append]
    exact hstep _ (named_run calls) call

/-- A task has a result exactly if it was completed in the run. -/
theorem hasResult_run (calls : List DelegatedTaskCall) (taskId : String) :
    (empty.run calls).Bears taskId HasResult ↔
      Happens step (Completes taskId) empty calls :=
  bears_run (fun _ hnamed call => hasResult_step hnamed call taskId) calls

theorem cameCompleted_run (calls : List DelegatedTaskCall) (taskId : String) :
    (empty.run calls).Bears taskId CameCompleted ↔
      Happens step (CreatesCompleted taskId) empty calls :=
  bears_run (fun _ hnamed call => cameCompleted_step hnamed call taskId) calls

/-- A move of a task leaves the dependencies as they are. -/
theorem dependsOn_put_of_get (hget : self.tasks.get? taskId = some record)
    (hmoves : Moves record new) : (self.put taskId new).DependsOn = self.DependsOn := by
  obtain ⟨state,htask⟩ := hmoves.task
  funext j dependency
  apply propext
  have hkind : dependency ∈ new.task.dependsOn.keys ↔ dependency ∈ record.task.dependsOn.keys := by
    rw [htask]
  exact bears_put_of_iff hget hkind

theorem mem_keys_put {j : String} :
    j ∈ (self.put taskId record).tasks.keys ↔ j = taskId ∨ j ∈ self.tasks.keys :=
  BTreeMap.mem_keys_insert ..

/-- The dependencies are among the tasks, and go in no circle. -/
structure Ordered (now : DelegatedTaskStore) : Prop where
  dag : Acyclic now.DependsOn
  known : ∀ taskId dependency, now.DependsOn taskId dependency → dependency ∈ now.tasks.keys

theorem Ordered.move (h : self.Ordered) (hget : self.tasks.get? taskId = some record)
    (hmoves : Moves record new) : (self.put taskId new).Ordered := by
  constructor
  · rw [dependsOn_put_of_get hget hmoves]
    exact h.dag
  · intro j dependency hdepends
    rw [dependsOn_put_of_get hget hmoves] at hdepends
    exact mem_keys_put.mpr (.inr (h.known j dependency hdepends))

/-- A new task depends on tasks that exist. -/
theorem Ordered.create (h : self.Ordered) {task : WorkerTaskRecord}
    {binding : DelegationTaskBinding} (hfresh : task.id ∉ self.tasks.keys)
    (hdependencies : ∀ dependency ∈ task.dependsOn.keys, dependency ∈ self.tasks.keys) :
    (self.put task.id ⟨task,binding,none⟩).Ordered := by
  have hsource : ∀ id dependency,
      (self.put task.id ⟨task,binding,none⟩).DependsOn id dependency → id ≠ task.id →
        self.DependsOn id dependency := by
    rintro id dependency ⟨found,hget,hmem⟩ hid
    rw [get?_put, if_neg hid] at hget
    exact ⟨found,hget,hmem⟩
  have hknown : ∀ id dependency,
      (self.put task.id ⟨task,binding,none⟩).DependsOn id dependency →
        dependency ∈ self.tasks.keys := by
    intro id dependency hdepends
    by_cases hid : id = task.id
    · obtain ⟨found,hget,hmem⟩ := hdepends
      rw [get?_put, if_pos hid] at hget
      cases hget
      exact hdependencies dependency hmem
    · exact h.known id dependency (hsource id dependency hdepends hid)
  constructor
  · apply h.dag.of_fresh task.id hsource
    intro id dependency hdepends heq
    exact hfresh (heq ▸ hknown id dependency hdepends)
  · intro id dependency hdepends
    exact mem_keys_put.mpr (.inr (hknown id dependency hdepends))

/-- A store stays ordered exactly if a task is created after all that it depends on. -/
theorem ordered_step_iff (hnamed : self.Named) (h : self.Ordered) (call : DelegatedTaskCall) :
    (self.step call).Ordered ↔ ∀ task binding parentAuthority policy nowMs,
      call = .create task binding parentAuthority policy nowMs → call.Accepted self →
        ∀ dependency ∈ task.dependsOn.keys, dependency ∈ self.tasks.keys := by
  have heffect := effect_step hnamed call
  generalize self.step call = next at heffect ⊢
  cases heffect with
  | @create task binding parentAuthority policy nowMs haccepted hfresh =>
    constructor
    · rintro hnext _ _ _ _ _ ⟨⟩ - dependency hmem
      have hdepends : (self.put task.id ⟨task,binding,none⟩).DependsOn task.id dependency :=
        ⟨_,by rw [get?_put, if_pos rfl],hmem⟩
      rcases mem_keys_put.mp (hnext.known _ _ hdepends) with heq | hkeys
      · exact absurd (.single (heq ▸ hdepends)) (hnext.dag task.id)
      · exact hkeys
    · exact fun hcreated => h.create hfresh (hcreated _ _ _ _ _ rfl haccepted)
  | start _ hfound _ => exact iff_of_true (h.move hfound ⟨⟨_,rfl⟩,rfl⟩) nofun
  | complete _ hfound _ => exact iff_of_true (h.move hfound ⟨⟨_,rfl⟩,rfl⟩) nofun
  | fail _ hfound _ => exact iff_of_true (h.move hfound ⟨⟨_,rfl⟩,rfl⟩) nofun
  | refused hrefused => exact iff_of_true h fun _ _ _ _ _ _ haccepted => absurd haccepted hrefused

theorem mem_completed (hnamed : self.Named) :
    taskId ∈ self.completed ↔ self.Bears taskId fun record => record.task.state.isCompleted := by
  unfold completed Bears
  simp only [List.mem_filterMap, BTreeMap.mem_values]
  constructor
  · rintro ⟨record,⟨id,hget⟩,h⟩
    split_ifs at h with hcompleted
    cases h
    rw [hnamed id record hget]
    exact ⟨record,hget,hcompleted⟩
  · rintro ⟨record,hget,hcompleted⟩
    exact ⟨record,⟨taskId,hget⟩,by rw [if_pos hcompleted, hnamed taskId record hget]⟩

theorem mem_runnable_iff (hnamed : self.Named) :
    taskId ∈ self.runnable ↔ ∃ record, self.tasks.get? taskId = some record ∧
      record.task.state = .pending ∧ ∀ dependency ∈ record.task.dependsOn.keys,
        dependency ∈ self.completed := by
  unfold runnable
  simp only [List.mem_map, List.mem_filter, BTreeMap.mem_values, decide_eq_true_eq,
    List.all_eq_true]
  constructor
  · rintro ⟨record,⟨⟨id,hget⟩,hpending,hdependencies⟩,rfl⟩
    rw [hnamed id record hget]
    exact ⟨record,hget,hpending,hdependencies⟩
  · rintro ⟨record,hget,hpending,hdependencies⟩
    exact ⟨record,⟨⟨taskId,hget⟩,hpending,hdependencies⟩,hnamed taskId record hget⟩

/-- Behind a task that waits is one that can be started. -/
theorem Ordered.runnable_ne_nil (h : self.Ordered) (hnamed : self.Named) (hwaits : self.Waits) :
    self.runnable ≠ [] := by
  have hgrounded : ∀ id, Grounded self.DependsOn id := by
    apply grounded_of_acyclic (s := {id | id ∈ self.tasks.keys}) (List.finite_toSet _) _ h.dag
    rintro id dependency ⟨record,hget,-⟩
    exact self.tasks.mem_keys_iff.mpr (by simp [hget])
  obtain ⟨id,record,hget,hpending⟩ := hwaits.pending
  induction hgrounded id generalizing record with
  | intro id _ ih =>
    by_cases hready : ∀ dependency ∈ record.task.dependsOn.keys, dependency ∈ self.completed
    · have hmem := (mem_runnable_iff hnamed).mpr ⟨record,hget,hpending,hready⟩
      exact List.ne_nil_of_mem hmem
    · push Not at hready
      obtain ⟨dependency,hdependency,hopen⟩ := hready
      have hdepends : self.DependsOn id dependency := ⟨record,hget,hdependency⟩
      obtain ⟨found,hfound⟩ :=
        Option.isSome_iff_exists.mp (self.tasks.mem_keys_iff.mp (h.known _ _ hdepends))
      apply ih dependency hdepends found hfound
      apply (hwaits.idle dependency found hfound).resolve_right
      exact fun hcompleted => hopen ((mem_completed hnamed).mpr ⟨found,hfound,hcompleted⟩)

/-- A task that is started has all its dependencies completed. -/
theorem start_eq_ok (hnamed : self.Named) {executionId : String} {nowMs : U64}
    {next : DelegatedTaskStore} (h : start taskId executionId nowMs self = .ok record next) :
    (∀ dependency, dependency ∈ record.task.dependsOn.keys ↔ self.DependsOn taskId dependency) ∧
      ∀ dependency ∈ record.task.dependsOn.keys,
        self.Bears dependency fun found => found.task.state.isCompleted := by
  have hstartable : self.startable taskId executionId nowMs = .ok record := by
    rw [start, answered_eq] at h
    cases hcheck : self.startable taskId executionId nowMs with
    | ok found =>
      simp only [hcheck, EStateM.Result.ok.injEq] at h
      rw [h.1]
    | error error => simp [hcheck] at h
  obtain ⟨before,hget,-,rfl⟩ := startable_eq_ok hnamed hstartable
  have hrunnable : taskId ∈ self.runnable := by
    unfold startable at hstartable
    split_ifs at hstartable with hrunnable
    exact hrunnable
  obtain ⟨found,hfound,-,hcompleted⟩ := (mem_runnable_iff hnamed).mp hrunnable
  cases hget.symm.trans hfound
  refine ⟨fun dependency => ?_,fun dependency hmem =>
    (mem_completed hnamed).mp (hcompleted dependency hmem)⟩
  unfold DependsOn
  rw [hget]
  simp [withState]

theorem run_concat (calls : List DelegatedTaskCall) (call : DelegatedTaskCall) :
    self.run (calls ++ [call]) = (self.run calls).step call :=
  runAll_append step self calls [call]

theorem ordered_empty : empty.Ordered :=
  ⟨acyclic_of_rank (fun _ => 0) fun _ _ ⟨_,hget,_⟩ => (nomatch hget),
    fun _ _ ⟨_,hget,_⟩ => (nomatch hget)⟩

/-- Every store of a run in order is ordered. -/
theorem ordered_run {calls : List DelegatedTaskCall} (h : InOrder calls)
    {before : List DelegatedTaskCall} (hbefore : before <+: calls) : (empty.run before).Ordered := by
  induction before using List.reverseRecOn with
  | nil => exact ordered_empty
  | append_singleton before call ih =>
    have hearlier : before <+: calls := (List.prefix_append _ _).trans hbefore
    rw [run_concat, ordered_step_iff (named_run before) (ih hearlier)]
    rintro task binding parentAuthority policy nowMs rfl haccepted
    exact h.created before _ _ _ _ _ hbefore haccepted

end DelegatedTaskStore

open DelegatedTaskStore in
/-- No run stands still over dependencies, nor passes one over, if and only if it is in order. -/
theorem scheduled_iff (calls : List DelegatedTaskCall) : Scheduled calls ↔ InOrder calls := by
  constructor
  · intro h
    constructor
    · intro before task binding parentAuthority policy nowMs hcalls haccepted
      have hearlier : before <+: calls := (List.prefix_append _ _).trans hcalls
      have hordered : (empty.run (before ++ [_])).Ordered := ⟨h.dag _ hcalls,h.known _ hcalls⟩
      rw [run_concat, ordered_step_iff (named_run before) ⟨h.dag _ hearlier,h.known _ hearlier⟩]
        at hordered
      exact hordered _ _ _ _ _ rfl haccepted
    · rintro before taskId executionId nowMs hcalls ⟨record,next,hstart⟩ dependency hdepends hcreated
      have hmem := ((start_eq_ok (named_run before) hstart).1 dependency).mpr hdepends
      obtain ⟨found,hfound,hresult⟩ := (hasResult_run before dependency).mpr
        (h.started before taskId executionId nowMs hcalls record next hstart dependency hmem)
      obtain ⟨created,hget,-,hnone⟩ := (cameCompleted_run before dependency).mpr hcreated
      cases hfound.symm.trans hget
      exact hresult hnone
  · intro h
    constructor
    · exact fun before hbefore => (ordered_run h hbefore).dag
    · exact fun before hbefore => (ordered_run h hbefore).known
    · exact fun before hbefore hwaits =>
        (ordered_run h hbefore).runnable_ne_nil (named_run before) hwaits
    · intro before taskId executionId nowMs hcalls record next hstart dependency hmem
      obtain ⟨hsame,hdependencies⟩ := start_eq_ok (named_run before) hstart
      obtain ⟨found,hfound,hcompleted⟩ := hdependencies dependency hmem
      have hresult : found.result ≠ none := by
        intro hnone
        apply h.started before taskId executionId nowMs hcalls ⟨record,next,hstart⟩ dependency
          ((hsame dependency).mp hmem)
        exact (cameCompleted_run before dependency).mp ⟨found,hfound,hcompleted,hnone⟩
      exact (hasResult_run before dependency).mp ⟨found,hfound,hresult⟩

def createdTask (id : String) (dependsOn : List String) (state : WorkerTaskState) :
    DelegatedTaskCall :=
  .create ⟨id,"parent","generation-1","work",.collect dependsOn,⟨.empty⟩,state⟩
    ⟨"policy-1",⟨⟨.empty⟩,⟨0,0,none⟩,100,1,1,64⟩⟩ ⟨.empty⟩ ⟨true,1,1,1,64⟩ 0

/-- A task that depends on itself is never runnable, and one that was never run counts as done. -/
theorem creation_unchecked :
    ¬ Scheduled [createdTask "task" ["task"] .pending] ∧
      ¬ Scheduled [createdTask "first" [] (.completed "execution" []),
        createdTask "second" ["first"] .pending,.start "second" "execution" 0] := by
  constructor
  · intro h
    have hdag := h.dag _ (List.prefix_refl _)
    apply hdag "task"
    apply TransGen.single
    exact ⟨_,rfl,by decide +kernel⟩
  · intro h
    have hstarted := h.started [_,_] "second" "execution" 0 (List.prefix_refl _) _ _ rfl "first"
      (by decide +kernel)
    rw [← DelegatedTaskStore.hasResult_run] at hstarted
    obtain ⟨record,hget,hresult⟩ := hstarted
    have hnone : ((DelegatedTaskStore.empty.run [createdTask "first" [] (.completed "execution" []),
        createdTask "second" ["first"] .pending]).tasks.get? "first").map (·.result) = some none := by
      decide +kernel
    rw [hget, Option.map_some, Option.some.injEq] at hnone
    exact hresult hnone

end PhenixConductor.Execution
