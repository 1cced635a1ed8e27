import PhenixConductor.Execution.Transitions
import PhenixConductor.Collections.Digraph
import PhenixConductor.Collections.Frontier

/-! # Executions and tasks in order

The executions form a forest in which authority only shrinks on the way down and the generation
of the root is kept, and the tasks a graph without cycles.
-/
namespace PhenixConductor.Execution
open Collections Relation ExecutionProjection BTreeMap

/-- One move of the state of a task. -/
inductive WorkerTaskState.Moves : WorkerTaskState → WorkerTaskState → Prop
  | start {executionId : String} : Moves .pending (.running executionId)
  | complete {executionId : String} {resultRefs : List String} :
      Moves (.running executionId) (.completed executionId resultRefs)
  | fail {executionId cause : String} : Moves (.running executionId) (.failed executionId cause)

namespace ExecutionProjection
variable (self : ExecutionProjection)

def parentOf (id : String) : Option String :=
  (self.executions.get? id).bind (·.parentExecution)

def DependsOn (id dependency : String) : Prop :=
  ∃ task, self.tasks.get? id = some task ∧ dependency ∈ task.dependsOn.keys

/-- The named task has been completed. -/
def Completed (id : String) : Prop :=
  ∃ task, self.tasks.get? id = some task ∧ task.state.isCompleted

/-- The checks of `StartTask` pass. -/
def Startable (taskId executionId : String) : Prop :=
  ∃ task execution, self.tasks.get? taskId = some task ∧ task.state = .pending ∧
    dependenciesCompleted self task = true ∧
    self.executions.get? executionId = some execution ∧ WorkerFor task execution

/-- Everything refers to what is recorded, nothing goes in a circle, and an execution is limited by
its parent. -/
structure WellFormed (now : ExecutionProjection) : Prop where
  limited : ∀ id execution parentExecution, now.executions.get? id = some execution →
    execution.parentExecution = some parentExecution →
    ∃ parent, now.executions.get? parentExecution = some parent ∧
      execution.authority ≤ parent.authority ∧ execution.graphGeneration = parent.graphGeneration
  forest : Acyclic (IsParent now.parentOf)
  known : ∀ id dependency, now.DependsOn id dependency → dependency ∈ now.tasks.keys
  dag : Acyclic now.DependsOn
  named : ∀ id task, now.tasks.get? id = some task → task.id = id

/-- What has been recorded stays, and its state only moves on. -/
structure Continues (before next : ExecutionProjection) : Prop where
  executions : ∀ id execution, before.executions.get? id = some execution →
    ∃ later, next.executions.get? id = some later ∧ later.identity = execution.identity ∧
      (execution.state ≠ .active → later.state = execution.state)
  tasks : ∀ id task, before.tasks.get? id = some task →
    ∃ state, next.tasks.get? id = some { task with state } ∧
      ReflTransGen WorkerTaskState.Moves task.state state

end ExecutionProjection

/-- The executions and tasks are in order in every state that the calls lead to. -/
structure Orderly (invocations : List Invocation) : Prop where
  forest : ∀ before, before <+: invocations →
    Acyclic (IsParent (empty.run before).parentOf) ∧
      ∀ id above, IsParent (empty.run before).parentOf id above →
        above ∈ (empty.run before).executions.keys
  ancestors : ∀ before, before <+: invocations → ∀ id above execution ancestor,
    TransGen (IsParent (empty.run before).parentOf) id above →
    (empty.run before).executions.get? id = some execution →
    (empty.run before).executions.get? above = some ancestor →
    execution.authority ≤ ancestor.authority ∧
      execution.graphGeneration = ancestor.graphGeneration
  callers : ∀ before invocation, before ++ [invocation] <+: invocations → ∀ id execution,
    (empty.run before).executions.get? id = none →
    ((empty.run before).step invocation).executions.get? id = some execution →
    execution.authority ≤ executionAuthorityFrom invocation.context.authority
  fresh : ∀ before invocation, before ++ [invocation] <+: invocations →
    invocation.command.creates = true → ∀ response next,
    execute invocation.context invocation.durable invocation.command
      (empty.run before) = .ok response next →
    ∃ execution, response = .execution execution ∧
      (empty.run before).executions.get? execution.id = none ∧
      next.executions.get? execution.id = some execution
  freshTask : ∀ before invocation, before ++ [invocation] <+: invocations →
    ∀ id parentExecution description dependsOn requestedAuthority, invocation.command =
      .createTask id parentExecution description dependsOn requestedAuthority → ∀ response next,
    execute invocation.context invocation.durable invocation.command
      (empty.run before) = .ok response next →
    (empty.run before).tasks.get? id = none
  continues : ∀ before later, before ++ later <+: invocations →
    (empty.run before).Continues
      (empty.run (before ++ later))
  dependencies : ∀ before, before <+: invocations →
    Acyclic (empty.run before).DependsOn ∧
      ∀ id dependency, (empty.run before).DependsOn id dependency →
        dependency ∈ (empty.run before).tasks.keys
  starts : ∀ before invocation, before ++ [invocation] <+: invocations → ∀ id task next,
    (empty.run before).tasks.get? id = some task → task.state = .pending →
    ((empty.run before).step invocation).tasks.get? id = some next →
    next.state ≠ .pending →
    (∀ dependency ∈ task.dependsOn.keys,
      (empty.run before).Completed dependency) ∧
    ∃ executionId execution, next.state = .running executionId ∧
      (empty.run before).executions.get? executionId = some execution ∧
      WorkerFor task execution
  moves : ∀ before invocation, before ++ [invocation] <+: invocations → ∀ id task,
    (empty.run before).tasks.get? id = some task →
    ∃ state, ((empty.run before).step invocation).tasks.get? id =
        some { task with state } ∧ (state = task.state ∨ task.state.Moves state)
  runnable : ∀ before context durable response next, before <+: invocations →
    execute context durable .runnableTasks (empty.run before) =
      .ok response next →
    ∃ taskIds, response = .runnableTasks taskIds ∧ ∀ id, id ∈ taskIds ↔
      ∃ task, (empty.run before).tasks.get? id = some task ∧
        task.state = .pending ∧ ∀ dependency ∈ task.dependsOn.keys,
          (empty.run before).Completed dependency

namespace ExecutionProjection
variable {self : ExecutionProjection}

variable {id : String}

theorem isParent_iff {above : String} : IsParent self.parentOf id above ↔
    ∃ execution, self.executions.get? id = some execution ∧
      execution.parentExecution = some above := Option.bind_eq_some_iff

theorem completedTask_iff : completedTask self id = true ↔ self.Completed id := by
  unfold completedTask Completed
  cases self.tasks.get? id <;> simp

theorem dependenciesCompleted_iff {task : WorkerTaskRecord} :
    dependenciesCompleted self task = true ↔
      ∀ dependency ∈ task.dependsOn.keys, self.Completed dependency := by
  simp only [dependenciesCompleted, List.all_eq_true, completedTask_iff]

theorem WellFormed.mem_runnableTasks (h : self.WellFormed) :
    id ∈ runnableTasks self ↔ ∃ task, self.tasks.get? id = some task ∧ task.state = .pending ∧
      ∀ dependency ∈ task.dependsOn.keys, self.Completed dependency := by
  simp only [runnableTasks, List.mem_map, List.mem_filter, mem_values,
    dependenciesCompleted_iff, decide_eq_true_eq]
  constructor
  · rintro ⟨task,⟨⟨⟨key,hget⟩,hpending⟩,hcompleted⟩,rfl⟩
    rw [h.named key task hget]
    exact ⟨task,hget,hpending,hcompleted⟩
  · rintro ⟨task,hget,hpending,hcompleted⟩
    exact ⟨task,⟨⟨⟨id,hget⟩,hpending⟩,hcompleted⟩,h.named id task hget⟩

/-- What a parent limits, an ancestor does. -/
theorem WellFormed.ancestors (h : self.WellFormed) {above : String}
    (hpath : TransGen (IsParent self.parentOf) id above) {execution ancestor : ExecutionRecord}
    (hexecution : self.executions.get? id = some execution)
    (hancestor : self.executions.get? above = some ancestor) :
    execution.authority ≤ ancestor.authority ∧
      execution.graphGeneration = ancestor.graphGeneration := by
  induction hpath generalizing ancestor with
  | single hparent =>
    obtain ⟨found,hfound,hnamed⟩ := isParent_iff.mp hparent
    cases hfound.symm.trans hexecution
    obtain ⟨parent,hget,hlimited⟩ := h.limited _ _ _ hexecution hnamed
    cases hget.symm.trans hancestor
    exact hlimited
  | tail _ hparent ih =>
    obtain ⟨middle,hmiddle,hnamed⟩ := isParent_iff.mp hparent
    obtain ⟨hauthority,hgeneration⟩ := ih hmiddle
    obtain ⟨parent,hget,hlimited⟩ := h.limited _ _ _ hmiddle hnamed
    cases hget.symm.trans hancestor
    exact ⟨hauthority.trans hlimited.1,hgeneration.trans hlimited.2⟩

theorem wellFormed_empty : empty.WellFormed where
  limited _ _ _ h := by cases (get?_empty _).symm.trans h
  forest _ h := by
    obtain ⟨next,hnext,-⟩ := TransGen.head'_iff.mp h
    obtain ⟨execution,hget,-⟩ := isParent_iff.mp hnext
    cases (get?_empty _).symm.trans hget
  known _ _ h := by
    obtain ⟨task,hget,-⟩ := h
    cases (get?_empty _).symm.trans hget
  dag _ h := by
    obtain ⟨next,⟨task,hget,-⟩,-⟩ := TransGen.head'_iff.mp h
    cases (get?_empty _).symm.trans hget
  named _ _ h := by cases (get?_empty _).symm.trans h

section
variable (h : self.WellFormed)
include h

variable {execution : ExecutionRecord}

/-- A new execution is a root, or is limited by one that exists. -/
theorem WellFormed.putExecution_of_fresh (hfresh : execution.id ∉ self.executions.keys)
    (hparent : ∀ parentExecution, execution.parentExecution = some parentExecution → ∃ parent, self.executions.get? parentExecution = some parent ∧ execution.authority ≤ parent.authority ∧ execution.graphGeneration = parent.graphGeneration) :
    (self.putExecution execution.id execution).WellFormed := by
  have hne : ∀ {id found}, self.executions.get? id = some found → id ≠ execution.id := by
    rintro id found hget rfl
    exact hfresh (self.executions.mem_keys_iff.mpr (by simp [hget]))
  have hlimited : ∀ id found parentExecution,
      (self.putExecution execution.id execution).executions.get? id = some found →
      found.parentExecution = some parentExecution →
      ∃ parent, self.executions.get? parentExecution = some parent ∧
        found.authority ≤ parent.authority ∧ found.graphGeneration = parent.graphGeneration := by
    intro id found parentExecution hget hnamed
    rw [executions_putExecution, get?_insert] at hget
    split_ifs at hget with hid
    · cases hget
      exact hparent parentExecution hnamed
    · exact h.limited id found parentExecution hget hnamed
  constructor
  · intro id found parentExecution hget hnamed
    obtain ⟨parent,hfound,hle⟩ := hlimited id found parentExecution hget hnamed
    refine ⟨parent,?_,hle⟩
    rw [executions_putExecution, get?_insert_of_ne _ _ (hne hfound)]
    exact hfound
  · apply h.forest.of_fresh execution.id
    · intro id above hlink hid
      obtain ⟨found,hget,hnamed⟩ := isParent_iff.mp hlink
      rw [executions_putExecution, get?_insert_of_ne _ _ hid] at hget
      exact isParent_iff.mpr ⟨found,hget,hnamed⟩
    · intro id above hlink
      obtain ⟨found,hget,hnamed⟩ := isParent_iff.mp hlink
      obtain ⟨parent,hfound,-⟩ := hlimited id found above hget hnamed
      exact hne hfound
  · exact h.known
  · exact h.dag
  · exact h.named

/-- The state of an execution is nothing that the order depends on. -/
theorem WellFormed.putExecution_of_get {id : String}
    (hget : self.executions.get? id = some execution) (state : ExecutionState) :
    (self.putExecution id { execution with state }).WellFormed := by
  have hold : ∀ {j found}, (self.putExecution id { execution with state }).executions.get? j =
      some found → ∃ old, self.executions.get? j = some old ∧ old.identity = found.identity := by
    intro j found hfound
    rw [executions_putExecution, get?_insert] at hfound
    split_ifs at hfound with hj
    · cases hfound
      exact ⟨execution,hj ▸ hget,rfl⟩
    · exact ⟨found,hfound,rfl⟩
  have hnew : ∀ {j old}, self.executions.get? j = some old →
      ∃ found, (self.putExecution id { execution with state }).executions.get? j = some found ∧
        found.identity = old.identity := by
    intro j old hj
    rw [executions_putExecution, get?_insert]
    split_ifs with heq
    · cases (heq ▸ hj).symm.trans hget
      exact ⟨_,rfl,rfl⟩
    · exact ⟨old,hj,rfl⟩
  have hidentity : ∀ {a b : ExecutionRecord}, a.identity = b.identity →
      a.parentExecution = b.parentExecution ∧ a.graphGeneration = b.graphGeneration ∧
        a.authority = b.authority := by
    intro a b hab
    simp only [ExecutionRecord.identity, Prod.mk.injEq] at hab
    exact hab.2
  constructor
  · intro j found parentExecution hfound hnamed
    obtain ⟨old,hj,hsame⟩ := hold hfound
    obtain ⟨hparent,hgeneration,hauthority⟩ := hidentity hsame
    obtain ⟨parent,hparentGet,hle,heq⟩ :=
      h.limited j old parentExecution hj (hparent.trans hnamed)
    obtain ⟨later,hlater,hlaterSame⟩ := hnew hparentGet
    obtain ⟨-,hlaterGeneration,hlaterAuthority⟩ := hidentity hlaterSame
    refine ⟨later,hlater,?_,?_⟩
    · rw [← hauthority, hlaterAuthority]
      exact hle
    · rw [← hgeneration, hlaterGeneration]
      exact heq
  · have hparentOf : (self.putExecution id { execution with state }).parentOf = self.parentOf := by
      funext j
      unfold parentOf
      rw [executions_putExecution, get?_insert]
      split_ifs with hj
      · rw [hj, hget]
        rfl
      · rfl
    rw [hparentOf]
    exact h.forest
  · exact h.known
  · exact h.dag
  · exact h.named

/-- A new task depends on tasks that exist. -/
theorem WellFormed.putTask_of_fresh {task : WorkerTaskRecord}
    (hfresh : task.id ∉ self.tasks.keys)
    (hdependencies : ∀ dependency ∈ task.dependsOn.keys, dependency ∈ self.tasks.keys) :
    (self.putTask task.id task).WellFormed := by
  have hsource : ∀ id dependency, (self.putTask task.id task).DependsOn id dependency →
      id ≠ task.id → self.DependsOn id dependency := by
    rintro id dependency ⟨found,hget,hmem⟩ hid
    rw [tasks_putTask, get?_insert_of_ne _ _ hid] at hget
    exact ⟨found,hget,hmem⟩
  have hknown : ∀ id dependency, (self.putTask task.id task).DependsOn id dependency →
      dependency ∈ self.tasks.keys := by
    intro id dependency hdepends
    by_cases hid : id = task.id
    · obtain ⟨found,hget,hmem⟩ := hdepends
      rw [tasks_putTask, hid, get?_insert_self] at hget
      cases hget
      exact hdependencies dependency hmem
    · exact h.known id dependency (hsource id dependency hdepends hid)
  constructor
  · exact h.limited
  · exact h.forest
  · intro id dependency hdepends
    rw [tasks_putTask, mem_keys_insert]
    exact .inr (hknown id dependency hdepends)
  · apply h.dag.of_fresh task.id hsource
    intro id dependency hdepends heq
    exact hfresh (heq ▸ hknown id dependency hdepends)
  · intro id found hget
    rw [tasks_putTask, get?_insert] at hget
    split_ifs at hget with hid
    · cases hget
      exact hid.symm
    · exact h.named id found hget

/-- Neither is the state of a task. -/
theorem WellFormed.putTask_of_get {id : String} {task : WorkerTaskRecord}
    (hget : self.tasks.get? id = some task) (state : WorkerTaskState) :
    (self.putTask id { task with state }).WellFormed := by
  have hdepends : (self.putTask id { task with state }).DependsOn = self.DependsOn := by
    funext j dependency
    unfold DependsOn
    rw [tasks_putTask, get?_insert]
    split_ifs with hj
    · rw [hj, hget]
      simp
    · rfl
  constructor
  · exact h.limited
  · exact h.forest
  · intro j dependency hj
    rw [hdepends] at hj
    rw [tasks_putTask, mem_keys_insert]
    exact .inr (h.known j dependency hj)
  · rw [hdepends]
    exact h.dag
  · intro j found hfound
    rw [tasks_putTask, get?_insert] at hfound
    split_ifs at hfound with hj
    · cases hfound
      rw [hj]
      exact h.named id task hget
    · exact h.named j found hfound

theorem WellFormed.transition {context : CallContext}
    {command : ExecutionCommand} {response : ExecutionResponse} {next : ExecutionProjection}
    (htransition : Transition context self command response next) : next.WellFormed := by
  cases htransition with
  | root creates fresh parent =>
    apply h.putExecution_of_fresh fresh
    intro parentExecution hnamed
    cases parent.symm.trans hnamed
  | delegate creates fresh named found generation state authority =>
    apply h.putExecution_of_fresh fresh
    intro parentExecution hnamed
    cases named.symm.trans hnamed
    exact ⟨_,found,authority,generation⟩
  | finish found => exact h.putExecution_of_get found _
  | register => exact ⟨h.limited,h.forest,h.known,h.dag,h.named⟩
  | create fresh state found generation authority caller dependencies =>
    exact h.putTask_of_fresh fresh dependencies
  | start found => exact h.putTask_of_get found _
  | complete found => exact h.putTask_of_get found _
  | fail found => exact h.putTask_of_get found _
  | answer => exact h

theorem WellFormed.run (invocations : List Invocation) :
    (self.run invocations).WellFormed := by
  refine runAll_invariant (fun before invocation hbefore => ?_) invocations h
  rcases step_transition before invocation with ⟨response,htransition⟩ | hsame
  · exact hbefore.transition htransition
  · rw [hsame]
    exact hbefore

end

end ExecutionProjection

section Transitions
variable {context : CallContext} {before next : ExecutionProjection} {command : ExecutionCommand}
  {response : ExecutionResponse}

section
variable (h : Transition context before command response next)
include h

variable {id : String}

/-- A task stays what it is, and its state makes one move at most. -/
theorem Transition.moves {task : WorkerTaskRecord} (hget : before.tasks.get? id = some task) :
    ∃ state, next.tasks.get? id = some { task with state } ∧
      (state = task.state ∨ task.state.Moves state) := by
  have hput : ∀ {taskId found state}, before.tasks.get? taskId = some found →
      found.state.Moves state → ∃ moved,
        (before.putTask taskId { found with state }).tasks.get? id = some { task with state := moved } ∧
          (moved = task.state ∨ task.state.Moves moved) := by
    intro taskId found state hfound hmoves
    rw [tasks_putTask, get?_insert]
    split_ifs with hid
    · cases (hid ▸ hget).symm.trans hfound
      exact ⟨state,rfl,.inr hmoves⟩
    · exact ⟨task.state,hget,.inl rfl⟩
  cases h with
  | root | delegate | finish | register | answer => exact ⟨task.state,hget,.inl rfl⟩
  | @create requestedAuthority new parent fresh state found generation authority caller
      dependencies =>
    have hid : id ≠ new.id := by
      rintro rfl
      exact fresh (before.tasks.mem_keys_iff.mpr (by simp [hget]))
    refine ⟨task.state,?_,.inl rfl⟩
    rw [tasks_putTask, get?_insert_of_ne _ _ hid]
    exact hget
  | start found state => exact hput found (state ▸ .start)
  | complete found state => exact hput found (state ▸ .complete)
  | fail found state => exact hput found (state ▸ .fail)

variable {execution : ExecutionRecord}

/-- An execution stays what it is, and it is finished once. -/
theorem Transition.executions (hget : before.executions.get? id = some execution) :
    ∃ later, next.executions.get? id = some later ∧ later.identity = execution.identity ∧
      (execution.state ≠ .active → later.state = execution.state) := by
  have hkeep : ∀ {new : ExecutionRecord}, new.id ∉ before.executions.keys →
      (before.putExecution new.id new).executions.get? id = some execution := by
    intro new hfresh
    rw [executions_putExecution, get?_insert_of_ne, hget]
    rintro rfl
    exact hfresh (before.executions.mem_keys_iff.mpr (by simp [hget]))
  cases h with
  | root creates fresh => exact ⟨execution,hkeep fresh,rfl,fun _ => rfl⟩
  | delegate creates fresh => exact ⟨execution,hkeep fresh,rfl,fun _ => rfl⟩
  | @finish finished success _ found active =>
    by_cases hid : id = finished
    · subst hid
      cases hget.symm.trans found
      exact ⟨_,get?_insert_self _ _ _,rfl,fun h => absurd active h⟩
    · refine ⟨execution,?_,rfl,fun _ => rfl⟩
      rw [executions_putExecution, get?_insert_of_ne _ _ hid]
      exact hget
  | register | create | start | complete | fail | answer =>
    exact ⟨execution,hget,rfl,fun _ => rfl⟩

theorem Transition.continues :
    before.Continues next where
  executions _ _ hget := h.executions hget
  tasks _ _ hget := by
    obtain ⟨state,hnext,hmove⟩ := h.moves hget
    refine ⟨state,hnext,?_⟩
    rcases hmove with rfl | hmove
    · exact .refl
    · exact .single hmove

/-- A new execution has no authority that its caller has not. -/
theorem Transition.callers (hfresh : before.executions.get? id = none)
    (hget : next.executions.get? id = some execution) :
    execution.authority ≤ executionAuthorityFrom context.authority := by
  have hnew : ∀ {key new}, (before.putExecution key new).executions.get? id = some execution →
      id = key ∧ new = execution := by
    intro key new hput
    rw [executions_putExecution, get?_insert] at hput
    split_ifs at hput with hid
    · exact ⟨hid,Option.some.inj hput⟩
    · cases hfresh.symm.trans hput
  cases h with
  | root creates fresh parent state caller => exact (hnew hget).2 ▸ caller
  | delegate creates fresh named found generation state authority caller =>
    exact (hnew hget).2 ▸ caller
  | finish found => cases ((hnew hget).1 ▸ hfresh).symm.trans found
  | register | create | start | complete | fail | answer => cases hfresh.symm.trans hget

/-- A command that makes an execution gives it an identity that none has had. -/
theorem Transition.fresh
    (hcreates : command.creates = true) :
    ∃ execution, response = .execution execution ∧
      before.executions.get? execution.id = none ∧
      next.executions.get? execution.id = some execution := by
  cases h with
  | root creates fresh =>
    exact ⟨_,rfl,(get?_eq_none _).mpr fresh,get?_insert_self _ _ _⟩
  | delegate creates fresh =>
    exact ⟨_,rfl,(get?_eq_none _).mpr fresh,get?_insert_self _ _ _⟩
  | answer reads => cases command <;> cases hcreates <;> cases reads
  | finish | register | create | start | complete | fail => cases hcreates

/-- A task leaves its first state by a start that passes the checks. -/
theorem Transition.starts {task started : WorkerTaskRecord}
    (hget : before.tasks.get? id = some task) (hpending : task.state = .pending)
    (hnext : next.tasks.get? id = some started) (hstarted : started.state ≠ .pending) :
    ∃ executionId, started.state = .running executionId ∧ command = .startTask id executionId ∧
      before.Startable id executionId := by
  have hput : ∀ {taskId found}, (before.putTask taskId found).tasks.get? id = some started →
      (id = taskId ∧ found = started) ∨ started = task := by
    intro taskId found h
    rw [tasks_putTask, get?_insert] at h
    split_ifs at h with hid
    · exact .inl ⟨hid,Option.some.inj h⟩
    · exact .inr (Option.some.inj (h.symm.trans hget))
  have hother : started ≠ task := by
    rintro rfl
    exact hstarted hpending
  cases h with
  | root | delegate | finish | register | answer =>
    exact absurd (Option.some.inj (hnext.symm.trans hget)) hother
  | create fresh state =>
    obtain ⟨-,rfl⟩ := (hput hnext).resolve_right hother
    exact absurd state hstarted
  | start found state dependencies worker matched =>
    obtain ⟨rfl,rfl⟩ := (hput hnext).resolve_right hother
    exact ⟨_,rfl,rfl,_,_,found,state,dependencies,worker,matched⟩
  | complete found state =>
    obtain ⟨rfl,-⟩ := (hput hnext).resolve_right hother
    cases hget.symm.trans found
    cases hpending.symm.trans state
  | fail found state =>
    obtain ⟨rfl,-⟩ := (hput hnext).resolve_right hother
    cases hget.symm.trans found
    cases hpending.symm.trans state

end

end Transitions

namespace ExecutionProjection
variable {a b c : ExecutionProjection}

theorem Continues.refl (a : ExecutionProjection) : a.Continues a where
  executions _ execution h := ⟨execution,h,rfl,fun _ => rfl⟩
  tasks _ task h := ⟨task.state,h,.refl⟩

theorem Continues.trans (hab : a.Continues b) (hbc : b.Continues c) : a.Continues c where
  executions id execution h := by
    obtain ⟨middle,hmiddle,hidentity,hstate⟩ := hab.executions id execution h
    obtain ⟨last,hlast,hlastIdentity,hlastState⟩ := hbc.executions id middle hmiddle
    refine ⟨last,hlast,hlastIdentity.trans hidentity,fun hfinished => ?_⟩
    have hkept := hstate hfinished
    exact (hlastState (hkept ▸ hfinished)).trans hkept
  tasks id task h := by
    obtain ⟨state,hmiddle,hmoves⟩ := hab.tasks id task h
    obtain ⟨last,hlast,hlastMoves⟩ := hbc.tasks id _ hmiddle
    exact ⟨last,hlast,hmoves.trans hlastMoves⟩

theorem continues_run (before : ExecutionProjection) (invocations : List Invocation) :
    before.Continues (before.run invocations) := by
  refine runAll_invariant (fun state invocation hstate => ?_) invocations (.refl before)
  rcases step_transition state invocation with ⟨response,htransition⟩ | hsame
  · exact hstate.trans htransition.continues
  · rw [hsame]
    exact hstate

end ExecutionProjection

theorem execute_transition {context : CallContext} {durable : ℕ → DurableAttempt}
    {command : ExecutionCommand} {before next : ExecutionProjection} {response : ExecutionResponse}
    (h : execute context durable command before = .ok response next) :
    Transition context before command response next := by
  have houtcome : Outcome context command before (execute context durable command before) :=
    execute_outcome durable command
  rw [h] at houtcome
  cases houtcome with
  | ok htransition => exact htransition

theorem executions_orderly (invocations : List Invocation) : Orderly invocations := by
  have hwell : ∀ before, (empty.run before).WellFormed :=
    wellFormed_empty.run
  constructor
  · intro before _
    refine ⟨(hwell before).forest,fun id above hparent => ?_⟩
    obtain ⟨execution,hget,hnamed⟩ := isParent_iff.mp hparent
    obtain ⟨parent,hparentGet,-⟩ := (hwell before).limited id execution above hget hnamed
    exact (mem_keys_iff _).mpr (by simp [hparentGet])
  · intro before _ id above execution ancestor hpath hget hancestor
    exact (hwell before).ancestors hpath hget hancestor
  · intro before invocation _ id execution hfresh hget
    rcases step_transition _ invocation with ⟨response,htransition⟩ | hsame
    · exact htransition.callers hfresh hget
    · cases hfresh.symm.trans (hsame ▸ hget)
  · intro before invocation _ hcreates response next h
    exact (execute_transition h).fresh hcreates
  · rintro before ⟨context,command,durable⟩ _ id parentExecution description dependsOn
      requestedAuthority rfl response next h
    cases execute_transition h with
    | create fresh => exact (get?_eq_none _).mpr fresh
    | root creates => cases creates
    | delegate creates => cases creates
    | answer reads => cases reads
  · intro before later _
    unfold run
    rw [runAll_append]
    exact continues_run _ later
  · intro before _
    exact ⟨(hwell before).dag,(hwell before).known⟩
  · intro before invocation _ id task next hget hpending hnext hstarted
    rcases step_transition _ invocation with ⟨response,htransition⟩ | hsame
    · obtain ⟨executionId,hstate,-,found,execution,hfound,-,hdependencies,hexecution,hworker⟩ :=
        htransition.starts hget hpending hnext hstarted
      cases hfound.symm.trans hget
      exact ⟨dependenciesCompleted_iff.mp hdependencies,executionId,execution,
        hstate,hexecution,hworker⟩
    · cases hget.symm.trans (hsame ▸ hnext)
      exact absurd hpending hstarted
  · intro before invocation _ id task hget
    rcases step_transition _ invocation with ⟨response,htransition⟩ | hsame
    · exact htransition.moves hget
    · rw [hsame]
      exact ⟨task.state,hget,.inl rfl⟩
  · intro before context durable response next _ h
    cases execute_transition h with
    | root creates => cases creates
    | delegate creates => cases creates
    | answer reads runnable =>
      exact ⟨_,runnable rfl,fun id => (hwell before).mem_runnableTasks⟩

end PhenixConductor.Execution
