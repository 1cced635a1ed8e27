import PhenixConductor.Memory.Commands

/-! # What a commit of the plugin changes

A commit inserts a record, with the freshness of those that it supersedes, or renews the
freshness of one memory.
-/
namespace PhenixConductor.Memory
open Collections
open Execution (U64)

/-- The freshness of a stored memory. -/
def stateOf (s : MemoryStore) (id : String) (record : MemoryRecord) : MemoryFreshnessRecord :=
  (s (.freshness id)).getD record.initialState

def dependenciesOf (s : MemoryStore) : DependencyIndex := (s .dependencies).getD .empty

section Turns
variable (library : MemoryLibrary) (allowed : StoreTurn MemoryCall.Reply → Prop)

/-- An outcome that the models may decide on: one that leaves it open is asked for again. -/
def Answered (outcome : MemoryRevalidationOutcome) : Prop :=
  ∃ turn, allowed turn ∧ ∃ request bytes, turn.reply (.invoke request) = .ok bytes ∧
    library.decodeOutcome bytes = .ok outcome ∧
      (outcome = .needsValidation → request.callableId = memoryResolveCallable)

/-- The next freshness that a command gives a memory, with the entry of the dependency index that
the memory is added to. -/
inductive Renewal (id : String) (record : MemoryRecord) (old : MemoryFreshnessRecord) :
    MemoryCommand → MemoryFreshnessRecord → Option DependencyKey → Prop
  | expired {query} (hcurrent : old.freshness = .current) (hended : record.EndedBy query.time) :
    Renewal id record old (.«recall» query) (old.changed .historical query.time) none
  | observed {service resource revision observedAt limit}
      (haffected : old.AffectedBy service resource revision) :
    Renewal id record old (.observeRevision service resource revision observedAt limit)
      (old.observeRevisionChange service resource revision observedAt) none
  | conflicted {source affectedIds observedAt} (hid : id ∈ affectedIds) :
    Renewal id record old (.observeConflict source affectedIds observedAt)
      ((old.withDependency source.dependency).questioned observedAt)
      (some (dependencyKey source.service source.resource))
  | bound {reference observedAt} (hkind : record.kind = .decision) :
    Renewal id record old (.bindCanonicalReference id reference observedAt)
      { old with
        canonicalReference := some reference
        changedAt := observedAt } (some (dependencyKey reference.service reference.resource))
  | ended {executionId parentAttemptId profileId time} (hlive : old.freshness ≠ .historical)
      (hended : record.EndedBy time) :
    Renewal id record old (.revalidate id executionId parentAttemptId profileId time)
      (old.changed .historical time) none
  | validated {executionId parentAttemptId profileId time outcome}
      (hopen : old.freshness = .needsValidation) (hended : ¬record.EndedBy time)
      (houtcome : Answered library allowed outcome) :
    Renewal id record old (.revalidate id executionId parentAttemptId profileId time)
      (old.changed outcome.freshness time) none

/-- The store with the next freshness of a memory. -/
def MemoryStore.renew (s : MemoryStore) (id : String) (state : MemoryFreshnessRecord) :
    Option DependencyKey → MemoryStore
  | none => Function.update s (.freshness id) (some state)
  | some entry => Function.update (Function.update s (.freshness id) (some state)) .dependencies
      (some ((dependenciesOf s).addEntry id entry))

/-- The freshness of a memory after it is superseded. -/
def supersededState (s : MemoryStore) (time : U64) (id : String) :
    Option MemoryFreshnessRecord :=
  (s (.entry .record id)).map fun prior => (stateOf s id prior).superseded time

/-- The entries of the dependency index for what a record rests on. -/
def MemoryRecord.entries (self : MemoryRecord) : List DependencyKey :=
  self.initialState.dependencies.map fun d => dependencyKey d.service d.resource

/-- The store with one more record. -/
def MemoryStore.add (s : MemoryStore) (record : MemoryRecord) : MemoryStore
  | .index .record => some (addId ((s (.index .record)).getD []) record.id)
  | .entry .record id => if id = record.id then some record else s (.entry .record id)
  | .freshness id =>
    if id ∈ record.supersedes then supersededState s record.effectiveAt id
    else if id = record.id then some record.initialState
    else s (.freshness id)
  | .dependencies => some (record.entries.foldl (DependencyIndex.addEntry record.id)
      (dependenciesOf s))
  | cell => s cell

/-- The record that a command inserts. -/
def MemoryCommand.Inserts : MemoryCommand → MemoryRecord → Prop
  | .record memory, added => memory.validate = .ok added
  | .consolidate request, added => added.createdAt = request.createdAt ∧ added.validFrom = none
  | .promote _ _ _ _, added => added.supersedes = []
  | _, _ => False

/-- The record is new, and what it supersedes is stored. -/
structure MemoryRecord.Insertable (record : MemoryRecord) (s : MemoryStore) : Prop where
  keyed : validateKey record.id = .ok ()
  absent : s (.entry .record record.id) = none
  stateless : s (.freshness record.id) = none
  priors : ∀ id ∈ record.supersedes, id ≠ record.id ∧ (s (.entry .record id)).isSome

inductive MemoryStep (command : MemoryCommand) : MemoryStore → MemoryStore → Prop
  | stay (s) : MemoryStep command s s
  | renewed {s id record state entry} (hkey : validateKey id = .ok ())
      (hrecord : s (.entry .record id) = some record)
      (h : Renewal library allowed id record (stateOf s id record) command state entry) :
    MemoryStep command s (MemoryStore.renew s id state entry)
  | added {s record} (hinserts : command.Inserts record) (h : record.Insertable s) :
    MemoryStep command s (MemoryStore.add s record)

end Turns

section Cells
variable {s : MemoryStore} {id : String} {state : MemoryFreshnessRecord}
  {entry : Option DependencyKey}

open MemoryStore (renew)
@[simp] theorem renew_index (c : MemoryCollection) :
    renew s id state entry (.index c) = s (.index c) := by
  cases entry <;> simp [renew]

@[simp] theorem renew_entry (c : MemoryCollection) (k : String) :
    renew s id state entry (.entry c k) = s (.entry c k) := by
  cases entry <;> simp [renew]

theorem renew_freshness (k : String) : renew s id state entry (.freshness k) =
    if k = id then some state else s (.freshness k) := by
  by_cases h : k = id
  · subst k
    cases entry <;> simp [renew]
  · cases entry <;> simp [renew, h]

@[simp] theorem renew_freshness_self :
    renew s id state entry (.freshness id) = some state := by
  simp [renew_freshness]

theorem renew_freshness_of_ne {k : String} (h : k ≠ id) :
    renew s id state entry (.freshness k) = s (.freshness k) := by
  simp [renew_freshness, h]

@[simp] theorem stateOf_renew_self {record : MemoryRecord} :
    stateOf (renew s id state entry) id record = state := by
  simp [stateOf]

theorem stateOf_renew_of_ne {k : String} {record : MemoryRecord} (h : k ≠ id) :
    stateOf (renew s id state entry) k record = stateOf s k record := by
  simp [stateOf,renew_freshness_of_ne h]

theorem dependenciesOf_renew : dependenciesOf (renew s id state entry) =
    entry.elim (dependenciesOf s) ((dependenciesOf s).addEntry id) := by
  cases entry <;> simp [renew, dependenciesOf]

section Adding
variable {record : MemoryRecord}

theorem add_entry (k : String) : MemoryStore.add s record (.entry .record k) =
    if k = record.id then some record else s (.entry .record k) := rfl

theorem add_freshness (k : String) : MemoryStore.add s record (.freshness k) =
    if k ∈ record.supersedes then supersededState s record.effectiveAt k
    else if k = record.id then some record.initialState else s (.freshness k) := rfl

theorem dependenciesOf_add : dependenciesOf (MemoryStore.add s record) =
    record.entries.foldl (DependencyIndex.addEntry record.id) (dependenciesOf s) := rfl

theorem mem_addId {ids : List String} {k : String} : k ∈ addId ids id ↔ k ∈ ids ∨ k = id := by
  simp [addId]

theorem mem_index_add (k : String) :
    k ∈ (MemoryStore.add s record (.index .record)).getD [] ↔
      k ∈ (s (.index .record)).getD [] ∨ k = record.id := mem_addId

end Adding

end Cells

end PhenixConductor.Memory
