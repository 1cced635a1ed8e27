import PhenixConductor.Context.Admission

/-! # The projection of an execution's context

The projection keeps what was admitted and the compactions that are prepared.
-/
namespace PhenixConductor.Context
open Collections
open Execution (U64)

structure ProjectionRevision where
  revision : U64
  cacheEpoch : U64
deriving DecidableEq

structure ToolCallGroupReference where
  callId : String
  call : ExactContextReference
  result : ExactContextReference
deriving DecidableEq

structure ContextCheckpoint where
  checkpointId : String
  executionId : String
  sourceRevision : ProjectionRevision
  contentIdentity : String
  compactView : List UInt8
  exactSources : List ExactContextReference
  toolGroups : List ToolCallGroupReference
deriving DecidableEq

structure RetentionTransition where
  itemId : String
  fromRetention : ContextRetention
  toRetention : ContextRetention
  recovery : Option ExactContextReference
deriving DecidableEq

structure CompactionProposal where
  executionId : String
  expectedProjection : ProjectionRevision
  nextCacheEpoch : U64
  transitions : List RetentionTransition
  checkpoint : ContextCheckpoint
deriving DecidableEq

structure CompactionCommit where
  proposal : CompactionProposal
  committedProjection : ProjectionRevision
deriving DecidableEq

inductive CompactionValidationError
  | staleProjection (expected actual : ProjectionRevision)
  | cacheEpochDidNotAdvance (current proposed : U64)
  | pinnedItemDemoted (itemId : String)
  | retentionExpanded (itemId : String) (fromRetention toRetention : ContextRetention)
  | missingRecoveryReference (itemId : String) (toRetention : ContextRetention)
  | checkpointSourceMismatch
deriving DecidableEq

inductive ProjectionStateError
  | executionMismatch
  | staleAdmissionEpoch (current incoming : U64)
  | duplicatePreparedCheckpoint (checkpointId : String)
  | unknownPreparedCheckpoint (checkpointId : String)
  | unknownContextItem (itemId : String)
  | retentionMismatch (itemId : String) (actual declared : ContextRetention)
  | compaction (error : CompactionValidationError)
deriving DecidableEq

namespace ContextRetention

/-- The form that a transition to the retention leaves. -/
def form : ContextRetention → ContextProjectionForm
  | .pinned => .full
  | .full => .full
  | .compact => .full
  | .reference => .reference
  | .dropAllowed => .omitted

/-- The retention needs to say where the exact content is. -/
def NeedsRecovery (self : ContextRetention) : Prop := self = .compact ∨ self = .reference
deriving Decidable

end ContextRetention

/-- The checks of `validate_against` on one transition. -/
def RetentionTransition.validate (self : RetentionTransition) :
    Except CompactionValidationError Unit :=
  if self.fromRetention = .pinned ∧ self.toRetention ≠ .pinned then
    .error (.pinnedItemDemoted self.itemId)
  else if self.toRetention.rank < self.fromRetention.rank then
    .error (.retentionExpanded self.itemId self.fromRetention self.toRetention)
  else if self.toRetention.NeedsRecovery ∧ self.recovery = none then
    .error (.missingRecoveryReference self.itemId self.toRetention)
  else .ok ()

def CompactionProposal.validateAgainst (self : CompactionProposal) (actual : ProjectionRevision) :
    Except CompactionValidationError Unit :=
  if self.expectedProjection ≠ actual then
    .error (.staleProjection self.expectedProjection actual)
  else if self.nextCacheEpoch ≤ actual.cacheEpoch then
    .error (.cacheEpochDidNotAdvance actual.cacheEpoch self.nextCacheEpoch)
  else if self.checkpoint.sourceRevision ≠ self.expectedProjection ∨
      self.checkpoint.executionId ≠ self.executionId then
    .error .checkpointSourceMismatch
  else self.transitions.forM RetentionTransition.validate

namespace AdmittedContextItem

/-- The item after a transition. -/
def reduced (self : AdmittedContextItem) (transition : RetentionTransition) :
    AdmittedContextItem :=
  { self with
    retention := transition.toRetention
    recovery := transition.recovery <|> self.recovery
    form := transition.toRetention.form }

def preservesWithoutReadmission (self : AdmittedContextItem) : Bool :=
  self.retention = .compact || self.form = .reference || self.form = .omitted

end AdmittedContextItem

structure ContextProjectionState where
  executionId : String
  revision : ProjectionRevision
  admitted : BTreeMap String AdmittedContextItem
  committedCheckpoint : Option ContextCheckpoint
  prepared : BTreeMap String CompactionProposal
deriving DecidableEq

abbrev ProjectionM := EStateM ProjectionStateError ContextProjectionState

namespace ContextProjectionState
variable (self : ContextProjectionState)

def new (executionId : String) : ContextProjectionState := ⟨executionId,⟨0,0⟩,.empty,none,.empty⟩

/-- The items of an admission by their ids; of two items with one id the later one. -/
def admittedItems (admitted : List AdmittedContextItem) : BTreeMap String AdmittedContextItem :=
  admitted.foldl (fun items item => items.insert item.id item) .empty

/-- What is kept of the items before an admission goes back into the new ones. -/
def carriedOver (admitted : BTreeMap String AdmittedContextItem) :
    BTreeMap String AdmittedContextItem :=
  self.admitted.toList.foldl (fun items entry =>
    if entry.1 ∉ items.keys ∧ entry.2.preservesWithoutReadmission then
      items.insert entry.1 entry.2
    else items) admitted

def requireExecution (executionId : String) : Except ProjectionStateError Unit :=
  if executionId ≠ self.executionId then .error .executionMismatch else .ok ()

def requireEpoch (result : ContextAdmissionResult) : Except ProjectionStateError Unit :=
  if result.cacheEpoch < self.revision.cacheEpoch then
    .error (.staleAdmissionEpoch self.revision.cacheEpoch result.cacheEpoch)
  else .ok ()

def admissible (result : ContextAdmissionResult) : Except ProjectionStateError Unit := do
  self.requireExecution result.executionId
  self.requireEpoch result

def withAdmission (result : ContextAdmissionResult) : ContextProjectionState :=
  { self with
    prepared := .empty
    revision := ⟨saturatingAdd self.revision.revision 1,result.cacheEpoch⟩
    admitted := self.carriedOver (admittedItems result.admitted) }

def applyAdmission (result : ContextAdmissionResult) : ProjectionM Unit :=
  checked (·.admissible result) fun state _ => state.withAdmission result

/-- The admitted item that a transition is about. -/
def itemFor (transition : RetentionTransition) :
    Except ProjectionStateError AdmittedContextItem :=
  match self.admitted.get? transition.itemId with
  | none => .error (.unknownContextItem transition.itemId)
  | some item =>
    if item.retention ≠ transition.fromRetention then
      .error (.retentionMismatch transition.itemId item.retention transition.fromRetention)
    else .ok item

def unprepared (checkpointId : String) : Except ProjectionStateError Unit :=
  if checkpointId ∈ self.prepared.keys then .error (.duplicatePreparedCheckpoint checkpointId)
  else .ok ()

def preparable (proposal : CompactionProposal) : Except ProjectionStateError Unit := do
  self.requireExecution proposal.executionId
  (proposal.validateAgainst self.revision).mapError .compaction
  proposal.transitions.forM fun transition => self.itemFor transition >>= fun _ => .ok ()
  self.unprepared proposal.checkpoint.checkpointId

def prepareCompaction (proposal : CompactionProposal) : ProjectionM Unit :=
  checked (·.preparable proposal) fun state _ =>
    { state with
      prepared := state.prepared.insert proposal.checkpoint.checkpointId proposal }

def applyTransition (transition : RetentionTransition) : ProjectionM Unit :=
  checked (·.itemFor transition) fun state item =>
    { state with
      admitted := state.admitted.insert transition.itemId (item.reduced transition) }

def withCompaction (proposal : CompactionProposal) : ContextProjectionState :=
  { self with
    revision := ⟨saturatingAdd self.revision.revision 1,proposal.nextCacheEpoch⟩
    committedCheckpoint := some proposal.checkpoint
    prepared := .empty }

/-- The commit of a proposal that is no longer prepared. -/
def commitProposal (proposal : CompactionProposal) : ProjectionM CompactionCommit := do
  let state ← get
  check ((proposal.validateAgainst state.revision).mapError .compaction)
  proposal.transitions.forM applyTransition
  modify (·.withCompaction proposal)
  let state ← get
  return ⟨proposal,state.revision⟩

def commitCompaction (checkpointId : String) : ProjectionM CompactionCommit := do
  let state ← get
  match state.prepared.get? checkpointId with
  | none => throw (.unknownPreparedCheckpoint checkpointId)
  | some proposal =>
    set { state with prepared := state.prepared.erase checkpointId }
    commitProposal proposal

def invalidateForContextMutation : ContextProjectionState :=
  { self with
    prepared := .empty
    revision := ⟨saturatingAdd self.revision.revision 1,saturatingAdd self.revision.cacheEpoch 1⟩ }

end ContextProjectionState

end PhenixConductor.Context
