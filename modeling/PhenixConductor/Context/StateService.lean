import PhenixConductor.Context.Prompt
import PhenixConductor.Execution.Task

/-! # The projections of all executions

The plugin keeps the projections in memory and stores all of them as one snapshot.
-/
namespace PhenixConductor.Context
open Collections Contract
open EStateM (adaptExcept)

def contextProjectionStateKey : String := "projection/service-state"

def maxContextProjectionStateBytes : ℕ := 16 * 1024 * 1024

inductive ContextStateServiceError
  | invalidSnapshot (error : String)
  | snapshotTooLarge (bytes allowed : ℕ)
  | unknownExecution (executionId : String)
  | projection (error : ProjectionStateError)
deriving DecidableEq

structure ContextStateService where
  projections : BTreeMap String ContextProjectionState

instance ContextStateService.decidableEq : DecidableEq ContextStateService := fun a b =>
  decidable_of_iff (a.projections = b.projections) <| by
    cases a
    cases b
    exact ⟨congrArg _,fun h => congrArg _ h⟩

/-- The JSON encodings of what the plugin stores. -/
structure ContextCodec where
  encodeState : ContextStateService → Except String (List UInt8)
  decodeState : List UInt8 → Except String ContextStateService
  encodeInjections : List ContextInjection → Except String (List UInt8)
  decodeInjections : List UInt8 → Except String (List ContextInjection)
  decodeResource : List UInt8 → Except String ContextResourceRevision

inductive ContextCommand
  | getProjectionState (executionId : String)
  | admission (request : ContextAdmissionRequest)
  | prepareCompaction (proposal : CompactionProposal)
  | commitCompaction (executionId checkpointId : String)
  | invalidateProjection (executionId : String)
  | load (executionId : String) (resourceId : ContextResourceId) (revision : ContextRevisionId)
      (requester : ContextInjectionRequester) (lifetime : ContextInjectionLifetime)
      (reason : String)

inductive ContextResponse
  | projectionState (projection : ProjectionRevision)
  | admission (result : ContextAdmissionResult) (projection : ProjectionRevision)
  | compactionPrepared (checkpointId : String) (projection : ProjectionRevision)
  | compactionCommitted (commit : CompactionCommit)
  | projectionInvalidated (projection : ProjectionRevision)
  | loaded (injection : ContextInjection) (resource : ContextResourceRevision)

/-- The error that is printed at the end of a message. -/
inductive ContextCause
  | admission (error : ContextAdmissionError)
  | projection (error : ProjectionStateError)
  | service (error : ContextStateServiceError)
  | execution (state : Execution.ExecutionState)

structure ContextFailure where
  text : String
  cause : Option ContextCause

abbrev ServiceM := EStateM ContextFailure ContextStateService

namespace ContextStateService
variable (self : ContextStateService)

def empty : ContextStateService := ⟨.empty⟩

/-- A size that a snapshot may have. -/
def requireSize (bytes : List UInt8) : Except ContextStateServiceError Unit :=
  if maxContextProjectionStateBytes < bytes.length then
    .error (.snapshotTooLarge bytes.length maxContextProjectionStateBytes)
  else .ok ()

def restore (codec : ContextCodec) :
    Option (List UInt8) → Except ContextStateServiceError ContextStateService
  | some bytes => do
    requireSize bytes
    (codec.decodeState bytes).mapError .invalidSnapshot
  | none => .ok .empty

def snapshot (codec : ContextCodec) : Except ContextStateServiceError (List UInt8) := do
  let bytes ← (codec.encodeState self).mapError .invalidSnapshot
  requireSize bytes
  return bytes

def projection (executionId : String) : Option ContextProjectionState :=
  self.projections.get? executionId

def projectionRevision (executionId : String) : ProjectionRevision :=
  ((self.projection executionId).map (·.revision)).getD ⟨0,0⟩

def put (executionId : String) (state : ContextProjectionState) : ContextStateService :=
  ⟨self.projections.insert executionId state⟩

/-- The service with the projection invalidated, if there is one. -/
def invalidateIfPresent (executionId : String) : Option ContextStateService :=
  (self.projection executionId).map fun state =>
    self.put executionId state.invalidateForContextMutation

end ContextStateService

/-- An operation on a projection and its place in the service. -/
def inPlace {α : Type} (executionId : String) (state : ContextProjectionState)
    (x : ProjectionM α) : EStateM ProjectionStateError ContextStateService α := fun service =>
  match x state with
  | .ok a next => .ok a (service.put executionId next)
  | .error e next => .error e (service.put executionId next)

/-- `projection_mut`, with what is done to the projection. -/
def projectionMut {α : Type} (executionId : String) (x : ProjectionM α) :
    EStateM ContextStateServiceError ContextStateService α := fun service =>
  match service.projection executionId with
  | none => .error (.unknownExecution executionId) service
  | some state => adaptExcept .projection (inPlace executionId state x) service

/-- An operation with the projection's revision after it. -/
def withRevision {α : Type} (x : ProjectionM α) : ProjectionM (α × ProjectionRevision) := do
  let a ← x
  let state ← get
  return (a,state.revision)

/-- A projection that is not there yet is made before the admission is applied to it. -/
def applyAdmission (executionId : String) (result : ContextAdmissionResult) :
    ServiceM ContextResponse := do
  let service ← get
  let state := (service.projection executionId).getD (.new executionId)
  let (_,projection) ← adaptExcept
    (fun error => ⟨"context projection update failed: ",some (.projection error)⟩)
    (inPlace executionId state (withRevision (ContextProjectionState.applyAdmission result)))
  return .admission result projection

def admitContext (request : ContextAdmissionRequest) : ServiceM ContextResponse := do
  let result ← check (request.admission.mapError
    fun error => ⟨"context admission failed: ",some (.admission error)⟩)
  applyAdmission request.executionId result

/-- The failure of a service command in the words of the plugin. -/
def serviceFailure (text : String) (error : ContextStateServiceError) : ContextFailure :=
  ⟨text,some (.service error)⟩

def prepareContextCompaction (proposal : CompactionProposal) : ServiceM ContextResponse := do
  let (_,projection) ← adaptExcept (serviceFailure "context compaction prepare failed: ")
    (projectionMut proposal.executionId
      (withRevision (ContextProjectionState.prepareCompaction proposal)))
  return .compactionPrepared proposal.checkpoint.checkpointId projection

def commitContextCompaction (executionId checkpointId : String) : ServiceM ContextResponse := do
  let commit ← adaptExcept (serviceFailure "context compaction commit failed: ")
    (projectionMut executionId (ContextProjectionState.commitCompaction checkpointId))
  return .compactionCommitted commit

def invalidateContextProjection (executionId : String) : ServiceM ContextResponse := do
  let (_,projection) ← adaptExcept (serviceFailure "context projection invalidation failed: ")
    (projectionMut executionId
      (withRevision (modify ContextProjectionState.invalidateForContextMutation)))
  return .projectionInvalidated projection

/-- `ContextStateService::handle_state_command` -/
def ContextCommand.onState : ContextCommand → Option (ServiceM ContextResponse)
  | .getProjectionState executionId => some do
    let service ← get
    return .projectionState (service.projectionRevision executionId)
  | .admission request => some (admitContext request)
  | .prepareCompaction proposal => some (prepareContextCompaction proposal)
  | .commitCompaction executionId checkpointId =>
    some (commitContextCompaction executionId checkpointId)
  | .invalidateProjection executionId => some (invalidateContextProjection executionId)
  | .load .. => none

end PhenixConductor.Context
