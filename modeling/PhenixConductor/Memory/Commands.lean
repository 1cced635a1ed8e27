import PhenixConductor.Memory.Retrieval
import PhenixConductor.Memory.Storage

/-! # The commands of the memory plugin

A command is a program on the store.
-/
namespace PhenixConductor.Memory
open Collections Contract
open Execution (U64 U32)

/-- What the plugin takes from its libraries: JSON encodings for and of the answers of models,
decoded text, and lower case. -/
structure MemoryLibrary where
  encodeRecords : List MemoryRecord → Except String (List UInt8)
  encodeState : MemoryRecord → MemoryFreshnessRecord → Except String (List UInt8)
  decodeOutcome : List UInt8 → Except String MemoryRevalidationOutcome
  decodeText : List UInt8 → Except String String
  lowercase : String → String

structure MemoryConsolidationRequest where
  executionId : String
  parentAttemptId : String
  profileId : RoutingProfileId
  ids : List String
  consolidatedId : String
  createdAt : U64

inductive MemoryCommand
  | record (record : MemoryRecord)
  | «recall» (query : MemoryRecallQuery)
  | consolidate (request : MemoryConsolidationRequest)
  | observeRevision (service : ServiceId) (resource revision : String) (observedAt : U64)
      (limit : U32)
  | observeConflict (source : MemorySourceReference) (affectedIds : List String)
      (observedAt : U64)
  | bindCanonicalReference (id : String) (reference : MemoryCanonicalReference)
      (observedAt : U64)
  | revalidate (id executionId parentAttemptId : String) (profileId : RoutingProfileId)
      (time : U64)
  | promote (id promotedId : String) (scope : MemoryScope) (createdAt : U64)

inductive MemoryResponse
  | record (record : MemoryRecord)
  | freshness (state : MemoryFreshnessRecord)
  | affected (memoryIds : List String)
  | «recall» (records : List MemoryRecord)
deriving DecidableEq

def memoryValidateCallable : CallableId := ⟨"memory.validate",by decide⟩

def memoryResolveCallable : CallableId := ⟨"memory.resolve",by decide⟩

def memoryConsolidateCallable : CallableId := ⟨"memory.consolidate",by decide⟩

/-- A test that has to hold. -/
def ensure (p : Prop) [Decidable p] (error : MemoryError) : Except MemoryError Unit :=
  if p then .ok () else .error error

/-- The stored memory of an identifier. -/
def readMemory (missing id : String) : MemoryM MemoryRecord := do
  let record ← readEntry .record id
  require (.missing (missing ++ id)) record

/-- The freshness of a memory, which is the initial one until another one is stored. -/
def readState (id : String) (record : MemoryRecord) : MemoryM MemoryFreshnessRecord := do
  let state ← readCell (.freshness id)
  return state.getD record.initialState

section Recording

/-- The checks of `record_memory` before anything is read. -/
def MemoryRecord.validate (self : MemoryRecord) : Except MemoryError MemoryRecord := do
  validateKey self.id
  validateScope self.scope
  validateText "memory content" self.content
  let sourceRefs ← normalizeSources self.sourceRefs
  ensure (sourceRefs ≠ [])
    (.invalid "durable memory requires at least one source reference")
  ensure (self.validFrom.all fun start => self.validUntil.all (start < ·))
    (.invalid "valid_from must be earlier than valid_until")
  return { self with
    sourceRefs := sourceRefs
    supersedes := sortDedup self.supersedes }

/-- The checks of one prior memory. -/
def MemoryRecord.supersedable (self prior : MemoryRecord) (priorId : String) :
    Except MemoryError Unit :=
  ensure (prior.kind = self.kind ∧ prior.scope = self.scope)
    (.invalid ("superseded memory " ++ priorId ++ " must have the same kind and scope"))

/-- The next freshness records of the memories that are superseded. -/
def supersedePriors (record : MemoryRecord) :
    List String → MemoryM (List (String × MemoryFreshnessRecord))
  | [] => return []
  | priorId :: priorIds => do
    check (validateKey priorId)
    check (ensure (priorId ≠ record.id) (.invalid "memory cannot supersede itself"))
    let prior ← readMemory "superseded memory " priorId
    check (record.supersedable prior priorId)
    let state ← readState priorId prior
    let states ← supersedePriors record priorIds
    return (priorId,state.superseded record.effectiveAt) :: states

def recordMemory (record : MemoryRecord) : MemoryM MemoryRecord := do
  let record ← check record.validate
  let supersededStates ← supersedePriors record record.supersedes
  let state := record.initialState
  insertRecordWith .record record.id record (some state)
    (some (state.dependencies.map fun d => dependencyKey d.service d.resource)) supersededStates
  return record

end Recording

variable (library : MemoryLibrary)

section Models

def routedModelBytes (request : HelperInvocationRequest) (label : String) :
    MemoryM (List UInt8) := do
  let response ← askCall (MemoryCall.invoke request)
  let output ← check (response.mapError .provider)
  check (ensure (output ≠ []) (.provider (label ++ " returned an empty model response")))
  return output

def routedMemoryText (executionId parentAttemptId : String) (profileId : RoutingProfileId)
    (callableId : CallableId) (input : List UInt8) (label : String) : MemoryM String := do
  let output ← routedModelBytes
    ⟨executionId,parentAttemptId,profileId,.helper,callableId,input⟩ label
  let text ← check ((library.decodeText output).mapError .provider)
  check (validateText label (trim text))
  return trim text

def routedRevalidation (executionId parentAttemptId : String) (profileId : RoutingProfileId)
    (callableId : CallableId) (record : MemoryRecord) (state : MemoryFreshnessRecord) :
    MemoryM MemoryRevalidationOutcome := do
  let input ← check ((library.encodeState record state).mapError .provider)
  let output ← routedModelBytes
    ⟨executionId,parentAttemptId,profileId,.verification,callableId,input⟩ "memory revalidation"
  check ((library.decodeOutcome output).mapError fun error =>
    .provider ("invalid memory revalidation outcome: " ++ error))

end Models

def readMemories : List String → MemoryM (List MemoryRecord)
  | [] => return []
  | id :: ids => do
    check (validateKey id)
    let record ← readMemory "memory " id
    let records ← readMemories ids
    return record :: records

/-- The record that takes the place of several of one kind and scope. -/
def MemoryConsolidationRequest.merged (self : MemoryConsolidationRequest) (first : MemoryRecord)
    (ids : List String) (content : String) (sourceRefs : List MemorySourceReference) :
    MemoryRecord where
  id := self.consolidatedId
  kind := first.kind
  scope := first.scope
  content := content
  sourceRefs := sourceRefs
  supersedes := ids
  validFrom := none
  validUntil := none
  createdAt := self.createdAt

def consolidateMemory (request : MemoryConsolidationRequest) : MemoryM MemoryRecord := do
  check (ensure (2 ≤ request.ids.length ∧ request.ids.length ≤ 100)
    (.invalid "memory consolidation requires between 2 and 100 records"))
  let ids := sortDedup request.ids
  check (ensure (ids.length = request.ids.length)
    (.invalid "memory consolidation requires distinct records"))
  let records ← readMemories ids
  let first ← require (.invalid "memory consolidation requires between 2 and 100 records")
    records.head?
  check (ensure (∀ record ∈ records, record.kind = first.kind ∧ record.scope = first.scope)
    (.invalid "consolidated memory must have the same kind and scope"))
  let sourceRefs ← check (normalizeSources (records.flatMap (·.sourceRefs)))
  let input ← check ((library.encodeRecords records).mapError .provider)
  let content ← routedMemoryText library request.executionId request.parentAttemptId
    request.profileId memoryConsolidateCallable input "memory consolidation"
  recordMemory (request.merged first ids content sourceRefs)

/-- A promotion goes from a session to what outlives it. -/
def promotable (source target : MemoryScope) : Except MemoryError Unit :=
  match source, target with
  | .session _, .session _ => .error (.invalid "promotion target must outlive the source session")
  | .session _, _ => .ok ()
  | _, _ => .error (.invalid "promotion requires a session-scoped source memory")

def promoteMemory (id promotedId : String) (scope : MemoryScope) (createdAt : U64) :
    MemoryM MemoryRecord := do
  check (validateKey id)
  let source ← readMemory "memory " id
  check (promotable source.scope scope)
  recordMemory { source with
    id := promotedId
    scope := scope
    supersedes := []
    createdAt := createdAt }

def bindable (record : MemoryRecord) : Except MemoryError Unit :=
  ensure (record.kind = .decision)
    (.invalid "canonical references are only valid for decision memory")

def bindCanonicalReference (id : String) (reference : MemoryCanonicalReference)
    (observedAt : U64) : MemoryM MemoryFreshnessRecord := do
  check (validateText "canonical resource" reference.resource)
  check (ensure (reference.service ≠ memoryService)
    (.invalid "decision memory cannot use memory as its canonical decision service"))
  check (validateKey id)
  let record ← readMemory "memory " id
  check (bindable record)
  let state ← readState id record
  let state := { state with
    canonicalReference := some reference
    changedAt := observedAt }
  writeFreshnessWithEntry id state (dependencyKey reference.service reference.resource)
  return state

section Observing

/-- The turn of the loop of `observe_revision` for one memory: whether it is affected. -/
def observeMemory (service : ServiceId) (resource revision : String) (observedAt : U64)
    (id : String) : MemoryM Bool := do
  check (validateKey id)
  let record ← readEntry .record id
  let record ← require (.persistence ("missing dependency-indexed memory " ++ id)) record
  let state ← readState id record
  if state.AffectedBy service resource revision then do
    writeFreshness id (state.observeRevisionChange service resource revision observedAt)
    return true
  else return false

def observeMemories (service : ServiceId) (resource revision : String) (observedAt : U64) :
    List String → MemoryM (List String)
  | [] => return []
  | id :: ids => do
    let isAffected ← observeMemory service resource revision observedAt id
    let affected ← observeMemories service resource revision observedAt ids
    return if isAffected then id :: affected else affected

def observeRevision (service : ServiceId) (resource revision : String) (observedAt : U64)
    (limit : U32) : MemoryM (List String) := do
  check (validateText "source resource" resource)
  check (validateText "source revision" revision)
  check (ensure (1 ≤ limit.val ∧ limit.val ≤ 100)
    (.invalid "revision observation limit must be between 1 and 100"))
  let ids ← loadSecondaryIds (dependencyKey service resource) limit.val
  observeMemories service resource revision observedAt ids

/-- The turn of the loop of `observe_conflict` for one memory: whether it was current. -/
def conflictMemory (dependency : MemoryDependencyRevision) (observedAt : U64) (id : String) :
    MemoryM Bool := do
  check (validateKey id)
  let record ← readMemory "memory " id
  let state ← readState id record
  writeFreshnessWithEntry id ((state.withDependency dependency).questioned observedAt)
    (dependencyKey dependency.service dependency.resource)
  return state.freshness = .current

def conflictMemories (dependency : MemoryDependencyRevision) (observedAt : U64) :
    List String → MemoryM (List String)
  | [] => return []
  | id :: ids => do
    let wasCurrent ← conflictMemory dependency observedAt id
    let affected ← conflictMemories dependency observedAt ids
    return if wasCurrent then id :: affected else affected

def observeConflict (source : MemorySourceReference) (affectedIds : List String)
    (observedAt : U64) : MemoryM (List String) := do
  check (ensure (affectedIds ≠ [] ∧ affectedIds.length ≤ 100)
    (.invalid "conflicting evidence must affect between 1 and 100 memories"))
  let ids := sortDedup affectedIds
  check (ensure (ids.length = affectedIds.length)
    (.invalid "conflicting evidence requires distinct affected memories"))
  check source.validate
  conflictMemories source.dependency observedAt ids

end Observing

section Revalidating

/-- The freshness that an outcome leads to. -/
def MemoryRevalidationOutcome.freshness : MemoryRevalidationOutcome → MemoryFreshness
  | .keepCurrent => .current
  | .needsValidation => .needsValidation
  | .supersede | .expire | .retainHistorical => .historical

/-- What the models say: a second one is asked where the first one does not decide. -/
def routedOutcome (executionId parentAttemptId : String) (profileId : RoutingProfileId)
    (record : MemoryRecord) (state : MemoryFreshnessRecord) :
    MemoryM MemoryRevalidationOutcome := do
  let validated ← routedRevalidation library executionId parentAttemptId profileId
    memoryValidateCallable record state
  if validated = .needsValidation then
    routedRevalidation library executionId parentAttemptId profileId memoryResolveCallable
      record state
  else return validated

def settleRevalidation (id : String) (state : MemoryFreshnessRecord) (time : U64)
    (outcome : MemoryRevalidationOutcome) : MemoryM MemoryFreshnessRecord := do
  writeFreshness id (state.changed outcome.freshness time)
  return state.changed outcome.freshness time

def revalidateMemory (id executionId parentAttemptId : String) (profileId : RoutingProfileId)
    (time : U64) : MemoryM MemoryFreshnessRecord := do
  check (validateKey id)
  let record ← readMemory "memory " id
  let state ← readState id record
  match state.deterministicOutcome record time with
  | .keepCurrent | .retainHistorical => return state
  | .expire => settleRevalidation id state time .expire
  | .supersede => settleRevalidation id state time .supersede
  | .needsValidation => do
    let outcome ← routedOutcome library executionId parentAttemptId profileId record state
    settleRevalidation id state time outcome

end Revalidating

section Recalling

/-- A current memory whose validity has ended becomes historical. -/
def expireMemory (id : String) (state : MemoryFreshnessRecord) (time : U64) :
    MemoryM MemoryFreshnessRecord := do
  if state.freshness = .current then do
    writeFreshness id (state.changed .historical time)
    return state.changed .historical time
  else return state

/-- Whether a memory counts as current at the time of a query. -/
def considerMemory (time : U64) (record : MemoryRecord) : MemoryM Bool := do
  check (validateKey record.id)
  let state ← readState record.id record
  match state.deterministicOutcome record time with
  | .keepCurrent => return true
  | .expire => do
    let state ← expireMemory record.id state time
    return decide (time < state.changedAt)
  | .needsValidation | .retainHistorical => return decide (time < state.changedAt)
  | .supersede => return false

def currentMemories (time : U64) : List MemoryRecord → MemoryM (List MemoryRecord)
  | [] => return []
  | record :: records => do
    let isCurrent ← considerMemory time record
    let rest ← currentMemories time records
    return if isCurrent then record :: rest else rest

/-- `append_semantic_candidates` -/
def appendSemanticCandidates (current : List MemoryRecord) (query : MemoryRecallQuery)
    (limit : ℕ) (candidates : List MemoryRecord) : MemoryM (List MemoryRecord) := do
  if Configuration.isBlank query.query ∨ limit = 0 then return candidates
  else do
    let pool ← check («recall» library.lowercase current { query with
      query := ""
      limit := 100 })
    if pool = [] then return candidates
    else do
      let response ← askCall (MemoryCall.embed (query.query :: pool.map (·.content)))
      return withSimilar candidates pool limit response

def rankCandidates (query : MemoryRecallQuery) (candidates : List MemoryRecord) :
    MemoryM (List MemoryRecord) := do
  if candidates.length ≤ 1 then return candidates.take query.limit.val
  else do
    let response ← askCall (MemoryCall.rank
      ⟨query.query,candidates.map fun record => (record.id,record.content),query.limit⟩)
    return withRanking candidates query.limit.val response

/-- `requested_limit.saturating_mul(4).min(100)` -/
def candidateLimit (limit : U32) : U32 :=
  ⟨min (4 * limit.val) 100,by omega⟩

def recallMemory (query : MemoryRecallQuery) : MemoryM (List MemoryRecord) := do
  let records ← loadRecords .record
  let current ← currentMemories query.time records
  let candidates ← check («recall» library.lowercase current { query with
    limit := candidateLimit query.limit })
  let candidates ← appendSemanticCandidates library current query
    (candidateLimit query.limit).val candidates
  rankCandidates query candidates

end Recalling

/-- `handle`, without the events of a recall and of a revalidation. -/
def MemoryCommand.handle : MemoryCommand → MemoryM MemoryResponse
  | record memory => MemoryResponse.record <$> recordMemory memory
  | «recall» query => MemoryResponse.«recall» <$> recallMemory library query
  | consolidate request => MemoryResponse.record <$> consolidateMemory library request
  | observeRevision service resource revision observedAt limit =>
    MemoryResponse.affected <$> Memory.observeRevision service resource revision observedAt limit
  | observeConflict source affectedIds observedAt =>
    MemoryResponse.affected <$> Memory.observeConflict source affectedIds observedAt
  | bindCanonicalReference id reference observedAt =>
    MemoryResponse.freshness <$> Memory.bindCanonicalReference id reference observedAt
  | revalidate id executionId parentAttemptId profileId time =>
    MemoryResponse.freshness <$>
      revalidateMemory library id executionId parentAttemptId profileId time
  | promote id promotedId scope createdAt =>
    MemoryResponse.record <$> promoteMemory id promotedId scope createdAt

end PhenixConductor.Memory
