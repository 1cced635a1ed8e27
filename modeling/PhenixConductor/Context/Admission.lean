import PhenixConductor.Collections.SortKey
import PhenixConductor.Collections.Fallible
import PhenixConductor.Contract.Schema
import PhenixConductor.Execution.Budget

/-! # Admission of context

Candidates are sorted and taken one after another while they fit a budget.
-/
namespace PhenixConductor.Context
open Collections Contract
open Execution (U64 U32)

inductive ContextRetention
  | pinned
  | full
  | compact
  | reference
  | dropAllowed

inductive CachePlacement
  | stablePrefix
  | epoch
  | volatile

namespace ContextRetention

/-- The derived order, which is also that of `retention_rank`. -/
def rank : ContextRetention → ℕ
  | .pinned => 0
  | .full => 1
  | .compact => 2
  | .reference => 3
  | .dropAllowed => 4

theorem rank_injective : Function.Injective rank := by
  intro a b h
  cases a <;> cases b <;> first | rfl | cases h

instance linearOrder : LinearOrder ContextRetention := LinearOrder.lift' rank rank_injective

end ContextRetention

namespace CachePlacement

/-- The derived order. -/
def rank : CachePlacement → ℕ
  | .stablePrefix => 0
  | .epoch => 1
  | .volatile => 2

theorem rank_injective : Function.Injective rank := by
  intro a b h
  cases a <;> cases b <;> first | rfl | cases h

instance linearOrder : LinearOrder CachePlacement := LinearOrder.lift' rank rank_injective

end CachePlacement

structure ExactContextReference where
  resourceId : ContextResourceId
  revision : ContextRevisionId

namespace ExactContextReference

/-- The derived order: the resource first. -/
def key (self : ExactContextReference) : ContextResourceId ×ₗ ContextRevisionId :=
  toLex (self.resourceId,self.revision)

theorem key_injective : Function.Injective key := by
  rintro ⟨a,b⟩ ⟨c,d⟩ h
  cases h
  rfl

instance linearOrder : LinearOrder ExactContextReference := LinearOrder.lift' key key_injective

end ExactContextReference

inductive ContextSource
  | exact (reference : ExactContextReference)
  | memory (memoryId : String)
  | tool (callId : String)
  | skill (skillId : String)
  | delegation (taskId : String)
  | inline (identity : String)
deriving DecidableEq

structure ContextCandidate where
  id : String
  source : ContextSource
  contentIdentity : String
  content : List UInt8
  estimatedTokens : U64
  mandatory : Bool
  retention : ContextRetention
  cache : CachePlacement
  recovery : Option ExactContextReference
deriving DecidableEq

inductive ContextProjectionForm
  | full
  | reference
  | omitted
deriving DecidableEq

structure AdmittedContextItem where
  id : String
  source : ContextSource
  contentIdentity : String
  form : ContextProjectionForm
  cache : CachePlacement
  retention : ContextRetention
  estimatedTokens : U64
  recovery : Option ExactContextReference
deriving DecidableEq

/-- The demand of a step on its context; what admission reads of it. -/
structure ContextDemand where
  mandatoryInputTokens : U64
  reducibleInputTokens : U64
deriving DecidableEq

def ContextDemand.totalInputTokens (self : ContextDemand) : U64 :=
  saturatingAdd self.mandatoryInputTokens self.reducibleInputTokens

structure StepPlan where
  policyRevision : String
  context : ContextDemand
deriving DecidableEq

structure ContextAdmissionRequest where
  executionId : String
  stepPlan : StepPlan
  candidates : List ContextCandidate
  cacheEpoch : U64
deriving DecidableEq

structure ContextAdmissionResult where
  executionId : String
  policyRevision : String
  cacheEpoch : U64
  admitted : List AdmittedContextItem
  usedInputTokens : U64
  omittedInputTokens : U64
  deduplicatedItems : U32
deriving DecidableEq

inductive ContextAdmissionError
  | mandatoryContextExhausted (required budget : U64)
  | lossyProjectionWithoutRecovery (id : String)
deriving DecidableEq

namespace ContextCandidate

def compareWith (left right : ContextCandidate) : Ordering :=
  (compare right.mandatory left.mandatory).then <| (compare left.cache right.cache).then <|
    (compare left.retention right.retention).then (compare left.id right.id)

def projected (self : ContextCandidate) (form : ContextProjectionForm) : AdmittedContextItem where
  id := self.id
  source := self.source
  contentIdentity := self.contentIdentity
  form := form
  cache := self.cache
  retention := self.retention
  estimatedTokens := self.estimatedTokens
  recovery := self.recovery

def formOf (self : ContextCandidate) (fits : Bool) :
    Except ContextAdmissionError ContextProjectionForm :=
  if self.mandatory || fits then .ok .full
  else if self.recovery.isSome then .ok .reference
  else if self.retention = .dropAllowed then .ok .omitted
  else .error (.lossyProjectionWithoutRecovery self.id)

end ContextCandidate

/-- The variables of the loop. -/
structure AdmissionState where
  identities : BTreeSet String
  used : U64
  omitted : U64
  deduplicated : U32
  admitted : List AdmittedContextItem

namespace AdmissionState

def empty : AdmissionState := ⟨.empty,0,0,0,[]⟩

def project (self : AdmissionState) (candidate : ContextCandidate) :
    ContextProjectionForm → AdmissionState
  | .full => { self with used := saturatingAdd self.used candidate.estimatedTokens }
  | .reference => { self with omitted := saturatingAdd self.omitted candidate.estimatedTokens }
  | .omitted => { self with omitted := saturatingAdd self.omitted candidate.estimatedTokens }

def push (self : AdmissionState) (candidate : ContextCandidate) (form : ContextProjectionForm) :
    AdmissionState :=
  { self.project candidate form with
    identities := self.identities.insert candidate.contentIdentity ()
    admitted := self.admitted ++ [candidate.projected form] }

/-- The body of the loop. -/
def consider (budget : U64) (self : AdmissionState) (candidate : ContextCandidate) :
    Except ContextAdmissionError AdmissionState :=
  if candidate.contentIdentity ∈ self.identities.keys then
    .ok { self with deduplicated := saturatingAdd self.deduplicated 1 }
  else
    (candidate.formOf (saturatingAdd self.used candidate.estimatedTokens ≤ budget)).map
      (self.push candidate)

end AdmissionState

namespace ContextAdmissionRequest
variable (self : ContextAdmissionRequest)

/-- The candidates in the order that they are looked at in. -/
def ordered : List ContextCandidate :=
  self.candidates.insertionSort fun left right => (left.compareWith right).isLE

def budget : U64 := self.stepPlan.context.totalInputTokens

def mandatoryTokens : U64 :=
  (self.ordered.filter (·.mandatory)).foldl (fun total c => saturatingAdd total c.estimatedTokens) 0

/-- `admit`. -/
def admission : Except ContextAdmissionError ContextAdmissionResult :=
  if self.budget < self.mandatoryTokens then
    .error (.mandatoryContextExhausted self.mandatoryTokens self.budget)
  else (self.ordered.foldlM (AdmissionState.consider self.budget) .empty).map fun state =>
    { executionId := self.executionId
      policyRevision := self.stepPlan.policyRevision
      cacheEpoch := self.cacheEpoch
      admitted := state.admitted
      usedInputTokens := state.used
      omittedInputTokens := state.omitted
      deduplicatedItems := state.deduplicated }

@[simp] theorem mem_ordered {candidate : ContextCandidate} :
    candidate ∈ self.ordered ↔ candidate ∈ self.candidates :=
  (List.perm_insertionSort _ _).mem_iff

end ContextAdmissionRequest

end PhenixConductor.Context
