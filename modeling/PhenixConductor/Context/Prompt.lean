import PhenixConductor.Collections.Firsts
import PhenixConductor.Context.ProjectionState

/-! # The prompt of an execution

The loaded context of an execution is assembled in a fixed order, each exact revision once.
-/
namespace PhenixConductor.Context
open Collections Contract
open Execution (U64)

inductive ContextInjectionRequester
  | user
  | agent
  | orchestration
  | contextPolicy
  | hook
  | frontend
deriving DecidableEq

inductive ContextInjectionLifetime
  | execution
  | objective
  | session
deriving DecidableEq

structure ContextInjection where
  sequence : U64
  executionId : String
  source : ExactContextReference
  requester : ContextInjectionRequester
  lifetime : ContextInjectionLifetime
  reason : String
deriving DecidableEq

inductive ContextResourceKind
  | projectInstruction
  | projectDocument
  | skill
  | external
deriving DecidableEq

inductive ContextScope
  | workspace
  | pathPrefix (path : String)
deriving DecidableEq

structure ContextDescriptor where
  resourceId : ContextResourceId
  revision : ContextRevisionId
  kind : ContextResourceKind
  source : String
  scope : ContextScope
  contentIdentity : String
  estimatedBytes : U64
deriving DecidableEq

structure ContextResourceRevision where
  descriptor : ContextDescriptor
  content : List UInt8
deriving DecidableEq

structure ProjectedContextEntry where
  injection : ContextInjection
  resource : ContextResourceRevision

structure ExecutionContextProjection where
  executionId : String
  entries : List ProjectedContextEntry

inductive PromptSectionRole
  | instruction
  | context
deriving DecidableEq

inductive PromptSectionKind
  | harnessIdentity
  | projectInstruction
  | skill
  | projectDocument
  | external
deriving DecidableEq

structure PromptSection where
  role : PromptSectionRole
  kind : PromptSectionKind
  source : String
  reference : Option ExactContextReference
  content : List UInt8
deriving DecidableEq

structure PromptAssembly where
  executionId : String
  sections : List PromptSection

def utf8 (text : String) : List UInt8 := text.toUTF8.data.toList

def phenixHarnessIdentity : String := "You are an AI agent powered by Phenix."

/-- `section_rank` -/
def ContextResourceKind.sectionRank : ContextResourceKind → ℕ
  | .projectInstruction => 0
  | .skill => 1
  | .projectDocument => 2
  | .external => 3

namespace ProjectedContextEntry

def compareWith (left right : ProjectedContextEntry) : Ordering :=
  (compare left.resource.descriptor.kind.sectionRank
    right.resource.descriptor.kind.sectionRank).then <|
  (compare left.injection.sequence right.injection.sequence).then
    (compare left.injection.source right.injection.source)

def promptSection (entry : ProjectedContextEntry) : PromptSection where
  role := match entry.resource.descriptor.kind with
    | .projectInstruction => .instruction
    | .skill => .instruction
    | .projectDocument => .context
    | .external => .context
  kind := match entry.resource.descriptor.kind with
    | .projectInstruction => .projectInstruction
    | .skill => .skill
    | .projectDocument => .projectDocument
    | .external => .external
  source := entry.resource.descriptor.source
  reference := some entry.injection.source
  content := entry.resource.content

end ProjectedContextEntry

def harnessSection : PromptSection where
  role := .instruction
  kind := .harnessIdentity
  source := "phenix"
  reference := none
  content := utf8 phenixHarnessIdentity

/-- Of the entries in order those of a source that was seen before are passed over. -/
def assemblePrompt (projection : ExecutionContextProjection) : PromptAssembly where
  executionId := projection.executionId
  sections := harnessSection :: (firsts (·.injection.source)
    (projection.entries.insertionSort fun left right => (left.compareWith right).isLE)).map
      ProjectedContextEntry.promptSection

def harnessIdentityId : String := "phenix:harness-identity"

/-- The text of a reference. Neither of its parts is escaped. -/
def ExactContextReference.text (self : ExactContextReference) : String :=
  self.resourceId.text ++ "@" ++ self.revision.text

/-- `section_id` -/
def PromptSection.id (self : PromptSection) : String :=
  (self.reference.map ExactContextReference.text).getD harnessIdentityId

/-- `conservative_token_estimate`: the length, as far as a `u64` goes. -/
def conservativeTokenEstimate (content : List UInt8) : U64 :=
  ⟨min content.length (2 ^ 64 - 1),by omega⟩

section Candidates
variable (contentHash : List UInt8 → String)

def PromptSection.mandatory (self : PromptSection) : Bool :=
  self.kind = .harnessIdentity || self.kind = .projectInstruction || self.kind = .skill

/-- `context_candidate` -/
def contextCandidate (promptSection : PromptSection) : ContextCandidate where
  id := promptSection.id
  source := match promptSection.reference with
    | some reference => .exact reference
    | none => .inline harnessIdentityId
  contentIdentity := contentHash promptSection.content
  content := promptSection.content
  estimatedTokens := conservativeTokenEstimate promptSection.content
  mandatory := promptSection.mandatory
  retention := if promptSection.mandatory then .pinned else .full
  cache := if promptSection.mandatory then .stablePrefix else .epoch
  recovery := promptSection.reference

def checkpointCandidateId (checkpoint : ContextCheckpoint) : String :=
  "phenix:checkpoint:" ++ checkpoint.checkpointId

def checkpointCandidate (checkpoint : ContextCheckpoint) : ContextCandidate where
  id := checkpointCandidateId checkpoint
  source := .inline (checkpointCandidateId checkpoint)
  contentIdentity := checkpoint.contentIdentity
  content := checkpoint.compactView
  estimatedTokens := conservativeTokenEstimate checkpoint.compactView
  mandatory := false
  retention := .dropAllowed
  cache := .epoch
  recovery := none

/-- `is_reduced_item` -/
def AdmittedContextItem.isReduced (self : AdmittedContextItem) : Bool :=
  self.retention = .compact || self.form ≠ .full

namespace ContextProjectionState

def isReduced (self : ContextProjectionState) (id : String) : Bool :=
  (self.admitted.get? id).any (·.isReduced)

/-- The checkpoint, if it stands for some item. -/
def checkpointInUse (self : ContextProjectionState) : Option ContextCheckpoint :=
  if self.admitted.values.any (·.retention = .compact) then self.committedCheckpoint else none

end ContextProjectionState

/-- The candidates of `invocation_preparation`. -/
def invocationCandidates (projection : ExecutionContextProjection)
    (committed : Option ContextProjectionState) : List ContextCandidate :=
  (((assemblePrompt projection).sections.map (contextCandidate contentHash)).filter
      fun candidate => !committed.any (·.isReduced candidate.id)) ++
    ((committed.bind (·.checkpointInUse)).map checkpointCandidate).toList

end Candidates

end PhenixConductor.Context
