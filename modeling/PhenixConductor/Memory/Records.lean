import PhenixConductor.Configuration.Contribution
import PhenixConductor.Execution.Budget
import Mathlib.Order.WithBot

/-! # Memory records

A memory is an immutable record with exact sources.
-/
namespace PhenixConductor.Memory
open Collections Contract
open Execution (U64 U32)

inductive MemoryError
  | invalid (message : String)
  | missing (message : String)
  | conflict (message : String)
  | persistence (message : String)
  | provider (message : String)
deriving DecidableEq

inductive MemoryKind
  | episode
  | fact
  | procedure
  | decision
deriving DecidableEq

inductive MemoryScope
  | global
  | workspace (workspaceId : String)
  | session (sessionId : SessionId)
  | agent (agentId : String)
deriving DecidableEq

/-- The derived order of an optional value: an absent one comes first. -/
def optionKey {α : Type} (x : Option α) : WithBot α := x

structure MemorySourceReference where
  service : ServiceId
  resource : String
  start : Option U64
  stop : Option U64

namespace MemorySourceReference

/-- The derived order of the fields; `stop` is the field `end`. -/
def key (self : MemorySourceReference) : ServiceId ×ₗ String ×ₗ WithBot U64 ×ₗ WithBot U64 :=
  toLex (self.service,toLex (self.resource,toLex (optionKey self.start,optionKey self.stop)))

theorem key_injective : Function.Injective key := by
  rintro ⟨a,b,c,d⟩ ⟨a',b',c',d'⟩ h
  cases h
  rfl

instance linearOrder : LinearOrder MemorySourceReference := LinearOrder.lift' key key_injective

end MemorySourceReference

structure MemoryRecord where
  id : String
  kind : MemoryKind
  scope : MemoryScope
  content : String
  sourceRefs : List MemorySourceReference
  supersedes : List String
  validFrom : Option U64
  validUntil : Option U64
  createdAt : U64
deriving DecidableEq

structure MemoryNode where
  id : String
  scope : MemoryScope
  summary : String
  children : List String
  sourceRefs : List MemorySourceReference
  createdAt : U64
  generation : U64
deriving DecidableEq

structure MemoryRecallQuery where
  scopes : List MemoryScope
  kinds : List MemoryKind
  query : String
  time : U64
  limit : U32
deriving DecidableEq

inductive MemoryFreshness
  | current
  | needsValidation
  | historical
deriving DecidableEq

structure MemoryDependencyRevision where
  service : ServiceId
  resource : String
  revision : Option String

namespace MemoryDependencyRevision

/-- The derived order of the fields. -/
def key (self : MemoryDependencyRevision) : ServiceId ×ₗ String ×ₗ WithBot String :=
  toLex (self.service,toLex (self.resource,optionKey self.revision))

theorem key_injective : Function.Injective key := by
  rintro ⟨a,b,c⟩ ⟨a',b',c'⟩ h
  cases h
  rfl

instance linearOrder : LinearOrder MemoryDependencyRevision :=
  LinearOrder.lift' key key_injective

end MemoryDependencyRevision

structure MemoryCanonicalReference where
  service : ServiceId
  resource : String
  revision : Option String
deriving DecidableEq

structure MemoryFreshnessRecord where
  memoryId : String
  freshness : MemoryFreshness
  changedAt : U64
  dependencies : List MemoryDependencyRevision
  canonicalReference : Option MemoryCanonicalReference
deriving DecidableEq

inductive MemoryRevalidationOutcome
  | keepCurrent
  | needsValidation
  | supersede
  | expire
  | retainHistorical
deriving DecidableEq

structure ContextCheckpoint where
  scope : MemoryScope
  id : String
  summary : String
  summaryNodeId : String
  coveredRefs : List MemorySourceReference
  retainedExactRefs : List MemorySourceReference
  configurationRevision : String
deriving DecidableEq

/-- A list that is sorted, and rid of what it has twice. -/
def sortDedup {α : Type} [LinearOrder α] (l : List α) : List α := (BTreeSet.collect l).keys

@[simp] theorem mem_sortDedup {α : Type} [LinearOrder α] {l : List α} {a : α} :
    a ∈ sortDedup l ↔ a ∈ l := BTreeSet.mem_collect

/-- `str::trim` -/
def trim (text : String) : String :=
  .ofList ((text.toList.dropWhile Configuration.isWhiteSpace).reverse.dropWhile
    Configuration.isWhiteSpace).reverse

def validateText (label value : String) : Except MemoryError Unit :=
  if Configuration.isBlank value then .error (.invalid (label ++ " must not be empty")) else .ok ()

def validateScope : MemoryScope → Except MemoryError Unit
  | .global | .session _ => .ok ()
  | .workspace workspaceId => validateText "workspace id" workspaceId
  | .agent agentId => validateText "agent id" agentId

/-- The check of an identifier that is part of a key. -/
def validateKey (id : String) : Except MemoryError Unit :=
  if Configuration.isBlank id ∨ '/' ∈ id.toList then
    .error (.invalid "memory id must be non-empty and must not contain '/'")
  else .ok ()

def memoryService : ServiceId := ⟨"phenix.memory@1",by decide⟩

def contextCompactionService : ServiceId := ⟨"context.compact@1",by decide⟩

def contextExpansionService : ServiceId := ⟨"context.expand@1",by decide⟩

/-- The checks of `normalize_sources` on one source. -/
def MemorySourceReference.validate (self : MemorySourceReference) : Except MemoryError Unit := do
  validateText "memory source resource" self.resource
  if self.service = memoryService ∨ self.service = contextCompactionService ∨
      self.service = contextExpansionService then
    .error (.invalid ("memory source " ++ self.resource ++
      " must reference raw durable evidence, not derived memory"))
  else match self.start, self.stop with
    | some start, some stop =>
      if stop < start then
        .error (.invalid ("memory source " ++ self.resource ++ " starts after it ends"))
      else .ok ()
    | _, _ => .ok ()

def normalizeSources (sources : List MemorySourceReference) :
    Except MemoryError (List MemorySourceReference) := do
  sources.forM MemorySourceReference.validate
  return sortDedup sources

end PhenixConductor.Memory
