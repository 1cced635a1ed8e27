import PhenixConductor.Execution.Budget
import PhenixConductor.Configuration.Contribution

/-! # Executions, callables and worker tasks

The records that the execution services keep, and how the authority of an execution,
a set of names, is read as an authority of the kernel and written back.
-/
namespace PhenixConductor.Execution
open Collections Contract Component

structure ExecutionAuthority where
  capabilities : BTreeSet String
deriving DecidableEq

inductive ExecutionState
  | active
  | completed
  | failed
deriving DecidableEq

structure ExecutionRecord where
  id : String
  parentExecution : Option String
  graphGeneration : String
  authority : ExecutionAuthority
  state : ExecutionState
deriving DecidableEq

structure CallableRecord where
  id : String
  service : String
  requiredAuthority : ExecutionAuthority
deriving DecidableEq

inductive WorkerTaskState
  | pending
  | running (executionId : String)
  | completed (executionId : String) (resultRefs : List String)
  | failed (executionId : String) (cause : String)
deriving DecidableEq

structure WorkerTaskRecord where
  id : String
  parentExecution : String
  graphGeneration : String
  description : String
  dependsOn : BTreeSet String
  delegatedAuthority : ExecutionAuthority
  state : WorkerTaskState
deriving DecidableEq

namespace WorkerTaskState

/-- The execution that a task is bound to, from its start on. -/
def execution : WorkerTaskState → Option String
  | .pending => none
  | .running executionId => some executionId
  | .completed executionId _ => some executionId
  | .failed executionId _ => some executionId

def isCompleted : WorkerTaskState → Bool
  | .completed _ _ => true
  | .pending => false
  | .running _ => false
  | .failed _ _ => false

end WorkerTaskState

/-- `CapabilityId::parse` and `ServiceId::parse`, with the message. -/
def parseIdentifier {kind : IdentifierKind} (text : String) : Except String (Identifier kind) :=
  match valid : validateText kind.noun text with
  | .ok () => .ok ⟨text,valid⟩
  | .error message => .error message

def parseExecutionAuthority (value : ExecutionAuthority) : Except String Authority := do
  let capabilities ← value.capabilities.keys.mapM parseIdentifier
  return .new capabilities

def executionAuthorityFrom (authority : Authority) : ExecutionAuthority :=
  ⟨.collect (authority.capabilities.keys.map (·.text))⟩

def attenuateExecutionAuthority (authority requested : ExecutionAuthority) :
    Except String ExecutionAuthority := do
  let held ← parseExecutionAuthority authority
  let asked ← parseExecutionAuthority requested
  return executionAuthorityFrom (held.attenuate asked)

def validateIdentity (label value : String) : Except String Unit :=
  if Configuration.isBlank value then .error (label ++ " must not be empty") else .ok ()

/-- An authority is at most another when it names no more capabilities. -/
instance ExecutionAuthority.preorder : Preorder ExecutionAuthority where
  le a b := ∀ name ∈ a.capabilities.keys, name ∈ b.capabilities.keys
  le_refl _ _ h := h
  le_trans _ _ _ hab hbc name h := hbc name (hab name h)

theorem parseIdentifier_text {kind : IdentifierKind} {text : String} {identifier : Identifier kind}
    (h : parseIdentifier text = .ok identifier) : identifier.text = text := by
  unfold parseIdentifier at h
  split at h
  · cases h
    rfl
  · cases h

/-- A parsed authority permits nothing that it does not name. -/
theorem text_mem_of_permits {value : ExecutionAuthority} {authority : Authority}
    (h : parseExecutionAuthority value = .ok authority) {capability : CapabilityId}
    (hpermits : authority.permits capability) : capability.text ∈ value.capabilities.keys := by
  obtain ⟨capabilities,hmap,h⟩ := bind_eq_ok.mp h
  cases h
  have hmem : capability ∈ capabilities := by
    simpa [Authority.permits, Authority.new] using hpermits
  obtain ⟨name,hname,hparse⟩ := Forall₂.exists_left (mapM_eq_ok.mp hmap) hmem
  rw [parseIdentifier_text hparse]
  exact hname

theorem mem_executionAuthorityFrom {authority : Authority} {name : String} :
    name ∈ (executionAuthorityFrom authority).capabilities.keys ↔
      ∃ capability, authority.permits capability ∧ capability.text = name := by
  simp [executionAuthorityFrom, Authority.permits]

theorem executionAuthorityFrom_mono {a b : Authority} (h : a ≤ b) :
    executionAuthorityFrom a ≤ executionAuthorityFrom b := by
  intro name hname
  obtain ⟨capability,hpermits,htext⟩ := mem_executionAuthorityFrom.mp hname
  exact mem_executionAuthorityFrom.mpr ⟨capability,h capability hpermits,htext⟩

theorem executionAuthorityFrom_le {value : ExecutionAuthority} {authority attenuated : Authority}
    (h : parseExecutionAuthority value = .ok authority) (hle : attenuated ≤ authority) :
    executionAuthorityFrom attenuated ≤ value := by
  intro name hname
  obtain ⟨capability,hpermits,rfl⟩ := mem_executionAuthorityFrom.mp hname
  exact text_mem_of_permits h (hle capability hpermits)

/-- An attenuated authority is at most each of the two that it is made from. -/
theorem attenuateExecutionAuthority_le {authority requested result : ExecutionAuthority}
    (h : attenuateExecutionAuthority authority requested = .ok result) :
    result ≤ authority ∧ result ≤ requested := by
  obtain ⟨held,hheld,h⟩ := bind_eq_ok.mp h
  obtain ⟨asked,hasked,h⟩ := bind_eq_ok.mp h
  cases h
  exact ⟨executionAuthorityFrom_le hheld (Authority.attenuate_le_left held asked),
    executionAuthorityFrom_le hasked (Authority.attenuate_le_right held asked)⟩

end PhenixConductor.Execution
