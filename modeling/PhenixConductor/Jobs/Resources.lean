import PhenixConductor.Collections.Interleaving
import PhenixConductor.Persistence.Refinement

/-! # The runtime resources of the job plugin

The plugin holds no state: a command reads the records it needs, decides, and commits what it
changes.
-/
namespace PhenixConductor.Jobs
open Collections Script
open Configuration (isBlank)

inductive RuntimeResourceKind
  | terminal
  | job
deriving DecidableEq

inductive RuntimeResourceState
  | running
  | exited (code : Option ℤ)
  | revoked (reason : String)
deriving DecidableEq

structure RuntimeResourceRecord where
  id : String
  kind : RuntimeResourceKind
  ownerExecution : String
  promotedToWorkspace : Bool
  authority : BTreeSet String
  state : RuntimeResourceState
  outputReferences : List String
deriving DecidableEq

inductive JobCommand
  | create (id : String) (kind : RuntimeResourceKind) (ownerExecution : String)
      (authority : BTreeSet String)
  | promote (id : String)
  | complete (id : String) (code : Option ℤ) (outputReferences : List String)
  | executionTerminated (executionId : String)
  | narrowAuthority (executionId : String) (authority : BTreeSet String)
  | get (id : String)
  | list

inductive JobResponse
  | resource (resource : Option RuntimeResourceRecord)
  | resources (resources : List RuntimeResourceRecord)
  | affected (resources : List RuntimeResourceRecord)

/-- The records of the plugin's namespace. -/
inductive JobCell
  | index
  | resource (id : String)
deriving DecidableEq

namespace JobCell

def key : JobCell → String
  | .index => "index/resources"
  | .resource id => "resource/" ++ id

abbrev Content : JobCell → Type
  | .index => List String
  | .resource _ => RuntimeResourceRecord

instance decidableContent : (cell : JobCell) → DecidableEq cell.Content
  | .index => inferInstanceAs (DecidableEq (List String))
  | .resource _ => inferInstanceAs (DecidableEq RuntimeResourceRecord)

end JobCell

abbrev JobStore := Cells JobCell.Content

/-- The plugin calls no other service. -/
abbrev NoReply : Empty → Type := fun _ => Unit

abbrev JobM := StoreScript JobCell.Content NoReply String

def storeError : CommitError JobCell → String
  | .failed error => error
  | .assertion cell => Persistence.assertionFailed "phenix.jobs" "phenix.jobs.state" cell.key

/-- `read_raw`, with the decoding of what is stored -/
def readRaw (cell : JobCell) : JobM (Option cell.Content) := do
  let value ← askRead cell
  ofExcept value

def transactDurable (operations : List (CellOp JobCell.Content)) : JobM Unit := do
  let result ← askCommit operations
  ofExcept (result.mapError storeError)

def validateId (label value : String) : Except String Unit :=
  if isBlank value ∨ '/' ∈ value.toList then
    .error (label ++ " must be non-empty and must not contain '/'")
  else .ok ()

def read (id : String) : JobM (Option RuntimeResourceRecord) := readRaw (.resource id)

def decodeIndex (value : Option (List String)) : List String := value.getD []

/-- What is read, or an error for what is not there. -/
def orElse {α : Type} (error : String) : Option α → JobM α
  | some value => pure value
  | none => fail error

def loadRecords : List String → JobM (List RuntimeResourceRecord)
  | [] => return []
  | id :: ids => do
    let stored ← read id
    let resource ← orElse ("missing runtime resource: " ++ id) stored
    let resources ← loadRecords ids
    return resource :: resources

def loadAll : JobM (List RuntimeResourceRecord) := do
  let index ← readRaw .index
  loadRecords (decodeIndex index)

/-- The ids of an index are not read further when the id is among them. -/
def requireNew (ids : List String) (id : String) : JobM Unit := do
  if id ∈ ids then fail ("runtime resource already exists: " ++ id)
  else
    let stored ← readRaw (.resource id)
    if stored.isSome then fail ("runtime resource already exists: " ++ id)
    else return ()

def insert (resource : RuntimeResourceRecord) : JobM Unit := do
  let oldIndex ← readRaw .index
  requireNew (decodeIndex oldIndex) resource.id
  transactDurable [
    .assert (.resource resource.id) none,
    .assert .index oldIndex,
    .put (.resource resource.id) resource,
    .put .index ((decodeIndex oldIndex ++ [resource.id]).insertionSort (· ≤ ·))]

def replace (resource : RuntimeResourceRecord) : JobM Unit := do
  let stored ← readRaw (.resource resource.id)
  let old ← orElse ("unknown runtime resource: " ++ resource.id) stored
  transactDurable [
    .assert (.resource resource.id) (some old),
    .put (.resource resource.id) resource]

def create (id : String) (kind : RuntimeResourceKind) (ownerExecution : String)
    (authority : BTreeSet String) : JobM RuntimeResourceRecord := do
  ofExcept (validateId "runtime resource id" id)
  ofExcept (validateId "owner execution id" ownerExecution)
  let record : RuntimeResourceRecord :=
    { id := id, kind := kind, ownerExecution := ownerExecution, promotedToWorkspace := false
      authority := authority, state := .running, outputReferences := [] }
  insert record
  return record

def update (id : String)
    (mutation : RuntimeResourceRecord → Except String RuntimeResourceRecord) :
    JobM RuntimeResourceRecord := do
  ofExcept (validateId "runtime resource id" id)
  let stored ← read id
  let resource ← orElse ("unknown runtime resource: " ++ id) stored
  let mutated ← ofExcept (mutation resource)
  replace mutated
  return mutated

/-- The loop of `mutate_matching`: a mutation that changes nothing is `none`. -/
def mutateEach (executionId : String)
    (mutation : RuntimeResourceRecord → Option RuntimeResourceRecord) :
    List RuntimeResourceRecord → JobM (List RuntimeResourceRecord)
  | [] => return []
  | resource :: resources =>
    if resource.ownerExecution ≠ executionId then mutateEach executionId mutation resources
    else match mutation resource with
      | none => mutateEach executionId mutation resources
      | some mutated => do
        replace mutated
        let affected ← mutateEach executionId mutation resources
        return mutated :: affected

def mutateMatching (executionId : String)
    (mutation : RuntimeResourceRecord → Option RuntimeResourceRecord) :
    JobM (List RuntimeResourceRecord) := do
  ofExcept (validateId "execution id" executionId)
  let resources ← loadAll
  let affected ← mutateEach executionId mutation resources
  return affected.insertionSort fun left right => left.id ≤ right.id

def promoteResource (resource : RuntimeResourceRecord) : Except String RuntimeResourceRecord :=
  if resource.kind ≠ .job then .error "only jobs may be promoted to workspace lifetime"
  else if resource.state ≠ .running then .error "only running jobs may be promoted"
  else .ok { resource with promotedToWorkspace := true }

def completeResource (code : Option ℤ) (outputReferences : List String)
    (resource : RuntimeResourceRecord) : Except String RuntimeResourceRecord :=
  if resource.state ≠ .running then .error "only a running resource may complete"
  else .ok { resource with
    outputReferences := (outputReferences.insertionSort (· ≤ ·)).destutter (· ≠ ·)
    state := .exited code }

def terminateResource (resource : RuntimeResourceRecord) : Option RuntimeResourceRecord :=
  if resource.promotedToWorkspace = false ∧ resource.state = .running then
    some { resource with state := .revoked "owner execution terminated" }
  else none

def narrowResource (authority : BTreeSet String) (resource : RuntimeResourceRecord) :
    Option RuntimeResourceRecord :=
  if resource.state ≠ .running then none
  else if ∀ capability ∈ resource.authority.keys, capability ∈ authority.keys then none
  else some { resource with
    authority := resource.authority.filter (· ∈ authority.keys)
    state := .revoked "execution authority narrowed below resource capability" }

def handle : JobCommand → JobM JobResponse
  | .create id kind ownerExecution authority => do
    return .resource (some (← create id kind ownerExecution authority))
  | .promote id => do
    return .resource (some (← update id promoteResource))
  | .complete id code outputReferences => do
    return .resource (some (← update id (completeResource code outputReferences)))
  | .executionTerminated executionId => do
    return .affected (← mutateMatching executionId terminateResource)
  | .narrowAuthority executionId authority => do
    return .affected (← mutateMatching executionId (narrowResource authority))
  | .get id => do
    ofExcept (validateId "runtime resource id" id)
    return .resource (← read id)
  | .list => do
    return .resources (← loadAll)

end PhenixConductor.Jobs
