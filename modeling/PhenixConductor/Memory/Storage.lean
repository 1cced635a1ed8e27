import PhenixConductor.Collections.Transactions
import PhenixConductor.Memory.Records
import PhenixConductor.Persistence.Refinement

/-! # The records of the memory plugin

The plugin holds no state: a command reads what it needs from the store and commits what it
changes.
-/
namespace PhenixConductor.Memory
open Collections Contract
open Execution (U32)

inductive MemoryCollection
  | record
  | node
  | checkpoint
deriving DecidableEq

namespace MemoryCollection

def name : MemoryCollection → String
  | .record => "record"
  | .node => "node"
  | .checkpoint => "checkpoint"

abbrev Content : MemoryCollection → Type
  | .record => MemoryRecord
  | .node => MemoryNode
  | .checkpoint => ContextCheckpoint

instance decidableContent : (c : MemoryCollection) → DecidableEq c.Content
  | .record => inferInstanceAs (DecidableEq MemoryRecord)
  | .node => inferInstanceAs (DecidableEq MemoryNode)
  | .checkpoint => inferInstanceAs (DecidableEq ContextCheckpoint)

end MemoryCollection

/-- The source that an entry of the dependency index is for: the pair that its key encodes. -/
abbrev DependencyKey := ServiceId ×ₗ String

def dependencyKey (service : ServiceId) (resource : String) : DependencyKey :=
  toLex (service,resource)

abbrev DependencyIndex := BTreeMap DependencyKey (List String)

/-- The records of the plugin's namespace. -/
inductive MemoryCell
  | index (c : MemoryCollection)
  | entry (c : MemoryCollection) (id : String)
  | freshness (id : String)
  | dependencies
deriving DecidableEq

namespace MemoryCell

def key : MemoryCell → String
  | .index c => "index/" ++ c.name ++ "s"
  | .entry c id => c.name ++ "/" ++ id
  | .freshness id => "freshness/" ++ id
  | .dependencies => "index/dependencies"

abbrev Content : MemoryCell → Type
  | .index _ => List String
  | .entry c _ => c.Content
  | .freshness _ => MemoryFreshnessRecord
  | .dependencies => DependencyIndex

instance decidableContent : (cell : MemoryCell) → DecidableEq cell.Content
  | .index _ => inferInstanceAs (DecidableEq (List String))
  | .entry c _ => inferInstanceAs (DecidableEq c.Content)
  | .freshness _ => inferInstanceAs (DecidableEq MemoryFreshnessRecord)
  | .dependencies => inferInstanceAs (DecidableEq DependencyIndex)

end MemoryCell

abbrev MemoryStore := Cells MemoryCell.Content

inductive HelperInvocationKind
  | helper
  | verification
deriving DecidableEq

structure HelperInvocationRequest where
  executionId : String
  parentAttemptId : String
  profileId : RoutingProfileId
  kind : HelperInvocationKind
  callableId : CallableId
  input : List UInt8

structure MemoryRankRequest where
  query : String
  candidates : List (String × String)
  limit : U32

/-- The calls of other services. -/
inductive MemoryCall
  | invoke (request : HelperInvocationRequest)
  | embed (inputs : List String)
  | rank (request : MemoryRankRequest)

/-- An embedding or a ranking that fails is passed over. -/
abbrev MemoryCall.Reply : MemoryCall → Type
  | .invoke _ => Except String (List UInt8)
  | .embed _ => Option (List (List Float))
  | .rank _ => Option (List String)

abbrev MemoryM := StoreScript MemoryCell.Content MemoryCall.Reply MemoryError

/-- The text of an error of the store. -/
def storeError : CommitError MemoryCell → MemoryError
  | .failed error => .persistence error
  | .assertion cell =>
    .persistence (Persistence.assertionFailed "phenix.memory" "phenix.memory.state" cell.key)

def readCell (cell : MemoryCell) : MemoryM (Option cell.Content) := do
  let value ← askRead cell
  Script.ofExcept (value.mapError .persistence)

def commitCells (operations : List (CellOp MemoryCell.Content)) : MemoryM Unit := do
  let result ← askCommit operations
  Script.ofExcept (result.mapError storeError)

def check {α : Type} (result : Except MemoryError α) : MemoryM α := Script.ofExcept result

/-- What is read, or an error for what is not there. -/
def require {α : Type} (error : MemoryError) : Option α → MemoryM α
  | some value => pure value
  | none => Script.fail error

def readEntry (c : MemoryCollection) (id : String) : MemoryM (Option c.Content) :=
  readCell (.entry c id)

def readIds (c : MemoryCollection) : MemoryM (List String) := do
  let ids ← readCell (.index c)
  return ids.getD []

def readDependencies : MemoryM DependencyIndex := do
  let index ← readCell .dependencies
  return index.getD .empty

/-- A sorted list with one identifier more. -/
def addId (ids : List String) (id : String) : List String :=
  (ids ++ [id]).insertionSort (· ≤ ·)

/-- The ids of an entry of the dependency index. -/
def DependencyIndex.ids (index : DependencyIndex) (entry : DependencyKey) : List String :=
  (index.get? entry).getD []

def DependencyIndex.addEntry (id : String) (index : DependencyIndex) (entry : DependencyKey) :
    DependencyIndex :=
  if id ∈ index.ids entry then index.insert entry (index.ids entry)
  else index.insert entry (addId (index.ids entry) id)

/-- The reads of the values that a batch replaces, with its part of the batch. -/
def readUpdates : List (String × MemoryFreshnessRecord) →
    MemoryM (List (CellOp MemoryCell.Content))
  | [] => return []
  | (id,state) :: updates => do
    let old ← readCell (.freshness id)
    let operations ← readUpdates updates
    return .assert (.freshness id) old :: .put (.freshness id) state :: operations

/-- The part of a batch that adds the derived state of a record. -/
def sidecarOperations (id : String) :
    Option MemoryFreshnessRecord → List (CellOp MemoryCell.Content)
  | none => []
  | some state => [.assert (.freshness id) none,.put (.freshness id) state]

def requireNoSidecar (id : String) : Option MemoryFreshnessRecord → MemoryM Unit
  | none => return ()
  | some _ => do
    let old ← readCell (.freshness id)
    if old.isSome then
      Script.fail (.conflict ("derived record state already exists: " ++ id))
    else return ()

/-- The part of a batch that adds a record to entries of the dependency index. -/
def secondaryOperations (id : String) :
    Option (List DependencyKey) → MemoryM (List (CellOp MemoryCell.Content))
  | none => return []
  | some entries => do
    let old ← readCell .dependencies
    let index := entries.foldl (DependencyIndex.addEntry id) (old.getD .empty)
    return [.assert .dependencies old,.put .dependencies index]

/-- The first checks of an insertion: the record is not in the index, and not stored. -/
def requireNew (c : MemoryCollection) (ids : List String) (id : String) : MemoryM Unit := do
  if id ∈ ids then Script.fail (.conflict ("immutable record already exists: " ++ id))
  else
    let old ← readEntry c id
    if old.isSome then Script.fail (.conflict ("immutable record already exists: " ++ id))
    else return ()

/-- `insert_record_with_sidecar_secondary_and_updates` -/
def insertRecordWith (c : MemoryCollection) (id : String) (value : c.Content)
    (sidecar : Option MemoryFreshnessRecord) (secondary : Option (List DependencyKey))
    (updates : List (String × MemoryFreshnessRecord)) : MemoryM Unit := do
  let oldIndex ← readCell (.index c)
  requireNew c (oldIndex.getD []) id
  requireNoSidecar id sidecar
  let secondaryPart ← secondaryOperations id secondary
  let updatePart ← readUpdates updates
  commitCells ([.assert (.entry c id) none,.assert (.index c) oldIndex,
    .put (.entry c id) value,.put (.index c) (addId (oldIndex.getD []) id)] ++
    sidecarOperations id sidecar ++ secondaryPart ++ updatePart)

/-- `write_record` of a freshness record. -/
def writeFreshness (id : String) (state : MemoryFreshnessRecord) : MemoryM Unit := do
  let old ← readCell (.freshness id)
  commitCells [.assert (.freshness id) old,.put (.freshness id) state]

/-- `write_record_with_secondary_entry` of a freshness record. -/
def writeFreshnessWithEntry (id : String) (state : MemoryFreshnessRecord)
    (entry : DependencyKey) : MemoryM Unit := do
  let old ← readCell (.freshness id)
  let oldIndex ← readCell .dependencies
  let index := DependencyIndex.addEntry id (oldIndex.getD .empty) entry
  commitCells [.assert (.freshness id) old,.assert .dependencies oldIndex,
    .put (.freshness id) state,.put .dependencies index]

def loadSecondaryIds (entry : DependencyKey) (limit : ℕ) : MemoryM (List String) := do
  let index ← readDependencies
  return (index.ids entry).take limit

def loadEntries (c : MemoryCollection) : List String → MemoryM (List c.Content)
  | [] => return []
  | id :: ids => do
    let value ← readEntry c id
    let value ← require (.persistence ("missing durable record from " ++
      (MemoryCell.index c).key ++ ": " ++ id)) value
    let values ← loadEntries c ids
    return value :: values

def loadRecords (c : MemoryCollection) : MemoryM (List c.Content) := do
  let ids ← readIds c
  loadEntries c ids

end PhenixConductor.Memory
