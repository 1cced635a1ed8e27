import PhenixConductor.Observable.SchemaPath
import PhenixConductor.Observable.Subscriptions

/-! # The store state and the mutators of a transaction

A transaction works on the locked store state.
-/
namespace PhenixConductor.Observable
open Contract Collections

/-- A Rust call returns, or panics with a message. -/
inductive Failure (ε : Type) where
  | error (error : ε)
  | panic (message : String)
  deriving DecidableEq

structure RegisteredValue where
  owner : PluginId
  schema : PhenixSchema
  version : ValueVersion
  snapshotPolicy : SnapshotPolicy
  current : PhenixValue

/-- `handler` is the callback, of whatever type names it. -/
structure SubscriptionEntry (H : Type) where
  id : ObservationId
  spec : ObservationSpec
  generation : ObservationGeneration
  handler : H

structure StoreState (H : Type) where
  values : BTreeMap ValueId RegisteredValue
  subscriptions : BTreeMap ObservationId (SubscriptionEntry H)
  indexes : BTreeMap ValueId SubscriptionNode
  nextCommit : ℕ
  nextObservation : ℕ
  nextGeneration : ℕ
  closed : Bool

def StoreState.default {H : Type} : StoreState H :=
  ⟨.empty,.empty,.empty,1,1,1,false⟩

/-- Assignment to a registered value. -/
def StoreState.write {H : Type} (state : StoreState H) (value : ValueId)
    (registered : RegisteredValue) : StoreState H :=
  { state with values := state.values.insert value registered }

inductive TouchedKind where
  | replace
  | remove
  | splice (start deleteCount : UInt32) (inserted : List PhenixValue)

/-- `Replace` and `Remove` cover everything at or below their path. -/
def TouchedKind.isWhole : TouchedKind → Bool
  | .replace | .remove => true
  | .splice _ _ _ => false

structure TouchedMutation where
  value : ValueId
  path : ValuePath
  kind : TouchedKind

inductive UndoRecord where
  | replace (value : ValueId) (path : ValuePath) (previous : Option PhenixValue)
  | splice (value : ValueId) (path : ValuePath) (start insertedCount : ℕ)
      (removed : List PhenixValue)

def UndoRecord.value : UndoRecord → ValueId
  | .replace value _ _ | .splice value _ _ _ _ => value

/-- `undo` and `touched` grow at their ends. -/
structure ObservableTransaction (H : Type) where
  state : StoreState H
  declared : List ValueId
  undo : List UndoRecord
  touched : List TouchedMutation

/-- `Vec::splice(start..stop, inserted)`, which panics outside the list. -/
def spliceRange (items : List PhenixValue) (start stop : ℕ) (inserted : List PhenixValue) :
    Option (List PhenixValue) :=
  if start ≤ stop ∧ stop ≤ items.length then some (items.take start ++ inserted ++ items.drop stop)
  else none

/-- The splice that takes a splice back. Both summands are lengths of vectors,
so the saturating sum of the source is the sum. -/
def unsplice (items : List PhenixValue) (start insertedCount : ℕ) (removed : List PhenixValue) :
    Option (List PhenixValue) :=
  spliceRange items start (min (start + insertedCount) items.length) removed

/-- The list after a splice inside its range, and what the splice took out. -/
def spliced (items : List PhenixValue) (start deleteCount : ℕ) (inserted : List PhenixValue) :
    List PhenixValue :=
  items.take start ++ inserted ++ items.drop (start + deleteCount)

def removedBy (items : List PhenixValue) (start deleteCount : ℕ) : List PhenixValue :=
  (items.drop start).take deleteCount

def splicePanic : String := "splice range out of bounds"

namespace ObservableTransaction
variable {H : Type}

/-- `ensure_declared` with the lookup after it: declared roots are registered. -/
def declaredRoot (tx : ObservableTransaction H) (value : ValueId) :
    Except ObservableError RegisteredValue :=
  match tx.state.values.get? value with
  | some registered =>
    if value ∈ tx.declared then .ok registered
    else .error (.transactionConflict value "root was not declared before the transaction")
  | none => .error (.transactionConflict value "root was not declared before the transaction")

/-- The end of every mutator: write the value and push both records. -/
def record (tx : ObservableTransaction H) (value : ValueId) (registered : RegisteredValue)
    (undo : UndoRecord) (touched : TouchedMutation) : ObservableTransaction H where
  state := tx.state.write value registered
  declared := tx.declared
  undo := tx.undo ++ [undo]
  touched := tx.touched ++ [touched]

def replace (tx : ObservableTransaction H) (value : ValueId) (path : ValuePath)
    (replacement : PhenixValue) : Except ObservableError (ObservableTransaction H) := do
  let registered ← tx.declaredRoot value
  let target ← validatePath value registered.schema path
  (target.parse replacement).mapError fun error => .schemaMismatch value path error.text
  let (previous,current) ← (replaceAt replacement registered.current path).mapError
    (.transactionConflict value)
  return tx.record value { registered with current } (.replace value path previous)
    ⟨value,path,.replace⟩

/-- The item schema of a splice target, with the length that an array keeps. -/
def spliceTarget (value : ValueId) (path : ValuePath) :
    PhenixSchema → Except ObservableError (PhenixSchema × Option ℕ)
  | .list item => .ok (item,none)
  | .array item len => .ok (item,some len)
  | _ => .error (.invalidPath value path "splice target must be a list or array")

def spliceItems (value : ValueId) : PhenixValue → Except ObservableError (List PhenixValue)
  | .list items => .ok items
  | _ => .error (.transactionConflict value "splice target is not a list value")

/-- The range checks; `stop` is the checked sum. -/
def checkRange (value : ValueId) (start deleteCount length : ℕ) : Except ObservableError Unit :=
  let stop := start + deleteCount
  if stop > usizeMax then .error (.transactionConflict value "splice range overflows")
  else if start > length ∨ stop > length then
    .error (.transactionConflict value ("splice range " ++ toString start ++ ".." ++
      toString stop ++ " exceeds list length " ++ toString length))
  else .ok ()

def checkFixedLen (value : ValueId) (path : ValuePath) (finalLen : ℕ) :
    Option ℕ → Except ObservableError Unit
  | some len =>
    if finalLen ≠ len then
      .error (.schemaMismatch value path
        ("fixed array length must remain " ++ toString len ++ ", got " ++ toString finalLen))
    else .ok ()
  | none => .ok ()

def splice (tx : ObservableTransaction H) (value : ValueId) (path : ValuePath)
    (start deleteCount : UInt32) (inserted : List PhenixValue) :
    Except ObservableError (ObservableTransaction H) := do
  let registered ← tx.declaredRoot value
  let target ← validatePath value registered.schema path
  let (item,fixedLen) ← spliceTarget value path target
  inserted.forM fun member =>
    (item.parse member).mapError fun error => .schemaMismatch value path error.text
  let (list,put) ← (valueAtMut registered.current path).mapError (.transactionConflict value)
  let items ← spliceItems value list
  checkRange value start.toNat deleteCount.toNat items.length
  checkFixedLen value path (items.length - deleteCount.toNat + inserted.length) fixedLen
  let current := put (.list (spliced items start.toNat deleteCount.toNat inserted))
  return tx.record value { registered with current }
    (.splice value path start.toNat inserted.length
      (removedBy items start.toNat deleteCount.toNat))
    ⟨value,path,.splice start deleteCount inserted⟩

/-- Removing a list member is a splice of its list. -/
def remove (tx : ObservableTransaction H) (value : ValueId) (path : ValuePath) :
    Except ObservableError (ObservableTransaction H) := do
  let registered ← tx.declaredRoot value
  match path.getLast? with
  | none => .error (.invalidPath value path "registered roots cannot be removed")
  | some (.index i) => tx.splice value path.dropLast i 1 []
  | some last =>
    let _ ← validatePath value registered.schema path
    match last with
    | .mapKey _ | .optionPayload =>
      let (previous,current) ← (removeAt registered.current path).mapError
        (.transactionConflict value)
      return tx.record value { registered with current } (.replace value path previous)
        ⟨value,path,.remove⟩
    | _ => .error (.invalidPath value path "fixed structural members cannot be removed")

end ObservableTransaction

/-- One call that a transaction closure can make. -/
inductive MutationCall where
  | replace (value : ValueId) (path : ValuePath) (replacement : PhenixValue)
  | remove (value : ValueId) (path : ValuePath)
  | splice (value : ValueId) (path : ValuePath) (start deleteCount : UInt32)
      (inserted : List PhenixValue)

def ObservableTransaction.perform {H : Type} (tx : ObservableTransaction H) :
    MutationCall → Except ObservableError (ObservableTransaction H)
  | .replace value path replacement => tx.replace value path replacement
  | .remove value path => tx.remove value path
  | .splice value path start deleteCount inserted =>
    tx.splice value path start deleteCount inserted

/-- A transaction closure: it may look at the result of every call before the
next one, ignore errors, and return what it likes. -/
inductive TransactionScript (R : Type) where
  | done (result : Except ObservableError R)
  | call (mutation : MutationCall) (next : Except ObservableError Unit → TransactionScript R)

/-- Run the closure; a failed call leaves the transaction as it was. -/
def TransactionScript.run {H R : Type} :
    TransactionScript R → ObservableTransaction H → ObservableTransaction H × Except ObservableError R
  | .done result, tx => (tx,result)
  | .call mutation next, tx =>
    match tx.perform mutation with
    | .ok tx' => (next (.ok ())).run tx'
    | .error error => (next (.error error)).run tx

/-- The calls of the closure that succeeded, in order. -/
def TransactionScript.performed {H R : Type} :
    TransactionScript R → ObservableTransaction H → List MutationCall
  | .done _, _ => []
  | .call mutation next, tx =>
    match tx.perform mutation with
    | .ok tx' => mutation :: (next (.ok ())).performed tx'
    | .error error => (next (.error error)).performed tx

/-- `apply_undo`. -/
def applyUndo {H : Type} (state : StoreState H) :
    UndoRecord → Except (Failure String) (StoreState H)
  | .replace value path previous =>
    match state.values.get? value with
    | none => .error (.error ("observable value " ++ value.text ++ " disappeared during rollback"))
    | some registered => do
      let current ← (restoreOptional previous registered.current path).mapError .error
      return state.write value { registered with current }
  | .splice value path start insertedCount removed =>
    match state.values.get? value with
    | none => .error (.error ("observable value " ++ value.text ++ " disappeared during rollback"))
    | some registered => do
      let (list,put) ← (valueAtMut registered.current path).mapError .error
      match list with
      | .list items =>
        match unsplice items start insertedCount removed with
        | some items => return state.write value { registered with current := put (.list items) }
        | none => .error (.panic splicePanic)
      | _ => .error (.error "rollback splice target is not a list")

/-- `rollback`, newest record first. Errors are dropped, a panic is not. -/
def rollback {H : Type} : StoreState H → List UndoRecord → Except String (StoreState H)
  | state, [] => .ok state
  | state, undo :: rest =>
    match applyUndo state undo with
    | .ok state => rollback state rest
    | .error (.error _) => rollback state rest
    | .error (.panic message) => .error message

end PhenixConductor.Observable
