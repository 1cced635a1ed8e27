import PhenixConductor.Observable.Canonical

/-! # The observable store

The operations of the store on the state behind its lock.
-/
namespace PhenixConductor.Observable
open Contract

structure PreparedDelivery (H : Type) where
  entry : SubscriptionEntry H
  changes : List ValueChange

structure PreparedRoot (H : Type) where
  commit : CommitId
  value : ValueId
  fromVersion : ValueVersion
  version : ValueVersion
  snapshot : Option PhenixValue
  deliveries : List (PreparedDelivery H)

variable {H R : Type}

/-- The observations that the index of a root finds for the changes. -/
def matchedIds (index : Option SubscriptionNode) (changes : List ValueChange) :
    List ObservationId :=
  match index with
  | none => []
  | some index => changes.foldl (fun matched change =>
      match change with
      | .splice path start deleteCount inserted =>
        index.collectForSplice start deleteCount (UInt32.ofNat inserted.length) path matched
      | change => index.collectForPath change.path matched) []

/-- One round of the delivery loop of `finish`. -/
def prepareDelivery (state : StoreState H) (value : ValueId) (registered : RegisteredValue)
    (changes : List ValueChange) (id : ObservationId) :
    Except ObservableError (Option (PreparedDelivery H)) :=
  match state.subscriptions.get? id with
  | none => .ok none
  | some entry =>
    let relative := changesForSubscription entry.spec changes registered.current
    if relative.isEmpty then .ok none
    else if entry.spec.mode = .full ∧ registered.snapshotPolicy ≠ .copyOnChange then
      .error (.unsupportedSnapshotPolicy value registered.snapshotPolicy entry.spec.mode
        entry.spec.initial)
    else .ok (some ⟨entry,relative⟩)

def prepareDeliveries (state : StoreState H) (value : ValueId) (registered : RegisteredValue)
    (changes : List ValueChange) : Except ObservableError (List (PreparedDelivery H)) := do
  let prepared ← (matchedIds (state.indexes.get? value) changes).mapM
    (prepareDelivery state value registered changes)
  return prepared.reduceOption

/-- The loop of `finish` over the changed roots. An error leaves the versions
that were bumped before it. -/
def prepareRoots (commit : CommitId) : StoreState H → List (ValueId × List ValueChange) →
    StoreState H × Except (Failure ObservableError) (List (PreparedRoot H))
  | state, [] => (state,.ok [])
  | state, (value,changes) :: rest =>
    match state.values.get? value with
    | none => (state,.error (.panic "touched observable remains registered"))
    | some registered =>
      let bumped := { registered with version := saturatingSucc registered.version }
      let state := state.write value bumped
      match prepareDeliveries state value bumped changes with
      | .error error => (state,.error (.error error))
      | .ok deliveries =>
        let root : PreparedRoot H :=
          { commit := commit
            value := value
            fromVersion := registered.version
            version := bumped.version
            snapshot :=
              if registered.snapshotPolicy = .copyOnChange then some registered.current else none
            deliveries := deliveries }
        let (state,result) := prepareRoots commit state rest
        (state,result.map (root :: ·))

/-- The touched roots in order of their ids. -/
def touchedRoots (touched : List TouchedMutation) : List ValueId :=
  (touched.map (·.value)).dedup.insertionSort (· ≤ ·)

/-- The changed roots with their canonical changes. -/
def canonicalRoots (tx : ObservableTransaction H) :
    Except (Failure ObservableError) (List (ValueId × List ValueChange)) := do
  let canonical ← (touchedRoots tx.touched).mapM fun value =>
    match tx.state.values.get? value with
    | none => .error (.panic "touched observable remains registered")
    | some registered => do
      let changes ← canonicalizeRoot registered.current tx.undo tx.touched value
      return (value,changes)
  return canonical.filter fun root => !root.2.isEmpty

/-- `finish`. -/
def finish (tx : ObservableTransaction H) :
    StoreState H × Except (Failure ObservableError) (List (PreparedRoot H)) :=
  match canonicalRoots tx with
  | .error failure => (tx.state,.error failure)
  | .ok [] => (tx.state,.ok [])
  | .ok canonical =>
    prepareRoots tx.state.nextCommit
      { tx.state with nextCommit := saturatingSucc tx.state.nextCommit } canonical

/-- The state behind its mutex. -/
structure ObservableStore (H : Type) where
  state : StoreState H
  poisoned : Bool

def ObservableStore.default : ObservableStore H := ⟨.default,false⟩

def ensureOpen (state : StoreState H) : Except ObservableError Unit :=
  if state.closed then .error .closed else .ok ()

def lockPanic : String := "observable store lock poisoned"

namespace ObservableStore

/-- Run a body under the lock that either fails without a change or succeeds. -/
def locked (store : ObservableStore H)
    (body : StoreState H → Except ObservableError (StoreState H × R)) :
    ObservableStore H × Except (Failure ObservableError) R :=
  if store.poisoned then (store,.error (.panic lockPanic))
  else
    match body store.state with
    | .ok (state,result) => (⟨state,false⟩,.ok result)
    | .error error => (store,.error (.error error))

/-- The locked part of `register`. -/
def registerBody (registration : ObservableRegistration) (state : StoreState H) :
    Except ObservableError (StoreState H × Unit) := do
  ensureOpen state
  if registration.id ∈ state.values.keys then .error (.duplicateValue registration.id)
  else .ok (state.write registration.id
    { owner := registration.owner
      schema := registration.schema
      version := 0
      snapshotPolicy := registration.snapshotPolicy
      current := registration.initial },())

def register (store : ObservableStore H) (registration : ObservableRegistration) :
    ObservableStore H × Except (Failure ObservableError) Unit :=
  match registration.schema.parse registration.initial with
  | .error error => (store,.error (.error (.schemaMismatch registration.id [] error.text)))
  | .ok () => store.locked (registerBody registration)

/-- The observations in the index of a root. -/
def indexedIds (state : StoreState H) (value : ValueId) : List ObservationId :=
  match state.indexes.get? value with
  | some index => index.collectAll []
  | none => []

def unregisterBody (value : ValueId) (state : StoreState H) :
    Except ObservableError (StoreState H × Unit) := do
  ensureOpen state
  if value ∉ state.values.keys then .error (.unknownValue value)
  else .ok ({ state with
    values := state.values.erase value
    indexes := state.indexes.erase value
    subscriptions := (indexedIds state value).foldl
      (fun subscriptions id => subscriptions.erase id) state.subscriptions },())

def unregister (store : ObservableStore H) (value : ValueId) :
    ObservableStore H × Except (Failure ObservableError) Unit :=
  store.locked (unregisterBody value)

def lookup (state : StoreState H) (value : ValueId) : Except ObservableError RegisteredValue :=
  match state.values.get? value with
  | some registered => .ok registered
  | none => .error (.unknownValue value)

/-- The first delivery of a subscription that asks for one. -/
def initialDelivery (spec : ObservationSpec) (registered : RegisteredValue) (id : ObservationId)
    (generation : ObservationGeneration) : Option ObservationDelivery :=
  if spec.initial = .full then
    some
      { commit := none
        value := spec.address.value
        fromVersion := registered.version
        version := registered.version
        address := spec.address
        observation := id
        generation := generation
        changes := []
        snapshot := some registered.current }
  else none

/-- The state with one more subscription, under the next id and generation. -/
def admitSubscription (spec : ObservationSpec) (handler : H) (state : StoreState H) :
    StoreState H :=
  let id := state.nextObservation
  let generation := state.nextGeneration
  let index := (state.indexes.get? spec.address.value).getD .empty
  { state with
    nextObservation := saturatingSucc state.nextObservation
    nextGeneration := saturatingSucc state.nextGeneration
    indexes := state.indexes.insert spec.address.value
      (index.insert id spec.scope spec.address.path)
    subscriptions := state.subscriptions.insert id ⟨id,spec,generation,handler⟩ }

/-- The locked part of `subscribe`: the handle, and the initial delivery. -/
def subscribeBody (spec : ObservationSpec) (handler : H) (state : StoreState H) :
    Except ObservableError (StoreState H × ObservationSubscription × Option ObservationDelivery) := do
  ensureOpen state
  let registered ← lookup state spec.address.value
  let _ ← validatePath spec.address.value registered.schema spec.address.path
  if registered.snapshotPolicy = .currentOnly ∧ (spec.mode = .full ∨ spec.initial = .full) then
    .error (.unsupportedSnapshotPolicy spec.address.value registered.snapshotPolicy spec.mode
      spec.initial)
  else .ok (admitSubscription spec handler state,⟨state.nextObservation,state.nextGeneration⟩,
    initialDelivery spec registered state.nextObservation state.nextGeneration)

def subscribe (store : ObservableStore H) (spec : ObservationSpec) (handler : H) :
    ObservableStore H × Except (Failure ObservableError)
      (ObservationSubscription × Option ObservationDelivery) :=
  store.locked (subscribeBody spec handler)

/-- The state without a live subscription. -/
def dropSubscription (id : ObservationId) (entry : SubscriptionEntry H) (state : StoreState H) :
    StoreState H :=
  let subscriptions := state.subscriptions.erase id
  let value := entry.spec.address.value
  match state.indexes.get? value with
  | none => { state with subscriptions }
  | some index =>
    let index := index.remove id entry.spec.scope entry.spec.address.path
    let indexes := if index.isEmpty then state.indexes.erase value
      else state.indexes.insert value index
    { state with subscriptions, indexes }

def unsubscribeBody (subscription : ObservationSubscription) (state : StoreState H) :
    Except ObservableError (StoreState H × Bool) := do
  ensureOpen state
  match state.subscriptions.get? subscription.id with
  | none => .ok (state,false)
  | some entry =>
    if entry.generation ≠ subscription.generation then .ok (state,false)
    else .ok (dropSubscription subscription.id entry state,true)

def unsubscribe (store : ObservableStore H) (subscription : ObservationSubscription) :
    ObservableStore H × Except (Failure ObservableError) Bool :=
  store.locked (unsubscribeBody subscription)

def close (store : ObservableStore H) : ObservableStore H × Except (Failure ObservableError) Unit :=
  store.locked fun state =>
    .ok ({ state with closed := true, subscriptions := .empty, indexes := .empty },())

/-- The roots of a transaction without repetition, in order. -/
def declareRoots (roots : List ValueId) : List ValueId :=
  roots.dedup.insertionSort (· ≤ ·)

/-- The checks before the closure runs. -/
def admitRoots (declared : List ValueId) (state : StoreState H) : Except ObservableError Unit := do
  ensureOpen state
  declared.forM fun value =>
    if value ∈ state.values.keys then .ok () else .error (.unknownValue value)

/-- Rollback after a failure of the closure or of `finish`. -/
def rollbackTo (undo : List UndoRecord) (state : StoreState H) (error : ObservableError) :
    ObservableStore H × Except (Failure ObservableError) (R × List (PreparedRoot H)) :=
  match rollback state undo.reverse with
  | .ok state => (⟨state,false⟩,.error (.error error))
  | .error message => (⟨state,true⟩,.error (.panic message))

/-- The end of the locked part: commit what the closure did, or roll it back. -/
def settle (tx : ObservableTransaction H) :
    Except ObservableError R →
    ObservableStore H × Except (Failure ObservableError) (R × List (PreparedRoot H))
  | .error error => rollbackTo tx.undo tx.state error
  | .ok output =>
    let finished := finish tx
    match finished.2 with
    | .ok prepared => (⟨finished.1,false⟩,.ok (output,prepared))
    | .error (.error error) => rollbackTo tx.undo finished.1 error
    | .error (.panic message) => (⟨finished.1,true⟩,.error (.panic message))

/-- The transaction before its first call. -/
def start (store : ObservableStore H) (roots : List ValueId) : ObservableTransaction H where
  state := store.state
  declared := declareRoots roots
  undo := []
  touched := []

/-- `transaction` up to the release of the lock. -/
def transactionLocked (store : ObservableStore H) (roots : List ValueId)
    (apply : TransactionScript R) :
    ObservableStore H × Except (Failure ObservableError) (R × List (PreparedRoot H)) :=
  if store.poisoned then (store,.error (.panic lockPanic))
  else
    match admitRoots (declareRoots roots) store.state with
    | .error error => (store,.error (.error error))
    | .ok () =>
      let run := apply.run (store.start roots)
      settle run.1 run.2

end ObservableStore

/-- What the handler of an admitted delivery is called with. -/
def PreparedRoot.delivery (root : PreparedRoot H) (admitted : PreparedDelivery H) :
    ObservationDelivery where
  commit := some root.commit
  value := root.value
  fromVersion := root.fromVersion
  version := root.version
  address := admitted.entry.spec.address
  observation := admitted.entry.id
  generation := admitted.entry.generation
  changes := admitted.changes
  snapshot := if admitted.entry.spec.mode = .full then root.snapshot else none

/-- The handler calls after the lock is released, in order. -/
def handlerCalls (prepared : List (PreparedRoot H)) : List (H × ObservationDelivery) :=
  prepared.flatMap fun root =>
    root.deliveries.map fun admitted => (admitted.entry.handler,root.delivery admitted)

namespace ObservableStore

/-- `transaction`: the store after it, its result, and its handler calls. -/
def transaction (store : ObservableStore H) (roots : List ValueId) (apply : TransactionScript R) :
    ObservableStore H × Except (Failure ObservableError) R × List (H × ObservationDelivery) :=
  match store.transactionLocked roots apply with
  | (store,.ok (output,prepared)) => (store,.ok output,handlerCalls prepared)
  | (store,.error failure) => (store,.error failure,[])

end ObservableStore
end PhenixConductor.Observable
