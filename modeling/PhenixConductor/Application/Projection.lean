import PhenixConductor.Application.Sessions
import PhenixConductor.Observable.Commit

/-! # The projection of the sessions

The application keeps in memory, for every session it has seen, the updates of its journal up to
a number.
-/
namespace PhenixConductor.Application
open Collections Contract Client
open Execution (U64)
open Observable (ObservableStore ObservableError Failure replaceRoot)

structure SessionInfo where
  sessionId : SessionId
  title : Option String
  workingDirectory : String
deriving DecidableEq

/-- `D` and `R` are the diagnostics and the review records. -/
structure SessionSnapshot (D R : Type) where
  session : SessionInfo
  throughSequence : U64
  updates : List (SessionUpdate D R)

structure SessionProjection (D R : Type) where
  session : SessionInfo
  throughSequence : U64
  updates : List (SessionUpdate D R)

structure SessionProjectionState (D R : Type) where
  sessions : BTreeMap String (SessionProjection D R)

inductive SessionProjectionError
  | missing (sessionId : SessionId)
  | sequenceGap (sessionId : SessionId) (expected actual : U64)
  | repairSessionMismatch (expected actual : SessionId)
deriving DecidableEq

/-- The `Display` text. -/
def SessionProjectionError.text : SessionProjectionError → String
  | .missing sessionId => "session projection is missing for " ++ sessionId.text
  | .sequenceGap sessionId expected actual =>
    "session projection sequence gap for " ++ sessionId.text ++ ": expected " ++
      Nat.repr expected.val ++ ", got " ++ Nat.repr actual.val
  | .repairSessionMismatch expected actual =>
    "session projection repair for " ++ expected.text ++ " received an update for " ++ actual.text

variable {D R H : Type}

/-! ## The reducer -/

namespace SessionProjectionState
variable (self : SessionProjectionState D R)

def get? (id : SessionId) : Option (SessionProjection D R) := self.sessions.get? id.text

def put (id : SessionId) (projection : SessionProjection D R) : SessionProjectionState D R :=
  ⟨self.sessions.insert id.text projection⟩

def insertCreated (session : SessionInfo) : SessionProjectionState D R :=
  self.put session.sessionId ⟨session,0,[]⟩

def replaceSnapshot (snapshot : SessionSnapshot D R) : SessionProjectionState D R :=
  self.put snapshot.session.sessionId
    ⟨snapshot.session,snapshot.throughSequence,snapshot.updates⟩

end SessionProjectionState

/-- The update after the others. A rename also changes the title. -/
def SessionProjection.applied (projection : SessionProjection D R) (update : SessionUpdate D R) :
    SessionProjection D R where
  session := match update.update with
    | .renamed title => { projection.session with title := some title }
    | _ => projection.session
  throughSequence := update.sequence
  updates := projection.updates ++ [update]

def SessionProjectionState.applyUpdate (self : SessionProjectionState D R)
    (update : SessionUpdate D R) : Except SessionProjectionError (SessionProjectionState D R) :=
  match self.get? update.sessionId with
  | none => .error (.missing update.sessionId)
  | some projection =>
    let expected := projection.throughSequence + 1
    if update.sequence ≠ expected then
      .error (.sequenceGap update.sessionId expected update.sequence)
    else .ok (self.put update.sessionId (projection.applied update))

/-! ## The store -/

inductive SessionProjectionStoreError
  | projection (error : SessionProjectionError)
  | observable (error : ObservableError)
deriving DecidableEq

def sessionProjectionValueId : ValueId := ⟨"phenix.application.sessions@1",by decide +kernel⟩

/-- `H` names the handlers of the subscribers. -/
structure SessionProjectionStore (D R H : Type) where
  store : ObservableStore H
  reducer : SessionProjectionState D R

/-- A call of the store returns, fails or panics. -/
abbrev ProjectionM (D R H : Type) :=
  EStateM (Failure SessionProjectionStoreError) (SessionProjectionStore D R H)

def storeFailure : Failure ObservableError → Failure SessionProjectionStoreError
  | .error error => .error (.observable error)
  | .panic message => .panic message

def sdkPlugin : PluginId := ⟨"phenix.api",by decide +kernel⟩

section Store
variable (toValue : SessionProjectionState D R → PhenixValue)

/-- The store with no session, its value registered under the schema of the state. -/
def SessionProjectionStore.new (schema : PhenixSchema) :
    Except (Failure ObservableError) (SessionProjectionStore D R H) :=
  let reducer : SessionProjectionState D R := ⟨.empty⟩
  let registered := ObservableStore.default.register
    ⟨sessionProjectionValueId,sdkPlugin,schema,.copyOnChange,toValue reducer⟩
  registered.2.map fun _ => ⟨registered.1,reducer⟩

/-- The reducer is changed on a copy, which is taken over after the transaction. -/
def commit (mutate : SessionProjectionState D R →
    Except SessionProjectionError (SessionProjectionState D R)) : ProjectionM D R H Unit :=
  fun self =>
    match mutate self.reducer with
    | .error error => .error (.error (.projection error)) self
    | .ok next =>
      let committed := self.store.transaction [sessionProjectionValueId]
        (replaceRoot sessionProjectionValueId (toValue next))
      match committed.2.1 with
      | .ok _ => .ok () ⟨committed.1,next⟩
      | .error failure => .error (storeFailure failure) { self with store := committed.1 }

def insertCreated (session : SessionInfo) : ProjectionM D R H Unit :=
  commit toValue fun reducer => .ok (reducer.insertCreated session)

def replaceSnapshot (snapshot : SessionSnapshot D R) : ProjectionM D R H Unit :=
  commit toValue fun reducer => .ok (reducer.replaceSnapshot snapshot)

def applyUpdate (update : SessionUpdate D R) : ProjectionM D R H Unit :=
  commit toValue fun reducer => reducer.applyUpdate update

/-- One update that was buffered while the snapshot was read. -/
def applyBuffered (sessionId : SessionId) (update : SessionUpdate D R) :
    ProjectionM D R H Unit := do
  if update.sessionId ≠ sessionId then
    throw (.error (.projection (.repairSessionMismatch sessionId update.sessionId)))
  else
    let self ← get
    match self.reducer.get? sessionId with
    | none => throw (.panic "no entry found for key")
    | some projection =>
      if update.sequence ≤ projection.throughSequence then return ()
      else applyUpdate toValue update

def repairWithSnapshot (snapshot : SessionSnapshot D R) (buffered : List (SessionUpdate D R)) :
    ProjectionM D R H Unit := do
  replaceSnapshot toValue snapshot
  buffered.forM (applyBuffered toValue snapshot.session.sessionId)

end Store

end PhenixConductor.Application
