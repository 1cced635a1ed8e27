import PhenixConductor.Execution.UsagePolicy

/-! # Attempts at a step

An attempt goes through phases and is closed by a settlement after its dispatch or by an abort
before it.
-/
namespace PhenixConductor.Execution
open Collections

inductive UsageAttemptKind
  | root
  | retry
  | helper
  | delegated
  | verification
  | recoveryClassifier
deriving DecidableEq

inductive AttemptOutcome
  | succeeded
  | failed
  | cancelled
  | timedOut
  | unknown
deriving DecidableEq

structure UsageAttribution where
  rootExecutionId : String
  executionId : String
  attemptId : String
  parentAttemptId : Option String
  policyRevision : String
  kind : UsageAttemptKind
  taskId : Option String
deriving DecidableEq

structure ProjectionRevision where
  revision : ℕ
  cacheEpoch : ℕ
deriving DecidableEq

inductive StepAttemptPhase
  | planned
  | reserved
  | routed
  | contextAdmitted
  | dispatched
  | settled
deriving DecidableEq

structure StepAttemptRecord (Plan Route : Type) where
  attribution : UsageAttribution
  plan : Plan
  phase : StepAttemptPhase
  reservationId : Option String
  route : Option Route
  projection : Option ProjectionRevision
  dispatchId : Option String
  outcome : Option AttemptOutcome

inductive StepAttemptTransitionError
  | policyRevisionMismatch (attribution plan : String)
  | invalidPhase (expected actual : StepAttemptPhase)
  | invalidAbortPhase (actual : StepAttemptPhase)
  | invalidAbortOutcome (outcome : AttemptOutcome)
  | emptyIdentity (field : String)

/-- The message of a refused call, and the error that is printed behind it. -/
structure AttemptFailure where
  text : String
  cause : Option StepAttemptTransitionError

variable {Plan Route : Type}

namespace StepAttemptRecord
variable (self : StepAttemptRecord Plan Route)

def requirePhase (expected : StepAttemptPhase) : Except StepAttemptTransitionError Unit :=
  if self.phase = expected then .ok () else .error (.invalidPhase expected self.phase)

def closed (outcome : AttemptOutcome) : StepAttemptRecord Plan Route :=
  { self with outcome := some outcome, phase := .settled }

def abort (outcome : AttemptOutcome) :
    Except StepAttemptTransitionError (StepAttemptRecord Plan Route) :=
  if self.phase = .dispatched ∨ self.phase = .settled then .error (.invalidAbortPhase self.phase)
  else if outcome = .succeeded then .error (.invalidAbortOutcome outcome)
  else .ok (self.closed outcome)

def settle (outcome : AttemptOutcome) :
    Except StepAttemptTransitionError (StepAttemptRecord Plan Route) := do
  self.requirePhase .dispatched
  return self.closed outcome

end StepAttemptRecord

structure AttemptLedger (Plan Route : Type) where
  nextSequence : ℕ
  attempts : BTreeMap String (StepAttemptRecord Plan Route)

namespace AttemptLedger
variable (self : AttemptLedger Plan Route)

def put (attemptId : String) (record : StepAttemptRecord Plan Route) : AttemptLedger Plan Route :=
  { self with attempts := self.attempts.insert attemptId record }

/-- The record that `mutate` leaves. -/
def mutated (attemptId text : String)
    (mutation : StepAttemptRecord Plan Route →
      Except StepAttemptTransitionError (StepAttemptRecord Plan Route)) :
    Except AttemptFailure (StepAttemptRecord Plan Route) :=
  match self.attempts.get? attemptId with
  | none => .error ⟨"unknown step attempt: " ++ attemptId,none⟩
  | some record => (mutation record).mapError fun error => ⟨text,some error⟩

end AttemptLedger

abbrev AttemptM (Plan Route : Type) := EStateM AttemptFailure (AttemptLedger Plan Route)

namespace AttemptLedger

def mutate (attemptId text : String)
    (mutation : StepAttemptRecord Plan Route →
      Except StepAttemptTransitionError (StepAttemptRecord Plan Route)) :
    AttemptM Plan Route (StepAttemptRecord Plan Route) :=
  answered (·.mutated attemptId text mutation) (·.put attemptId)

def abort (attemptId : String) (outcome : AttemptOutcome) :
    AttemptM Plan Route (StepAttemptRecord Plan Route) :=
  mutate attemptId "attempt abort failed: " (·.abort outcome)

def settle (attemptId : String) (outcome : AttemptOutcome) :
    AttemptM Plan Route (StepAttemptRecord Plan Route) :=
  mutate attemptId "attempt settlement failed: " (·.settle outcome)

end AttemptLedger

end PhenixConductor.Execution

/-! ## The service of step attempts

A command works on a copy of the ledger that it has read, and the copy is committed when
the command and its encoding succeed.
-/
namespace PhenixConductor.Execution
open Collections
open Configuration (isBlank)
variable {Route : Type}

/-- The derived `Debug` name. -/
def UsageAttemptKind.debug : UsageAttemptKind → String
  | .root => "Root"
  | .retry => "Retry"
  | .helper => "Helper"
  | .delegated => "Delegated"
  | .verification => "Verification"
  | .recoveryClassifier => "RecoveryClassifier"

namespace StepAttemptRecord

def validateIdentity (field value : String) : Except StepAttemptTransitionError Unit :=
  ensure (¬ isBlank value) (.emptyIdentity field)

def new (attribution : UsageAttribution) (plan : StepPlan) :
    Except StepAttemptTransitionError (StepAttemptRecord StepPlan Route) := do
  ensure (attribution.policyRevision = plan.policyRevision)
    (.policyRevisionMismatch attribution.policyRevision plan.policyRevision)
  validateIdentity "root_execution_id" attribution.rootExecutionId
  validateIdentity "execution_id" attribution.executionId
  validateIdentity "attempt_id" attribution.attemptId
  attribution.parentAttemptId.toList.forM (validateIdentity "parent_attempt_id")
  return ⟨attribution,plan,.planned,none,none,none,none,none⟩

variable (self : StepAttemptRecord StepPlan Route)

def bindReservation (reservationId : String) :
    Except StepAttemptTransitionError (StepAttemptRecord StepPlan Route) := do
  self.requirePhase .planned
  validateIdentity "reservation_id" reservationId
  return { self with reservationId := some reservationId, phase := .reserved }

def bindRoute (decision : Route) :
    Except StepAttemptTransitionError (StepAttemptRecord StepPlan Route) := do
  self.requirePhase .reserved
  return { self with route := some decision, phase := .routed }

def bindProjection (projection : ProjectionRevision) :
    Except StepAttemptTransitionError (StepAttemptRecord StepPlan Route) := do
  self.requirePhase .routed
  return { self with projection := some projection, phase := .contextAdmitted }

def markDispatched (dispatchId : String) :
    Except StepAttemptTransitionError (StepAttemptRecord StepPlan Route) := do
  self.requirePhase .contextAdmitted
  validateIdentity "dispatch_id" dispatchId
  return { self with dispatchId := some dispatchId, phase := .dispatched }

end StepAttemptRecord

def requireIdentity (label value : String) : Except AttemptFailure Unit :=
  ensure (¬ isBlank value) ⟨label ++ " must not be empty",none⟩

def validateParentShape : UsageAttemptKind → Option String → Except AttemptFailure Unit
  | .root,some _ => .error ⟨"root step attempt cannot have a parent attempt",none⟩
  | .root,none => .ok ()
  | kind,none => .error ⟨kind.debug ++ " step attempt requires a parent attempt",none⟩
  | _,some _ => .ok ()

def validateParent (rootExecutionId : String) (kind : UsageAttemptKind)
    (parent : StepAttemptRecord StepPlan Route) : Except AttemptFailure Unit :=
  if parent.attribution.rootExecutionId ≠ rootExecutionId then
    .error ⟨"step attempt parent belongs to a different root execution",none⟩
  else if kind = .retry ∧ parent.phase ≠ .settled then
    .error ⟨"retry parent step attempt is not settled",none⟩
  else if kind = .retry ∧ parent.outcome = some .succeeded then
    .error ⟨"successful step attempt cannot be retried",none⟩
  else .ok ()

namespace AttemptLedger
variable (self : AttemptLedger StepPlan Route)

def empty : AttemptLedger StepPlan Route := ⟨0,.empty⟩

/-- The check of a parent that is named. -/
def validateParentOf (rootExecutionId : String) (kind : UsageAttemptKind) :
    Option String → Except AttemptFailure Unit
  | none => .ok ()
  | some parentId => match self.attempts.get? parentId with
    | none => .error ⟨"unknown parent step attempt: " ++ parentId,none⟩
    | some parent => validateParent rootExecutionId kind parent

/-- The name of the attempt with a number. -/
def candidate (sequence : ℕ) : String := "attempt-" ++ toString sequence

/-- The next number whose name is free. As many numbers as there are attempts, and one more,
are enough to find it. -/
def nextFree : Except AttemptFailure ℕ :=
  match (List.range (self.attempts.keys.length + 1)).find? fun i =>
    candidate (self.nextSequence + 1 + i) ∉ self.attempts.keys with
  | some i =>
    if self.nextSequence + 1 + i < 2 ^ 64 then .ok (self.nextSequence + 1 + i)
    else .error ⟨"step attempt identity sequence exhausted",none⟩
  | none => .error ⟨"step attempt identity sequence exhausted",none⟩

def allocated (rootExecutionId executionId : String) (parentAttemptId : Option String)
    (policyRevision : String) (kind : UsageAttemptKind) :
    Except AttemptFailure (UsageAttribution × AttemptLedger StepPlan Route) := do
  requireIdentity "root execution id" rootExecutionId
  requireIdentity "execution id" executionId
  requireIdentity "policy revision" policyRevision
  validateParentShape kind parentAttemptId
  parentAttemptId.toList.forM (requireIdentity "parent attempt id")
  self.validateParentOf rootExecutionId kind parentAttemptId
  let sequence ← self.nextFree
  return (⟨rootExecutionId,executionId,candidate sequence,parentAttemptId,policyRevision,kind,
    none⟩,{ self with nextSequence := sequence })

/-- The record that `create` adds. -/
def creatable (attribution : UsageAttribution) (plan : StepPlan) :
    Except AttemptFailure (StepAttemptRecord StepPlan Route) := do
  ensure (attribution.attemptId ∉ self.attempts.keys)
    ⟨"step attempt already exists: " ++ attribution.attemptId,none⟩
  ensure (attribution.parentAttemptId ≠ some attribution.attemptId)
    ⟨"step attempt cannot parent itself",none⟩
  validateParentShape attribution.kind attribution.parentAttemptId
  self.validateParentOf attribution.rootExecutionId attribution.kind attribution.parentAttemptId
  (StepAttemptRecord.new attribution plan).mapError
    fun error => ⟨"step attempt creation failed: ",some error⟩

def listRoot (rootExecutionId : String) : List (StepAttemptRecord StepPlan Route) :=
  self.attempts.values.filter (·.attribution.rootExecutionId = rootExecutionId)

end AttemptLedger

inductive StepAttemptCommand (Route : Type)
  | allocateIdentity (rootExecutionId executionId : String) (parentAttemptId : Option String)
      (policyRevision : String) (kind : UsageAttemptKind)
  | create (attribution : UsageAttribution) (plan : StepPlan)
  | get (attemptId : String)
  | listRoot (rootExecutionId : String)
  | bindReservation (attemptId reservationId : String)
  | bindRoute (attemptId : String) (decision : Route)
  | bindProjection (attemptId : String) (projection : ProjectionRevision)
  | markDispatched (attemptId dispatchId : String)
  | abort (attemptId : String) (outcome : AttemptOutcome)
  | settle (attemptId : String) (outcome : AttemptOutcome)

inductive StepAttemptResponse (Route : Type)
  | attribution (attribution : UsageAttribution)
  | attempt (attempt : StepAttemptRecord StepPlan Route)
  | attemptLookup (attempt : Option (StepAttemptRecord StepPlan Route))
  | attempts (attempts : List (StepAttemptRecord StepPlan Route))

namespace AttemptLedger
variable (self : AttemptLedger StepPlan Route)

/-- The answer and the ledger that a mutation of an attempt leaves. -/
def mutation (attemptId text : String) (change : StepAttemptRecord StepPlan Route →
    Except StepAttemptTransitionError (StepAttemptRecord StepPlan Route)) :
    Except AttemptFailure (StepAttemptResponse Route × AttemptLedger StepPlan Route) :=
  (onCopy (mutate attemptId text change) self).map fun changed => (.attempt changed.1,changed.2)

/-- The answer to a command and the ledger with it. -/
def answer : StepAttemptCommand Route →
    Except AttemptFailure (StepAttemptResponse Route × AttemptLedger StepPlan Route)
  | .allocateIdentity rootExecutionId executionId parentAttemptId policyRevision kind =>
    (self.allocated rootExecutionId executionId parentAttemptId policyRevision kind).map
      fun allocated => (.attribution allocated.1,allocated.2)
  | .create attribution plan =>
    (self.creatable attribution plan).map fun record =>
      (.attempt record,self.put record.attribution.attemptId record)
  | .get attemptId => .ok (.attemptLookup (self.attempts.get? attemptId),self)
  | .listRoot rootExecutionId => .ok (.attempts (self.listRoot rootExecutionId),self)
  | .bindReservation attemptId reservationId =>
    self.mutation attemptId "reservation binding failed: " (·.bindReservation reservationId)
  | .bindRoute attemptId decision =>
    self.mutation attemptId "route binding failed: " (·.bindRoute decision)
  | .bindProjection attemptId projection =>
    self.mutation attemptId "projection binding failed: " (·.bindProjection projection)
  | .markDispatched attemptId dispatchId =>
    self.mutation attemptId "dispatch binding failed: " (·.markDispatched dispatchId)
  | .abort attemptId outcome =>
    self.mutation attemptId "attempt abort failed: " (·.abort outcome)
  | .settle attemptId outcome =>
    self.mutation attemptId "attempt settlement failed: " (·.settle outcome)

end AttemptLedger

def StepAttemptCommand.readsOnly : StepAttemptCommand Route → Bool
  | .get _ => true
  | .listRoot _ => true
  | _ => false

/-- The encoder of ledgers. It spends at least a byte on each attempt. -/
structure LedgerEncoding (Route : Type) where
  toVec : AttemptLedger StepPlan Route → Except String (List UInt8)
  dense : ∀ ledger encoded, toVec ledger = .ok encoded →
    ledger.attempts.keys.length ≤ encoded.length

/-- What becomes of the read, the encoding and the commit of one call. -/
structure AttemptStore (Route : Type) where
  read : Except String Unit
  encoding : LedgerEncoding Route
  commit : Except String Unit

def maxAttemptStateBytes : ℕ := 16 * 1024 * 1024

def encodeLedger (encoding : LedgerEncoding Route) (ledger : AttemptLedger StepPlan Route) :
    Except String Unit := do
  let encoded ← encoding.toVec ledger
  ensure (encoded.length ≤ maxAttemptStateBytes)
    ("step attempt state exceeds " ++ toString maxAttemptStateBytes ++ " bytes")

section Invoke
variable (store : AttemptStore Route)

/-- What a call finds and what it commits. -/
def attemptAnswer (command : StepAttemptCommand Route) (ledger : AttemptLedger StepPlan Route) :
    Except AttemptFailure (StepAttemptResponse Route × AttemptLedger StepPlan Route) := do
  store.read.mapError (⟨·,none⟩)
  let (response,next) ← ledger.answer command
  if command.readsOnly then return (response,next)
  (encodeLedger store.encoding next).mapError (⟨·,none⟩)
  store.commit.mapError (⟨·,none⟩)
  return (response,next)

def invokeAttempts (command : StepAttemptCommand Route) :
    AttemptM StepPlan Route (StepAttemptResponse Route) := do
  let ledger ← get
  let (response,next) ← check (attemptAnswer store command ledger)
  set next
  return response

end Invoke

end PhenixConductor.Execution
