import PhenixConductor.Collections.Totals
import PhenixConductor.Collections.Stateful
import PhenixConductor.Collections.Runs
import Mathlib.Data.String.Basic

/-! # The budget of a root execution

A ledger reserves parts of a budget. A reservation can be made within another one, and is
settled with what was used or released.
-/
namespace PhenixConductor.Execution
open Collections

abbrev U64 := Fin (2 ^ 64)

abbrev U32 := Fin (2 ^ 32)

inductive BudgetReservationPurpose
  | rootStep
  | retry
  | helper
  | delegation
  | verification
  | recoveryClassifier
deriving DecidableEq

structure RootBudgetLimits where
  freshInputTokens : U64
  outputTokens : U64
  costMicrounits : Option U64
  attempts : U32
deriving DecidableEq

structure RemainingBudget where
  freshInputTokens : U64
  outputTokens : U64
  costMicrounits : Option U64
  attempts : U32
deriving DecidableEq

structure BudgetReservation where
  inputTokens : U64
  outputTokens : U64
  costMicrounits : Option U64
deriving DecidableEq

structure BudgetReservationRequest where
  reservationId : String
  parentReservationId : Option String
  policyRevision : String
  purpose : BudgetReservationPurpose
  budget : BudgetReservation
  attempts : U32
deriving DecidableEq

structure BudgetActual where
  freshInputTokens : U64
  outputTokens : U64
  costMicrounits : Option U64
  attempts : U32
deriving DecidableEq

inductive BudgetReservationState
  | reserved
  | settled (actual : BudgetActual)
  | released
deriving DecidableEq

structure BudgetReservationRecord where
  request : BudgetReservationRequest
  state : BudgetReservationState
deriving DecidableEq

structure RootBudgetLedger where
  rootExecutionId : String
  limits : RootBudgetLimits
  reservations : BTreeMap String BudgetReservationRecord
deriving DecidableEq

inductive BudgetLedgerError
  | duplicateReservation (reservationId : String)
  | unknownParentReservation (reservationId : String)
  | parentNotReserved (reservationId : String)
  | activeChildren (reservationId : String)
  | inputBudgetExceeded (requested remaining : U64)
  | outputBudgetExceeded (requested remaining : U64)
  | costBudgetExceeded (requested remaining : U64)
  | attemptBudgetExceeded (requested remaining : U32)
  | unknownReservation (reservationId : String)
  | reservationNotActive (reservationId : String)
  | actualExceedsReservation (reservationId : String)
  | actualBelowSettledChildren (reservationId : String)

def actualCostForRequest (actual : BudgetActual) (request : BudgetReservationRequest) : U64 :=
  (actual.costMicrounits <|> request.budget.costMicrounits).getD 0

/-- A cost exceeds what was reserved only if a cost was. -/
def costExceeded : Option U64 → Option U64 → Bool
  | some actual,some reserved => decide (actual > reserved)
  | some _,none => false
  | none,_ => false

def actualExceedsRequest (actual : BudgetActual) (request : BudgetReservationRequest) : Bool :=
  actual.freshInputTokens > request.budget.inputTokens ||
    actual.outputTokens > request.budget.outputTokens ||
    actual.attempts > request.attempts ||
    costExceeded actual.costMicrounits request.budget.costMicrounits

/-- The cost that is left when a reservation may have reserved some. -/
def subtractReserved : Option U64 → Option U64 → Option U64
  | some current,some reserved => some (saturatingSub current reserved)
  | some current,none => some current
  | none,_ => none

def subtractRecord (remaining : RemainingBudget) (record : BudgetReservationRecord) :
    RemainingBudget :=
  match record.state with
  | .reserved =>
    { freshInputTokens :=
        saturatingSub remaining.freshInputTokens record.request.budget.inputTokens
      outputTokens := saturatingSub remaining.outputTokens record.request.budget.outputTokens
      costMicrounits :=
        subtractReserved remaining.costMicrounits record.request.budget.costMicrounits
      attempts := saturatingSub remaining.attempts record.request.attempts }
  | .settled actual =>
    { freshInputTokens := saturatingSub remaining.freshInputTokens actual.freshInputTokens
      outputTokens := saturatingSub remaining.outputTokens actual.outputTokens
      costMicrounits := remaining.costMicrounits.map
        (saturatingSub · (actualCostForRequest actual record.request))
      attempts := saturatingSub remaining.attempts actual.attempts }
  | .released => remaining

/-- The last check of `validate_fits`, which is made only if both sides know a cost. -/
def validateCost : Option U64 → Option U64 → Except BudgetLedgerError Unit
  | some requested,some remaining =>
    if requested > remaining then .error (.costBudgetExceeded requested remaining) else .ok ()
  | some _,none => .ok ()
  | none,_ => .ok ()

def validateFits (request : BudgetReservationRequest) (remaining : RemainingBudget) :
    Except BudgetLedgerError Unit :=
  if request.budget.inputTokens > remaining.freshInputTokens then
    .error (.inputBudgetExceeded request.budget.inputTokens remaining.freshInputTokens)
  else if request.budget.outputTokens > remaining.outputTokens then
    .error (.outputBudgetExceeded request.budget.outputTokens remaining.outputTokens)
  else if request.attempts > remaining.attempts then
    .error (.attemptBudgetExceeded request.attempts remaining.attempts)
  else validateCost request.budget.costMicrounits remaining.costMicrounits

/-- The body of the fold in `settled_direct_child_usage`. -/
def addSettled (total : BudgetActual) (record : BudgetReservationRecord) : BudgetActual :=
  match record.state with
  | .settled actual =>
    { freshInputTokens := saturatingAdd total.freshInputTokens actual.freshInputTokens
      outputTokens := saturatingAdd total.outputTokens actual.outputTokens
      costMicrounits := total.costMicrounits.map
        (saturatingAdd · (actualCostForRequest actual record.request))
      attempts := saturatingAdd total.attempts actual.attempts }
  | .reserved => total
  | .released => total

namespace RootBudgetLedger
variable (self : RootBudgetLedger)

def childrenOf (reservationId : Option String) : List BudgetReservationRecord :=
  self.reservations.values.filter (·.request.parentReservationId = reservationId)

def remaining : RemainingBudget :=
  (self.childrenOf none).foldl subtractRecord
    { freshInputTokens := self.limits.freshInputTokens
      outputTokens := self.limits.outputTokens
      costMicrounits := self.limits.costMicrounits
      attempts := self.limits.attempts }

def remainingWithin (reservationId : String) : Except BudgetLedgerError RemainingBudget :=
  match self.reservations.get? reservationId with
  | none => .error (.unknownParentReservation reservationId)
  | some parent => .ok <| (self.childrenOf (some reservationId)).foldl subtractRecord
    { freshInputTokens := parent.request.budget.inputTokens
      outputTokens := parent.request.budget.outputTokens
      costMicrounits := parent.request.budget.costMicrounits
      attempts := parent.request.attempts }

def hasActiveChildren (reservationId : String) : Bool :=
  (self.childrenOf (some reservationId)).any (·.state = .reserved)

def settledDirectChildUsage (reservationId : String) : BudgetActual :=
  (self.childrenOf (some reservationId)).foldl addSettled ⟨0,0,some 0,0⟩

/-- What the reservation can be made from. -/
def remainingFor (request : BudgetReservationRequest) :
    Except BudgetLedgerError RemainingBudget :=
  match request.parentReservationId with
  | none => .ok self.remaining
  | some parentId => match self.reservations.get? parentId with
    | none => .error (.unknownParentReservation parentId)
    | some parent =>
      if parent.state ≠ .reserved then .error (.parentNotReserved parentId)
      else self.remainingWithin parentId

/-- The checks of `reserve`. -/
def reservable (request : BudgetReservationRequest) : Except BudgetLedgerError Unit :=
  if request.reservationId ∈ self.reservations.keys then
    .error (.duplicateReservation request.reservationId)
  else do
    let remaining ← self.remainingFor request
    validateFits request remaining

/-- The checks that `settle` and `release` begin with. -/
def closable (reservationId : String) : Except BudgetLedgerError BudgetReservationRecord :=
  match self.reservations.get? reservationId with
  | none => .error (.unknownReservation reservationId)
  | some record =>
    if record.state ≠ .reserved then .error (.reservationNotActive reservationId)
    else if self.hasActiveChildren reservationId then .error (.activeChildren reservationId)
    else .ok record

/-- The checks of `settle`. -/
def settleable (reservationId : String) (actual : BudgetActual) :
    Except BudgetLedgerError BudgetReservationRecord := do
  let record ← self.closable reservationId
  if actualExceedsRequest actual record.request then
    .error (.actualExceedsReservation reservationId)
  else
    let children := self.settledDirectChildUsage reservationId
    if actual.freshInputTokens < children.freshInputTokens ||
        actual.outputTokens < children.outputTokens || actual.attempts < children.attempts ||
        actualCostForRequest actual record.request < children.costMicrounits.getD 0 then
      .error (.actualBelowSettledChildren reservationId)
    else .ok record

def put (record : BudgetReservationRecord) (reservationId : String) : RootBudgetLedger :=
  { self with reservations := self.reservations.insert reservationId record }

end RootBudgetLedger

/-- A call that fails has left the ledger as it is in the state of the failure. -/
abbrev LedgerM := EStateM BudgetLedgerError RootBudgetLedger

def reserve (request : BudgetReservationRequest) : LedgerM Unit :=
  checked (·.reservable request) fun self _ => self.put ⟨request,.reserved⟩ request.reservationId

def settle (reservationId : String) (actual : BudgetActual) : LedgerM Unit :=
  checked (·.settleable reservationId actual) fun self record =>
    self.put { record with state := .settled actual } reservationId

def release (reservationId : String) : LedgerM Unit :=
  checked (·.closable reservationId) fun self record =>
    self.put { record with state := .released } reservationId

inductive LedgerCall
  | reserve (request : BudgetReservationRequest)
  | settle (reservationId : String) (actual : BudgetActual)
  | release (reservationId : String)

def LedgerCall.perform : LedgerCall → LedgerM Unit
  | .reserve request => Execution.reserve request
  | .settle reservationId actual => Execution.settle reservationId actual
  | .release reservationId => Execution.release reservationId

namespace RootBudgetLedger

def new (rootExecutionId : String) (limits : RootBudgetLimits) : RootBudgetLedger :=
  ⟨rootExecutionId,limits,.empty⟩

/-- The ledger after a call, whether it succeeds or fails. -/
def step (self : RootBudgetLedger) (call : LedgerCall) : RootBudgetLedger :=
  after call.perform self

def run (self : RootBudgetLedger) (calls : List LedgerCall) : RootBudgetLedger :=
  runAll step self calls

end RootBudgetLedger

end PhenixConductor.Execution
