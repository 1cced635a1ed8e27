import PhenixConductor.Execution.Attempts
import PhenixConductor.Execution.Coupling

/-! # Closing an attempt with its reservation

A step transaction works on copies of the resources and of the attempts and commits both at
once, or the attempts alone.
-/
namespace PhenixConductor.Execution
open Collections
open AttemptLedger (abort)
variable {Plan Route : Type}

structure StepState (Plan Route : Type) where
  resources : ExecutionResourceState
  attempts : AttemptLedger Plan Route

inductive StepTransactionCommand
  | settle (rootExecutionId reservationId : String) (actual : BudgetActual) (attemptId : String)
      (outcome : AttemptOutcome)
  | abortBeforeDispatch (rootExecutionId : String) (reservationId : Option String)
      (attemptId : String) (outcome : AttemptOutcome)

inductive StepTransactionResponse (Plan Route : Type)
  | settled (ledger : RootBudgetLedger) (attempt : StepAttemptRecord Plan Route)
  | aborted (ledger : Option RootBudgetLedger) (attempt : StepAttemptRecord Plan Route)

inductive StepFailure
  | message (text : String)
  | resource (failure : ResourceFailure)
  | attempt (failure : AttemptFailure)

/-- What becomes of the reads, the encodings and the commit of one call. -/
structure StepStore (Plan Route : Type) where
  readResources : Except String Unit
  encodeResources : ExecutionResourceState → Except String Unit
  readAttempts : Except String Unit
  encodeAttempts : AttemptLedger Plan Route → Except String Unit
  commit : Except String Unit

abbrev StepM (Plan Route : Type) := EStateM StepFailure (StepState Plan Route)

section Handle
variable (store : StepStore Plan Route)

/-- The resources after a method on a copy of what is read, encoded. -/
def changedResources (text : String) (x : ResourceM RootBudgetLedger)
    (resources : ExecutionResourceState) :
    Except StepFailure (RootBudgetLedger × ExecutionResourceState) := do
  store.readResources.mapError .message
  let changed ← (onCopy x resources).mapError fun error => .resource ⟨text,some error⟩
  (store.encodeResources changed.2).mapError .message
  return changed

/-- The attempts after a method on a copy of what is read, encoded. -/
def changedAttempts (x : AttemptM Plan Route (StepAttemptRecord Plan Route))
    (attempts : AttemptLedger Plan Route) :
    Except StepFailure (StepAttemptRecord Plan Route × AttemptLedger Plan Route) := do
  store.readAttempts.mapError .message
  let changed ← (onCopy x attempts).mapError .attempt
  (store.encodeAttempts changed.2).mapError .message
  return changed

/-- The answer to a command and what its commit leaves. -/
def committed (state : StepState Plan Route) : StepTransactionCommand →
    Except StepFailure (StepTransactionResponse Plan Route × StepState Plan Route)
  | .settle rootExecutionId reservationId actual attemptId outcome => do
    let resources ← changedResources store "root budget settlement failed: "
      (settleReservation rootExecutionId reservationId actual) state.resources
    let attempts ← changedAttempts store (AttemptLedger.settle attemptId outcome) state.attempts
    store.commit.mapError .message
    return (.settled resources.1 attempts.1,⟨resources.2,attempts.2⟩)
  | .abortBeforeDispatch rootExecutionId (some reservationId) attemptId outcome => do
    let attempts ← changedAttempts store (AttemptLedger.abort attemptId outcome) state.attempts
    let resources ← changedResources store "root budget release failed: "
      (releaseReservation rootExecutionId reservationId) state.resources
    store.commit.mapError .message
    return (.aborted (some resources.1) attempts.1,⟨resources.2,attempts.2⟩)
  | .abortBeforeDispatch _ none attemptId outcome => do
    let attempts ← changedAttempts store (AttemptLedger.abort attemptId outcome) state.attempts
    store.commit.mapError .message
    return (.aborted none attempts.1,⟨state.resources,attempts.2⟩)

def handle (command : StepTransactionCommand) :
    StepM Plan Route (StepTransactionResponse Plan Route) := do
  let state ← get
  let (response,next) ← check (committed store state command)
  set next
  return response

end Handle

namespace StepTransactionCommand

def attemptId : StepTransactionCommand → String
  | .settle _ _ _ attemptId _ => attemptId
  | .abortBeforeDispatch _ _ attemptId _ => attemptId

def outcome : StepTransactionCommand → AttemptOutcome
  | .settle _ _ _ _ outcome => outcome
  | .abortBeforeDispatch _ _ _ outcome => outcome

/-- The phases that the command takes an attempt from. -/
def ClosesFrom (phase : StepAttemptPhase) : StepTransactionCommand → Prop
  | .settle _ _ _ _ _ => phase = .dispatched
  | .abortBeforeDispatch _ _ _ _ => phase ≠ .dispatched ∧ phase ≠ .settled

/-- The state that the command leaves a reservation in. -/
def reservationState : StepTransactionCommand → BudgetReservationState
  | .settle _ _ actual _ _ => .settled actual
  | .abortBeforeDispatch _ _ _ _ => .released

/-- The reservation that the command names. -/
def reservation : StepTransactionCommand → Option TaskReservationBinding
  | .settle rootExecutionId reservationId _ _ _ => some ⟨rootExecutionId,reservationId⟩
  | .abortBeforeDispatch rootExecutionId reservationId _ _ =>
    reservationId.map (⟨rootExecutionId,·⟩)

end StepTransactionCommand

/-- The reservation that the attempt is bound to. -/
def StepAttemptRecord.reservation (attempt : StepAttemptRecord Plan Route) :
    Option TaskReservationBinding :=
  attempt.reservationId.map (⟨attempt.attribution.rootExecutionId,·⟩)

/-- The attempt and the reservation that it is bound to are closed, and nothing else changes. -/
structure ClosedTogether (command : StepTransactionCommand) (before next : StepState Plan Route)
    (attempt : StepAttemptRecord Plan Route) : Prop where
  found : before.attempts.attempts.get? command.attemptId = some attempt
  phase : command.ClosesFrom attempt.phase
  settled : next.attempts.attempts.get? command.attemptId = some (attempt.closed command.outcome)
  attempts : ∀ other, other ≠ command.attemptId →
    next.attempts.attempts.get? other = before.attempts.attempts.get? other
  reservation : ∀ binding, attempt.reservation = some binding → ∃ record,
    before.resources.reservationAt binding = some record ∧ record.state = .reserved ∧
      next.resources.reservationAt binding = some { record with state := command.reservationState }
  reservations : ∀ binding, attempt.reservation ≠ some binding →
    next.resources.reservationAt binding = before.resources.reservationAt binding

/-- The call fails and changes nothing, or it closes the named attempt with its reservation. -/
def ExactlyCloses (command : StepTransactionCommand) (before : StepState Plan Route) :
    EStateM.Result StepFailure (StepState Plan Route) (StepTransactionResponse Plan Route) → Prop
  | .ok _ next => ∃ attempt, ClosedTogether command before next attempt
  | .error _ next => next = before

/-- The way that the command closes a reservation in. -/
def StepTransactionCommand.Closes (ledger : RootBudgetLedger) (reservationId : String)
    (record : BudgetReservationRecord) : StepTransactionCommand → Prop
  | .settle _ _ actual _ _ => ledger.settleable reservationId actual = .ok record
  | .abortBeforeDispatch _ _ _ _ => ledger.closable reservationId = .ok record

/-- The resources after the named reservation is closed. -/
inductive ClosesReservation (command : StepTransactionCommand) (before : ExecutionResourceState) :
    ExecutionResourceState → Prop
  | unnamed (h : command.reservation = none) : ClosesReservation command before before
  | named {binding : TaskReservationBinding} {ledger : RootBudgetLedger}
      {record : BudgetReservationRecord} (h : command.reservation = some binding)
      (found : before.ledgers.get? binding.rootExecutionId = some ledger)
      (closes : command.Closes ledger binding.reservationId record) :
      ClosesReservation command before (before.putLedger binding.rootExecutionId
        (ledger.put { record with state := command.reservationState } binding.reservationId))

/-- The named attempt is one that the command can close. -/
structure ClosesAttempt (command : StepTransactionCommand) (before : AttemptLedger Plan Route)
    (attempt : StepAttemptRecord Plan Route) : Prop where
  found : before.attempts.get? command.attemptId = some attempt
  phase : command.ClosesFrom attempt.phase
  outcome : ∀ rootExecutionId reservationId attemptId, command ≠
    .abortBeforeDispatch rootExecutionId reservationId attemptId .succeeded

/-- The store reads, encodes and commits what the command makes. -/
structure StepStore.Accepts (store : StepStore Plan Route) (command : StepTransactionCommand)
    (next : StepState Plan Route) : Prop where
  attempts : store.readAttempts = .ok () ∧ store.encodeAttempts next.attempts = .ok ()
  resources : command.reservation ≠ none →
    store.readResources = .ok () ∧ store.encodeResources next.resources = .ok ()
  commit : store.commit = .ok ()

/-- The command passes its checks and is committed. -/
structure ClosesStep (store : StepStore Plan Route) (command : StepTransactionCommand)
    (before next : StepState Plan Route) (attempt : StepAttemptRecord Plan Route) : Prop where
  closes : ClosesAttempt command before.attempts attempt
  attempts : next.attempts =
    before.attempts.put command.attemptId (attempt.closed command.outcome)
  resources : ClosesReservation command before.resources next.resources
  accepts : store.Accepts command next

section Inversion
variable {store : StepStore Plan Route} {command : StepTransactionCommand}
  {before next : StepState Plan Route} {attempts : AttemptLedger Plan Route}
  {resources : ExecutionResourceState}

variable {attempt : StepAttemptRecord Plan Route} {outcome : AttemptOutcome}

variable {record : StepAttemptRecord Plan Route}

theorem settle_eq_ok : attempt.settle outcome = .ok record ↔
      attempt.phase = .dispatched ∧ record = attempt.closed outcome := by
  unfold StepAttemptRecord.settle StepAttemptRecord.requirePhase
  split_ifs with hphase
  · simp [hphase, eq_comm]
  · simp [hphase]

theorem abort_eq_ok : attempt.abort outcome = .ok record ↔
      (attempt.phase ≠ .dispatched ∧ attempt.phase ≠ .settled) ∧ outcome ≠ .succeeded ∧
        record = attempt.closed outcome := by
  unfold StepAttemptRecord.abort
  rw [← not_or]
  split_ifs with hphase houtcome
  · simp [hphase]
  · simp [houtcome]
  · rw [Except.ok.injEq, eq_comm]
    exact (and_iff_right hphase).trans (and_iff_right houtcome) |>.symm

variable {attemptId : String} {changed : StepAttemptRecord Plan Route × AttemptLedger Plan Route}

theorem onCopy_mutate {text : String}
    {mutation : StepAttemptRecord Plan Route → Except StepAttemptTransitionError (StepAttemptRecord Plan Route)} :
    onCopy (AttemptLedger.mutate attemptId text mutation) attempts = .ok changed ↔
      ∃ attempt record, attempts.attempts.get? attemptId = some attempt ∧
        mutation attempt = .ok record ∧ changed = (record,attempts.put attemptId record) := by
  unfold AttemptLedger.mutate AttemptLedger.mutated
  rw [onCopy_answered, map_eq_ok]
  cases attempts.attempts.get? attemptId with
  | none => simp
  | some attempt =>
    simp only [mapError_eq_ok, Option.some.injEq]
    constructor
    · rintro ⟨record,hrecord,hchanged⟩
      exact ⟨attempt,record,rfl,hrecord,hchanged.symm⟩
    · rintro ⟨_,record,rfl,hrecord,hchanged⟩
      exact ⟨record,hrecord,hchanged.symm⟩

variable {root id : String} {actual : BudgetActual} {reservationId : Option String}

theorem onCopy_settle : onCopy (AttemptLedger.settle attemptId outcome) attempts = .ok changed ↔
      ∃ attempt, ClosesAttempt (.settle root id actual attemptId outcome) attempts attempt ∧
        changed = (attempt.closed outcome,attempts.put attemptId (attempt.closed outcome)) := by
  unfold AttemptLedger.settle
  rw [onCopy_mutate]
  constructor
  · rintro ⟨attempt,record,hget,hsettle,rfl⟩
    obtain ⟨hphase,rfl⟩ := settle_eq_ok.mp hsettle
    exact ⟨attempt,⟨hget,hphase,nofun⟩,rfl⟩
  · rintro ⟨attempt,⟨hget,hphase,-⟩,rfl⟩
    exact ⟨attempt,_,hget,settle_eq_ok.mpr ⟨hphase,rfl⟩,rfl⟩

theorem onCopy_abort : onCopy (abort attemptId outcome) attempts = .ok changed ↔
      ∃ attempt, ClosesAttempt (.abortBeforeDispatch root reservationId attemptId outcome) attempts
          attempt ∧
        changed = (attempt.closed outcome,attempts.put attemptId (attempt.closed outcome)) := by
  unfold abort
  rw [onCopy_mutate]
  constructor
  · rintro ⟨attempt,record,hget,habort,rfl⟩
    obtain ⟨hphase,houtcome,rfl⟩ := abort_eq_ok.mp habort
    refine ⟨attempt,⟨hget,hphase,?_⟩,rfl⟩
    rintro _ _ _ ⟨⟩
    exact houtcome rfl
  · rintro ⟨attempt,⟨hget,hphase,houtcome⟩,rfl⟩
    have hfailed : outcome ≠ .succeeded := by
      rintro rfl
      exact houtcome _ _ _ rfl
    exact ⟨attempt,_,hget,abort_eq_ok.mpr ⟨hphase,hfailed,rfl⟩,rfl⟩

theorem onCopy_onLedger {rootExecutionId : String} {call : LedgerCall}
    {f : RootBudgetLedger → Except BudgetLedgerError BudgetReservationRecord}
    {g : RootBudgetLedger → BudgetReservationRecord → RootBudgetLedger}
    (hperform : call.perform = checked f g) {changed : RootBudgetLedger × ExecutionResourceState} :
    onCopy (onLedger rootExecutionId call) resources = .ok changed ↔
      ∃ ledger record, resources.ledgers.get? rootExecutionId = some ledger ∧
        f ledger = .ok record ∧
        changed = (g ledger record,resources.putLedger rootExecutionId (g ledger record)) := by
  unfold onCopy onLedger
  cases resources.ledgers.get? rootExecutionId with
  | none => simp
  | some ledger =>
    simp only [hperform, checked_eq]
    cases hf : f ledger with
    | error error => simp [hf]
    | ok record => simp [hf, eq_comm]

/-- Reading, working on a copy and encoding it succeed when each does. -/
theorem changed_eq_ok {ε σ α : Type} {read : Except String Unit}
    {encode : σ → Except String Unit} {x : EStateM ε σ α} {describe : ε → StepFailure} {s : σ}
    {changed : α × σ} :
    (do
      read.mapError StepFailure.message
      let changed ← (onCopy x s).mapError describe
      (encode changed.2).mapError StepFailure.message
      return changed) = Except.ok changed ↔
      read = .ok () ∧ onCopy x s = .ok changed ∧ encode changed.2 = .ok () := by
  simp only [bind_eq_ok, mapError_eq_ok]
  constructor
  · rintro ⟨⟨⟩,hread,found,hfound,⟨⟩,hencode,hreturn⟩
    cases hreturn
    exact ⟨hread,hfound,hencode⟩
  · rintro ⟨hread,hfound,hencode⟩
    exact ⟨(),hread,changed,hfound,(),hencode,rfl⟩

theorem changedAttempts_eq_ok {x : AttemptM Plan Route (StepAttemptRecord Plan Route)} :
    changedAttempts store x attempts = .ok changed ↔
      store.readAttempts = .ok () ∧ onCopy x attempts = .ok changed ∧
        store.encodeAttempts changed.2 = .ok () := changed_eq_ok

/-- A reservation that the command names is closed on a copy of the resources. -/
theorem changedResources_eq_ok (binding : TaskReservationBinding)
    (hnamed : command.reservation = some binding) {call : LedgerCall}
    {f : RootBudgetLedger → Except BudgetLedgerError BudgetReservationRecord}
    (hcloses : ∀ ledger record, f ledger = .ok record ↔
      command.Closes ledger binding.reservationId record)
    (hperform : call.perform = checked f fun ledger record =>
      ledger.put { record with state := command.reservationState } binding.reservationId)
    {text : String} {next : ExecutionResourceState} :
    (∃ ledger, changedResources store text (onLedger binding.rootExecutionId call) resources =
        .ok (ledger,next)) ↔
      (store.readResources = .ok () ∧ store.encodeResources next = .ok ()) ∧
        ClosesReservation command resources next := by
  unfold changedResources
  simp only [changed_eq_ok, onCopy_onLedger hperform, hcloses]
  constructor
  · rintro ⟨_,hread,⟨ledger,record,hfound,hcloses,⟨⟩⟩,hencode⟩
    exact ⟨⟨hread,hencode⟩,.named hnamed hfound hcloses⟩
  · rintro ⟨⟨hread,hencode⟩,hclosed⟩
    cases hclosed with
    | unnamed h => cases h.symm.trans hnamed
    | named h found closes =>
      cases h.symm.trans hnamed
      exact ⟨_,hread,⟨_,_,found,closes,rfl⟩,hencode⟩

theorem settledResources_eq_ok {next : ExecutionResourceState} :
    (∃ ledger, changedResources store "root budget settlement failed: "
        (settleReservation root id actual) resources = .ok (ledger,next)) ↔
      (store.readResources = .ok () ∧ store.encodeResources next = .ok ()) ∧
        ClosesReservation (.settle root id actual attemptId outcome) resources next :=
  changedResources_eq_ok ⟨root,id⟩ rfl (fun _ _ => Iff.rfl) rfl

theorem releasedResources_eq_ok {next : ExecutionResourceState} :
    (∃ ledger, changedResources store "root budget release failed: "
        (releaseReservation root id) resources = .ok (ledger,next)) ↔
      (store.readResources = .ok () ∧ store.encodeResources next = .ok ()) ∧
        ClosesReservation (.abortBeforeDispatch root (some id) attemptId outcome) resources next :=
  changedResources_eq_ok ⟨root,id⟩ rfl (fun _ _ => Iff.rfl) rfl

/-- A command is committed exactly when it closes an attempt and the reservation that it names. -/
theorem committed_eq_ok : (∃ response, committed store before command = .ok (response,next)) ↔
    ∃ attempt, ClosesStep store command before next attempt := by
  obtain ⟨resources,attempts⟩ := next
  rcases command with ⟨root,id,actual,attemptId,outcome⟩ | ⟨root,_ | id,attemptId,outcome⟩
  · unfold committed
    simp only [bind_eq_ok, mapError_eq_ok, changedAttempts_eq_ok]
    constructor
    · rintro ⟨_,⟨ledger,_⟩,hresources,⟨_,_⟩,⟨hread,hattempts,hencode⟩,⟨⟩,hcommit,⟨⟩⟩
      obtain ⟨hstore,hclosed⟩ := settledResources_eq_ok.mp ⟨ledger,hresources⟩
      obtain ⟨attempt,hcloses,⟨⟩⟩ := onCopy_settle.mp hattempts
      exact ⟨attempt,hcloses,rfl,hclosed,⟨hread,hencode⟩,fun _ => hstore,hcommit⟩
    · rintro ⟨attempt,hcloses,⟨⟩,hclosed,haccepts⟩
      obtain ⟨_,hledger⟩ := settledResources_eq_ok.mpr ⟨haccepts.resources nofun,hclosed⟩
      exact ⟨_,_,hledger,_,⟨haccepts.attempts.1,onCopy_settle.mpr ⟨attempt,hcloses,rfl⟩,
        haccepts.attempts.2⟩,(),haccepts.commit,rfl⟩
  · unfold committed
    simp only [bind_eq_ok, mapError_eq_ok, changedAttempts_eq_ok]
    constructor
    · rintro ⟨_,⟨_,_⟩,⟨hread,hattempts,hencode⟩,⟨⟩,hcommit,⟨⟩⟩
      obtain ⟨attempt,hcloses,⟨⟩⟩ := onCopy_abort.mp hattempts
      exact ⟨attempt,hcloses,rfl,.unnamed rfl,⟨hread,hencode⟩,fun h => absurd rfl h,hcommit⟩
    · rintro ⟨attempt,hcloses,⟨⟩,hclosed,haccepts⟩
      cases hclosed with
      | unnamed =>
        exact ⟨_,_,⟨haccepts.attempts.1,onCopy_abort.mpr ⟨attempt,hcloses,rfl⟩,
          haccepts.attempts.2⟩,(),haccepts.commit,rfl⟩
      | named h => cases h
  · unfold committed
    simp only [bind_eq_ok, mapError_eq_ok, changedAttempts_eq_ok]
    constructor
    · rintro ⟨_,⟨_,_⟩,⟨hread,hattempts,hencode⟩,⟨ledger,_⟩,hresources,⟨⟩,hcommit,⟨⟩⟩
      obtain ⟨hstore,hclosed⟩ := releasedResources_eq_ok.mp ⟨ledger,hresources⟩
      obtain ⟨attempt,hcloses,⟨⟩⟩ := onCopy_abort.mp hattempts
      exact ⟨attempt,hcloses,rfl,hclosed,⟨hread,hencode⟩,fun _ => hstore,hcommit⟩
    · rintro ⟨attempt,hcloses,⟨⟩,hclosed,haccepts⟩
      obtain ⟨_,hledger⟩ := releasedResources_eq_ok.mpr ⟨haccepts.resources nofun,hclosed⟩
      exact ⟨_,_,⟨haccepts.attempts.1,onCopy_abort.mpr ⟨attempt,hcloses,rfl⟩,
        haccepts.attempts.2⟩,_,hledger,(),haccepts.commit,rfl⟩

theorem handle_eq : handle store command before = match committed store before command with
    | .ok (response,next) => .ok response next
    | .error failure => .error failure before := by
  simp only [handle, stateful_bind, stateful_get]
  cases committed store before command <;> rfl

theorem StepTransactionCommand.Closes.get {ledger : RootBudgetLedger} {reservationId : String}
    {record : BudgetReservationRecord} (h : command.Closes ledger reservationId record) :
    ledger.reservations.get? reservationId = some record ∧ record.state = .reserved := by
  cases command with
  | settle => exact RootBudgetLedger.get?_of_settleable h
  | abortBeforeDispatch =>
    obtain ⟨hget,hstate,-⟩ := RootBudgetLedger.closable_eq_ok.mp h
    exact ⟨hget,hstate⟩

/-- The reservation that the command names is the only one that changes. -/
theorem ClosesReservation.reservationAt {next : ExecutionResourceState}
    (h : ClosesReservation command resources next) :
    (∀ binding, command.reservation ≠ some binding →
      next.reservationAt binding = resources.reservationAt binding) ∧
    ∀ binding, command.reservation = some binding → ∃ record,
      resources.reservationAt binding = some record ∧ record.state = .reserved ∧
        next.reservationAt binding = some { record with state := command.reservationState } := by
  cases h with
  | unnamed h =>
    refine ⟨fun _ _ => rfl,fun binding hnamed => ?_⟩
    cases h.symm.trans hnamed
  | @named named ledger record h found closes =>
    obtain ⟨hget,hstate⟩ := closes.get
    constructor
    · intro binding hother
      refine (ExecutionResourceState.reservationAt_put found _ _ _ _).trans (if_neg ?_)
      rintro rfl
      exact hother h
    · intro binding hnamed
      cases h.symm.trans hnamed
      exact ⟨record,(ExecutionResourceState.reservationAt_of_get found).trans hget,hstate,
        (ExecutionResourceState.reservationAt_put found _ _ _ _).trans (if_pos rfl)⟩

/-- A command that names what the attempt is bound to closes the two together. -/
theorem ClosesStep.closedTogether (h : ClosesStep store command before next attempt)
    (hbound : attempt.reservation = command.reservation) :
    ClosedTogether command before next attempt where
  found := h.closes.found
  phase := h.closes.phase
  settled := by
    rw [h.attempts]
    exact BTreeMap.get?_insert_self _ _ _
  attempts other hother := by
    rw [h.attempts]
    exact BTreeMap.get?_insert_of_ne _ _ hother
  reservation binding hbinding := h.resources.reservationAt.2 binding (hbound ▸ hbinding)
  reservations binding hbinding := h.resources.reservationAt.1 binding (hbound ▸ hbinding)

/-- A command that closes the two together names what the attempt is bound to. -/
theorem ClosesStep.bound {closed : StepAttemptRecord Plan Route}
    (h : ClosesStep store command before next attempt)
    (htogether : ClosedTogether command before next closed) :
    attempt.reservation = command.reservation := by
  cases htogether.found.symm.trans h.closes.found
  obtain ⟨hother,hnamed⟩ := h.resources.reservationAt
  have hopen : command.reservationState ≠ .reserved := by
    cases command <;> exact nofun
  cases hcommand : command.reservation with
  | none =>
    cases hbinding : attempt.reservation with
    | none => rfl
    | some binding =>
      obtain ⟨record,hrecord,hstate,hclosed⟩ := htogether.reservation binding hbinding
      have hsame := hother binding (by rw [hcommand]; exact nofun)
      have heq := Option.some.inj ((hclosed.symm.trans hsame).trans hrecord)
      exact absurd (congrArg (·.state) heq |>.trans hstate) hopen
  | some binding =>
    by_contra hne
    obtain ⟨record,hrecord,hstate,hclosed⟩ := hnamed binding hcommand
    have hsame := htogether.reservations binding hne
    have heq := Option.some.inj ((hclosed.symm.trans hsame).trans hrecord)
    exact absurd (congrArg (·.state) heq |>.trans hstate) hopen

end Inversion

theorem exactlyCloses_iff (store : StepStore Plan Route) (command : StepTransactionCommand)
    (before : StepState Plan Route) :
    ExactlyCloses command before (handle store command before) ↔
      ∀ next attempt, ClosesStep store command before next attempt →
        attempt.reservation = command.reservation := by
  rw [handle_eq]
  constructor
  · intro h next attempt hcloses
    obtain ⟨response,hcommitted⟩ := committed_eq_ok.mpr ⟨attempt,hcloses⟩
    rw [hcommitted] at h
    obtain ⟨closed,htogether⟩ := h
    exact hcloses.bound htogether
  · intro h
    cases hcommitted : committed store before command with
    | error failure => rfl
    | ok committed =>
      obtain ⟨response,next⟩ := committed
      obtain ⟨attempt,hcloses⟩ := committed_eq_ok.mp ⟨response,hcommitted⟩
      exact ⟨attempt,hcloses.closedTogether (h next attempt hcloses)⟩

/-- Two reservations of one root, and an attempt that has been dispatched on the first. -/
def dispatched : StepState Unit Unit where
  resources :=
    { ExecutionResourceState.empty with
      ledgers := BTreeMap.empty.insert "root"
        (((RootBudgetLedger.new "root" ⟨100,100,none,2⟩).put
          ⟨⟨"first",none,"policy-1",.rootStep,⟨10,10,none⟩,1⟩,.reserved⟩ "first").put
          ⟨⟨"second",none,"policy-1",.rootStep,⟨10,10,none⟩,1⟩,.reserved⟩ "second") }
  attempts := AttemptLedger.put ⟨1,.empty⟩ "attempt-1"
    ⟨⟨"root","execution","attempt-1",none,"policy-1",.root,none⟩,(),.dispatched,some "first",
      some (),some ⟨1,1⟩,some "dispatch",none⟩

def steady : StepStore Unit Unit := ⟨.ok (),fun _ => .ok (),.ok (),fun _ => .ok (),.ok ()⟩

/-- The attempt is settled with the reservation of another one. -/
def misdirected : StepTransactionCommand :=
  .settle "root" "second" ⟨5,5,none,1⟩ "attempt-1" .succeeded

theorem settled_elsewhere :
    ¬ ExactlyCloses misdirected dispatched (handle steady misdirected dispatched) := by
  intro h
  have hafter : ((after (handle steady misdirected) dispatched).resources.reservationAt
      ⟨"root","first"⟩).map (·.state) = some .reserved := by decide +kernel
  have hattempt : ((after (handle steady misdirected)
      dispatched).attempts.attempts.get? "attempt-1").map (·.phase) = some .settled := by
    decide +kernel
  have hbefore : (dispatched.attempts.attempts.get? "attempt-1").map (·.phase) =
      some .dispatched := by decide +kernel
  have hbound : (dispatched.attempts.attempts.get? "attempt-1").bind (·.reservation) =
      some ⟨"root","first"⟩ := by decide +kernel
  unfold after at hafter hattempt
  cases hresult : handle steady misdirected dispatched with
  | error failure next =>
    rw [hresult] at h hattempt
    cases h
    cases hattempt.symm.trans hbefore
  | ok response next =>
    rw [hresult] at h hafter
    obtain ⟨attempt,htogether⟩ := h
    obtain ⟨found,hfound,hreservation⟩ := Option.bind_eq_some_iff.mp hbound
    have hget : dispatched.attempts.attempts.get? "attempt-1" = some attempt := htogether.found
    cases hget.symm.trans hfound
    obtain ⟨record,-,-,hclosed⟩ := htogether.reservation _ hreservation
    rw [hclosed] at hafter
    cases hafter

end PhenixConductor.Execution
