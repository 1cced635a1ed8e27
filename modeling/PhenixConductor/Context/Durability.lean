import PhenixConductor.Context.Plugin

/-! # Memory and store

The projections in memory are those of the stored snapshot, before and after every command.
-/
namespace PhenixConductor.Context
open Collections Harness ContextStateService
open Persistence (Records transactRecords)

/-- What is encoded is decoded again, a snapshot if it is not too large. -/
structure ContextCodec.Lawful (codec : ContextCodec) : Prop where
  state : ∀ service bytes, codec.encodeState service = .ok bytes →
    bytes.length ≤ maxContextProjectionStateBytes → codec.decodeState bytes = .ok service
  injections : ∀ injections bytes, codec.encodeInjections injections = .ok bytes →
    codec.decodeInjections bytes = .ok injections

namespace ContextPlugin

/-- Memory and store hold the same projections. -/
def Agrees (codec : ContextCodec) (plugin : ContextPlugin) : Prop :=
  restore codec (plugin.records contextProjectionStateKey) = .ok plugin.state

/-- Nothing changed but the turns of the host. -/
structure Same (plugin next : ContextPlugin) : Prop where
  state : next.state = plugin.state
  records : next.records = plugin.records
  committed : next.committed = plugin.committed

instance same_refl : Std.Refl Same := ⟨fun _ => ⟨rfl,rfl,rfl⟩⟩

instance same_trans : IsTrans ContextPlugin Same :=
  ⟨fun _ _ _ h h' => ⟨h'.state.trans h.state,h'.records.trans h.records,
    h'.committed.trans h.committed⟩⟩

theorem Same.agrees {codec : ContextCodec} {plugin next : ContextPlugin} (h : plugin.Same next)
    (hagrees : plugin.Agrees codec) : next.Agrees codec := by
  rw [Agrees, h.records, h.state]
  exact hagrees

/-- One transaction was committed in between. -/
def Commits (plugin next : ContextPlugin) : Prop :=
  ∃ operations, next.committed = plugin.committed ++ [operations] ∧
    transactRecords plugin.records operations = .ok next.records

end ContextPlugin
open ContextPlugin

variable {codec : ContextCodec} {plugin next : ContextPlugin}

theorem moves_nextTurn : Moves Same nextTurn := fun _ => ⟨rfl,rfl,rfl⟩

theorem moves_readRaw (key : String) : Moves Same (readRaw key) :=
  moves_nextTurn.bind fun _ => moves_get.bind fun _ => moves_check _

theorem readRaw_eq_ok {key : String} {value : Option (List UInt8)}
    (h : readRaw key plugin = .ok value next) :
    plugin.Same next ∧ value = plugin.records key := by
  refine ⟨(moves_readRaw key).ok h,?_⟩
  obtain ⟨turn,after,hturn,h⟩ := stateful_bind_eq_ok.mp h
  obtain ⟨-,-,⟨⟩,h⟩ := stateful_bind_eq_ok.mp h
  obtain ⟨hvalue,-⟩ := check_eq_ok.mp h
  unfold readable at hvalue
  cases hfailure : (plugin.turns 0).failure with
  | some error => simp [hfailure] at hvalue
  | none =>
    simp only [hfailure, Except.ok.injEq] at hvalue
    exact hvalue.symm

theorem moves_requireActiveExecution (executionId : String) :
    Moves Same (requireActiveExecution executionId) :=
  moves_nextTurn.bind fun _ => moves_check _

theorem failsAlong_transactDurable (operations : List TransactionOp) :
    FailsAlong Same (transactDurable operations) :=
  FailsAlong.bind moves_nextTurn fun _ => failsAlong_checked _ _

/-- A transaction that goes through changes the records as it says, and nothing else. -/
theorem transactDurable_eq_ok {operations : List TransactionOp}
    (h : transactDurable operations plugin = .ok () next) :
    next.state = plugin.state ∧ next.committed = plugin.committed ++ [operations] ∧
      transactRecords plugin.records operations = .ok next.records := by
  obtain ⟨turn,middle,hturn,h⟩ := stateful_bind_eq_ok.mp h
  cases hturn
  rw [checked_eq] at h
  unfold transacted at h
  cases hfailure : (plugin.turns 0).failure with
  | some error => simp [hfailure] at h
  | none =>
    cases hrecords : transactRecords plugin.records operations with
    | error key => simp [hfailure, hrecords, Except.mapError] at h
    | ok records =>
      simp only [hfailure, hrecords, Except.mapError, EStateM.Result.ok.injEq, true_and] at h
      subst h
      exact ⟨rfl,rfl,rfl⟩

/-- Nothing changed but the memory and the turns of the host. -/
structure OnlyMemory (plugin next : ContextPlugin) : Prop where
  records : next.records = plugin.records
  committed : next.committed = plugin.committed

instance onlyMemory_refl : Std.Refl OnlyMemory := ⟨fun _ => ⟨rfl,rfl⟩⟩

instance onlyMemory_trans : IsTrans ContextPlugin OnlyMemory :=
  ⟨fun _ _ _ h h' => ⟨h'.records.trans h.records,h'.committed.trans h.committed⟩⟩

theorem ContextPlugin.Same.onlyMemory (h : plugin.Same next) : OnlyMemory plugin next :=
  ⟨h.records,h.committed⟩

theorem moves_onMemory {α : Type} (x : ServiceM α) : Moves OnlyMemory (onMemory x) := by
  intro plugin
  unfold after onMemory
  cases x plugin.state <;> exact ⟨rfl,rfl⟩

theorem moves_takeSnapshot : Moves OnlyMemory (takeSnapshot codec) :=
  moves_get.bind fun _ => moves_check _

variable {bytes : List UInt8}

theorem takeSnapshot_eq_ok (h : takeSnapshot codec plugin = .ok bytes next) :
    plugin.state.snapshot codec = .ok bytes ∧ next = plugin := by
  obtain ⟨hsnapshot,rfl⟩ := check_eq_ok.mp h
  exact ⟨mapError_eq_ok.mp hsnapshot,rfl⟩

section Recovery
variable {middle : ContextPlugin} {α : Type} {x : PluginM α}

/-- The memory goes back to what it agreed with. -/
theorem rollback_eq (hagrees : plugin.Agrees codec) (failure : ContextFailure) :
    rollback (α := α) codec (plugin.records contextProjectionStateKey) failure middle =
      .error failure { middle with state := plugin.state } := by
  rw [rollback, hagrees]
  rfl

/-- A failure that is recovered from leaves no trace. -/
theorem recovered_eq_error {failure : ContextFailure} (hagrees : plugin.Agrees codec)
    (hmiddle : OnlyMemory plugin middle) (hx : FailsAlong OnlyMemory x)
    (h : tryCatch x (rollback codec (plugin.records contextProjectionStateKey)) middle =
      .error failure next) : plugin.Same next := by
  cases hresult : x middle with
  | ok a reached =>
    rw [tryCatch_of_ok hresult] at h
    cases h
  | error cause reached =>
    rw [tryCatch_of_error hresult, rollback_eq hagrees] at h
    cases h
    have hreached := hx _ _ _ hresult
    exact ⟨rfl,hreached.records.trans hmiddle.records,hreached.committed.trans hmiddle.committed⟩

theorem recovered_eq_ok {a : α} (hagrees : plugin.Agrees codec)
    (h : tryCatch x (rollback codec (plugin.records contextProjectionStateKey)) middle =
      .ok a next) : x middle = .ok a next := by
  cases hresult : x middle with
  | ok b reached =>
    rw [tryCatch_of_ok hresult] at h
    exact h
  | error cause reached =>
    rw [tryCatch_of_error hresult, rollback_eq hagrees] at h
    cases h

end Recovery

/-- A snapshot that can be taken restores the memory. -/
theorem restore_snapshot (hcodec : codec.Lawful) {service : ContextStateService}
    (h : service.snapshot codec = .ok bytes) : restore codec (some bytes) = .ok service := by
  obtain ⟨encoded,hencoded,h⟩ := bind_eq_ok.mp h
  obtain ⟨hsize,h⟩ := seq_eq_ok.mp h
  cases h
  have hlength : bytes.length ≤ maxContextProjectionStateBytes := by
    unfold requireSize at hsize
    split_ifs at hsize with hlt
    exact not_lt.mp hlt
  rw [restore, hsize,
    hcodec.state service bytes (mapError_eq_ok.mp hencoded) hlength]
  rfl

/-- The stored snapshot was replaced. -/
theorem transactRecords_replaceSnapshot {records stored : Records} {previous : Option (List UInt8)}
    (h : transactRecords records (replaceSnapshot previous bytes) = .ok stored) :
    stored = Function.update records contextProjectionStateKey (some bytes) := by
  obtain ⟨-,rfl⟩ := MapOp.commit_eq_ok.mp h
  rfl

/-- Memory and store are persisted together, or are what they were before the command. -/
theorem persistState_spec (hcodec : codec.Lawful) {middle : ContextPlugin}
    (hagrees : plugin.Agrees codec) (hmiddle : OnlyMemory plugin middle) :
    (∀ failure next, persistState codec (plugin.records contextProjectionStateKey) middle =
      .error failure next → plugin.Same next) ∧
    ∀ next, persistState codec (plugin.records contextProjectionStateKey) middle = .ok () next →
      next.Agrees codec := by
  have htake : FailsAlong OnlyMemory (takeSnapshot codec) := moves_takeSnapshot.failsAlong
  have htransact : ∀ operations, FailsAlong OnlyMemory (transactDurable operations) :=
    fun operations start failure stop h =>
      (failsAlong_transactDurable operations start failure stop h).onlyMemory
  unfold persistState
  constructor
  · intro failure next h
    rw [stateful_bind] at h
    cases hnext : tryCatch (takeSnapshot codec)
        (rollback codec (plugin.records contextProjectionStateKey)) middle with
    | error cause reached =>
      rw [hnext] at h
      cases h
      exact recovered_eq_error hagrees hmiddle htake hnext
    | ok bytes reached =>
      rw [hnext] at h
      have hreached := moves_takeSnapshot.ok (recovered_eq_ok hagrees hnext)
      exact recovered_eq_error hagrees (IsTrans.trans _ _ _ hmiddle hreached) (htransact _) h
  · intro next h
    obtain ⟨bytes,reached,hnext,hcommit⟩ := stateful_bind_eq_ok.mp h
    obtain ⟨hsnapshot,rfl⟩ := takeSnapshot_eq_ok (recovered_eq_ok hagrees hnext)
    obtain ⟨hstate,-,hrecords⟩ := transactDurable_eq_ok (recovered_eq_ok hagrees hcommit)
    rw [ContextPlugin.Agrees, hstate, transactRecords_replaceSnapshot hrecords]
    exact restore_snapshot hcodec hsnapshot

/-- What a command leaves: memory and store agree, and a failure leaves no trace. -/
structure Settles (codec : ContextCodec) {α : Type} (x : PluginM α) (plugin : ContextPlugin) :
    Prop where
  error : ∀ failure next, x plugin = .error failure next → plugin.Same next
  ok : ∀ a next, x plugin = .ok a next → next.Agrees codec

theorem Moves.settles {α : Type} {x : PluginM α} (hx : Moves Same x)
    (hagrees : plugin.Agrees codec) : Settles codec x plugin where
  error failure next h := hx.failsAlong plugin failure next h
  ok _ _ h := (hx.ok h).agrees hagrees

/-- What comes before a command and only reads does not matter. -/
theorem Settles.after_reads {α β : Type} {x : PluginM α} {f : α → PluginM β} (hx : Moves Same x)
    (hf : ∀ a next, x plugin = .ok a next → plugin.Same next → Settles codec (f a) next) :
    Settles codec (x >>= f) plugin where
  error failure next h := by
    rw [stateful_bind] at h
    cases hresult : x plugin with
    | error cause reached =>
      rw [hresult] at h
      cases h
      exact hx.failsAlong _ _ _ hresult
    | ok a reached =>
      rw [hresult] at h
      have hreached := hx.ok hresult
      exact IsTrans.trans _ _ _ hreached ((hf a reached hresult hreached).error failure next h)
  ok b next h := by
    obtain ⟨a,reached,hresult,h⟩ := stateful_bind_eq_ok.mp h
    exact (hf a reached hresult (hx.ok hresult)).ok b next h

/-- A command of the service, recovered from, and then made durable. -/
theorem settles_recovered (hcodec : codec.Lawful) (hagrees : plugin.Agrees codec)
    (x : ServiceM ContextResponse) :
    Settles codec (do
      let response ← tryCatch (onMemory x)
        (rollback codec (plugin.records contextProjectionStateKey))
      persistState codec (plugin.records contextProjectionStateKey)
      return response) plugin := by
  constructor
  · intro failure next h
    rw [stateful_bind] at h
    cases hresult : tryCatch (onMemory x)
        (rollback codec (plugin.records contextProjectionStateKey)) plugin with
    | error cause reached =>
      rw [hresult] at h
      cases h
      exact recovered_eq_error hagrees (Std.Refl.refl plugin) (moves_onMemory x).failsAlong hresult
    | ok response reached =>
      rw [hresult] at h
      have hreached := (moves_onMemory x).ok (recovered_eq_ok hagrees hresult)
      simp only [stateful_bind] at h
      cases hpersist : persistState codec (plugin.records contextProjectionStateKey) reached with
      | error cause persisted =>
        rw [hpersist] at h
        cases h
        exact (persistState_spec hcodec hagrees hreached).1 _ _ hpersist
      | ok done persisted =>
        rw [hpersist] at h
        cases h
  · intro response next h
    obtain ⟨_,reached,hresult,h⟩ := stateful_bind_eq_ok.mp h
    have hreached := (moves_onMemory x).ok (recovered_eq_ok hagrees hresult)
    obtain ⟨_,persisted,hpersist,h⟩ := stateful_bind_eq_ok.mp h
    cases h
    exact (persistState_spec hcodec hagrees hreached).2 _ hpersist

theorem changeState_settles (hcodec : codec.Lawful) (hagrees : plugin.Agrees codec)
    (command : ContextCommand) : Settles codec (changeState codec command) plugin := by
  refine Settles.after_reads (moves_readRaw _) fun previous reached hread hreached => ?_
  obtain ⟨-,rfl⟩ := readRaw_eq_ok hread
  have hstored : plugin.records contextProjectionStateKey =
      reached.records contextProjectionStateKey := by rw [hreached.records]
  rw [hstored]
  cases command.onState with
  | some x => exact settles_recovered hcodec (hreached.agrees hagrees) x
  | none =>
    refine ⟨fun failure next h => ?_,fun response next h => ?_⟩ <;> cases h
    exact Std.Refl.refl reached

theorem handleStateCommand_settles (hcodec : codec.Lawful) (hagrees : plugin.Agrees codec)
    (command : ContextCommand) : Settles codec (handleStateCommand codec command) plugin := by
  cases command with
  | getProjectionState executionId =>
    exact Moves.settles (fun _ => ⟨rfl,rfl,rfl⟩) hagrees
  | admission request => exact changeState_settles hcodec hagrees (.admission request)
  | prepareCompaction proposal =>
    exact changeState_settles hcodec hagrees (.prepareCompaction proposal)
  | commitCompaction executionId checkpointId =>
    exact changeState_settles hcodec hagrees (.commitCompaction executionId checkpointId)
  | invalidateProjection executionId =>
    exact changeState_settles hcodec hagrees (.invalidateProjection executionId)
  | load executionId resourceId revision requester lifetime reason =>
    exact changeState_settles hcodec hagrees
      (.load executionId resourceId revision requester lifetime reason)

end PhenixConductor.Context
