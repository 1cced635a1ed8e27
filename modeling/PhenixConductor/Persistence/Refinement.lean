import PhenixConductor.Collections.Runs
import PhenixConductor.Harness.Resolver

/-! # The local store

The store keeps the owner and version of every registered namespace, and the records of the
namespaces, in two tables of a database.
-/
namespace PhenixConductor.Persistence
open Collections Contract Harness

structure NamespaceTransaction where
  owner : PluginId
  namespc : ResourceNamespace
  operations : List TransactionOp

inductive PersistenceError where
  | sql (error : String)
  | namespaceCollision (namespc : ResourceNamespace) (owner : PluginId)
  | incompatibleSchema (namespc : ResourceNamespace) (stored requested : ℕ)
  | missingMigration (namespc : ResourceNamespace) (fromVersion toVersion : ℕ)
  | unsupportedFeature (namespc : ResourceNamespace) (feature : BackendFeature)
  | unregisteredNamespace (namespc : ResourceNamespace)
  | wrongNamespaceOwner (namespc : ResourceNamespace) (owner caller : PluginId)
  | assertionFailed (namespc : ResourceNamespace) (key : String)

/-- A row of `kernel_plugin_schemas`. -/
structure SchemaRow where
  owner : PluginId
  version : ℕ

/-- The primary key of `kernel_plugin_records`. -/
abbrev RecordKey := ResourceNamespace ×ₗ String

/-- The tables with their constraints: versions are positive, and records belong to registered
namespaces. -/
structure LocalPersistence where
  schemas : BTreeMap ResourceNamespace SchemaRow
  records : BTreeMap RecordKey (List UInt8)
  positive : ∀ namespc row, schemas.get? namespc = some row → 0 < row.version
  referenced : ∀ key ∈ records.keys, (ofLex key).1 ∈ schemas.keys

/-- The failure of the n-th statement of a call, if it fails by itself. -/
abbrev SqlFailures := ℕ → Option String

def statement {α : Type} (sql : SqlFailures) (n : ℕ) (result : Except PersistenceError α) :
    Except PersistenceError α :=
  match sql n with
  | some error => .error (.sql error)
  | none => result

theorem statement_eq_ok {α : Type} {sql : SqlFailures} {n : ℕ} {result : Except PersistenceError α}
    {a : α} : statement sql n result = .ok a ↔ sql n = none ∧ result = .ok a := by
  unfold statement
  cases sql n <;> simp

namespace LocalPersistence
variable (self : LocalPersistence)

def requireOwner (sql : SqlFailures) (n : ℕ) (caller : PluginId) (namespc : ResourceNamespace) :
    Except PersistenceError Unit :=
  statement sql n <| match self.schemas.get? namespc with
    | none => .error (.unregisteredNamespace namespc)
    | some row =>
      if row.owner = caller then .ok ()
      else .error (.wrongNamespaceOwner namespc row.owner caller)

def putRecord (namespc : ResourceNamespace) (key : String) (value : List UInt8) :
    Except PersistenceError LocalPersistence :=
  if h : namespc ∈ self.schemas.keys then
    .ok { self with
      records := self.records.insert (toLex (namespc,key)) value
      referenced := fun k hk => by
        rcases (BTreeMap.mem_keys_insert _ _).mp hk with rfl | hk
        · exact h
        · exact self.referenced k hk }
  else .error (.sql "FOREIGN KEY constraint failed")

def deleteRecord (namespc : ResourceNamespace) (key : String) : LocalPersistence :=
  { self with
    records := self.records.erase (toLex (namespc,key))
    referenced := fun k hk => self.referenced k (List.mem_of_mem_filter hk) }

/-- One turn of the loop of `apply_operations`. -/
def applyOperation (sql : SqlFailures) (namespc : ResourceNamespace) (n : ℕ) :
    TransactionOp → Except PersistenceError LocalPersistence
  | .put key value => statement sql n (self.putRecord namespc key value)
  | .delete key => statement sql n (.ok (self.deleteRecord namespc key))
  | .assertValue key expected => do
    let actual ← statement sql n (.ok (self.records.get? (toLex (namespc,key))))
    if actual ≠ expected then throw (.assertionFailed namespc key)
    return self

def applyOperations (sql : SqlFailures) (namespc : ResourceNamespace) :
    ℕ → LocalPersistence → List TransactionOp → Except PersistenceError LocalPersistence
  | _, store, [] => .ok store
  | n, store, operation :: operations => do
    let next ← store.applyOperation sql namespc n operation
    applyOperations sql namespc (n + 1) next operations

/-- The first loop of `transact_many`. -/
def requireOwners (sql : SqlFailures) : ℕ → List NamespaceTransaction → Except PersistenceError Unit
  | _, [] => .ok ()
  | n, participant :: participants => do
    self.requireOwner sql n participant.owner participant.namespc
    requireOwners sql (n + 1) participants

/-- The second loop of `transact_many`. -/
def applyParticipants (sql : SqlFailures) :
    ℕ → LocalPersistence → List NamespaceTransaction → Except PersistenceError LocalPersistence
  | _, store, [] => .ok store
  | n, store, participant :: participants => do
    let next ← applyOperations sql participant.namespc n store participant.operations
    applyParticipants sql (n + participant.operations.length) next participants

/-- The statements of the operations of a batch. -/
def operationCount (transactions : List NamespaceTransaction) : ℕ :=
  (transactions.map (·.operations.length)).sum

/-- `transact_many` up to the commit, with the beginning of the database transaction. -/
def transaction (sql : SqlFailures) (transactions : List NamespaceTransaction) :
    Except PersistenceError LocalPersistence := do
  let begun := transactions.length
  self.requireOwners sql 0 transactions
  statement sql begun (.ok ())
  let next ← applyParticipants sql (begun + 1) self transactions
  statement sql (begun + 1 + operationCount transactions) (.ok next)

/-- A database transaction that is not committed leaves no trace. -/
def committed (result : Except PersistenceError LocalPersistence) :
    Except PersistenceError Unit × LocalPersistence :=
  match result with
  | .ok next => (.ok (),next)
  | .error error => (.error error,self)

def transactMany (sql : SqlFailures) (transactions : List NamespaceTransaction) :
    Except PersistenceError Unit × LocalPersistence :=
  self.committed (self.transaction sql transactions)

end LocalPersistence
end PhenixConductor.Persistence

/-! ## The local store as a map

A batch of namespace transactions is a batch of operations on the map of all records.
The store accepts it in one piece or leaves no trace of it.
-/
namespace PhenixConductor.Persistence
open Collections Contract Harness

/-- An operation of a namespace as one on the map of all records. -/
def onNamespace (namespc : ResourceNamespace) : TransactionOp → MapOp RecordKey (List UInt8)
  | .put key value => .put (toLex (namespc,key)) value
  | .delete key => .delete (toLex (namespc,key))
  | .assertValue key expected => .assert (toLex (namespc,key)) expected

theorem onNamespace_key (namespc : ResourceNamespace) (operation : TransactionOp) :
    (ofLex (onNamespace namespc operation).key).1 = namespc := by
  cases operation <;> rfl

def NamespaceTransaction.batch (self : NamespaceTransaction) : List (MapOp RecordKey (List UInt8)) :=
  self.operations.map (onNamespace self.namespc)

namespace LocalPersistence
variable {store next : LocalPersistence} {sql : SqlFailures} {namespc : ResourceNamespace} {n : ℕ}

/-- The map of all records. -/
def view (self : LocalPersistence) : RecordKey → Option (List UInt8) := self.records.get?

/-- A store after some operations. -/
structure Follows (store : LocalPersistence) (ops : List (MapOp RecordKey (List UInt8)))
    (next : LocalPersistence) : Prop where
  schemas : next.schemas = store.schemas
  view : next.view = runAll MapOp.write store.view ops

theorem Follows.append {middle : LocalPersistence} {ops later : List (MapOp RecordKey (List UInt8))}
    (h : store.Follows ops middle) (hnext : middle.Follows later next) :
    store.Follows (ops ++ later) next where
  schemas := hnext.schemas.trans h.schemas
  view := by rw [hnext.view, h.view, runAll_append]

theorem putRecord_eq_ok {key : String} {value : List UInt8}
    (h : store.putRecord namespc key value = .ok next) :
    store.Follows [.put (toLex (namespc,key)) value] next := by
  unfold putRecord at h
  split at h
  · cases h
    refine ⟨rfl,?_⟩
    funext k
    change (store.records.insert _ value).get? k = Function.update store.view _ (some value) k
    rw [BTreeMap.get?_insert, Function.update_apply]
    rfl
  · cases h

theorem deleteRecord_follows (store : LocalPersistence) (namespc : ResourceNamespace)
    (key : String) : store.Follows [.delete (toLex (namespc,key))]
      (store.deleteRecord namespc key) := by
  refine ⟨rfl,?_⟩
  funext k
  change (store.records.erase _).get? k = Function.update store.view _ none k
  rw [BTreeMap.get?_erase, Function.update_apply]
  rfl

variable {operation : TransactionOp}

theorem applyOperation_follows (h : store.applyOperation sql namespc n operation = .ok next) :
    store.Follows [onNamespace namespc operation] next := by
  cases operation with
  | put key value => exact putRecord_eq_ok (statement_eq_ok.mp h).2
  | delete key =>
    cases (statement_eq_ok.mp h).2
    exact store.deleteRecord_follows namespc key
  | assertValue key expected =>
    obtain ⟨actual,-,hnext⟩ := bind_eq_ok.mp h
    split_ifs at hnext
    · cases hnext
    · cases hnext
      exact ⟨rfl,rfl⟩

open MapOp (Holds write)
/-- In a registered namespace, an operation goes through if its statement does, and what it asserts
holds. -/
theorem exists_applyOperation_iff (h : namespc ∈ store.schemas.keys) :
    (∃ next, store.applyOperation sql namespc n operation = .ok next) ↔
      sql n = none ∧ (onNamespace namespc operation).Holds store.view := by
  cases operation with
  | put key value =>
    simp only [applyOperation, putRecord, dif_pos h, statement_eq_ok, onNamespace, Holds,
      and_true, exists_and_left, Except.ok.injEq, exists_eq']
  | delete key =>
    simp only [applyOperation, statement_eq_ok, onNamespace, Holds, and_true,
      exists_and_left, Except.ok.injEq, exists_eq']
  | assertValue key expected =>
    change (∃ next, (statement sql n (.ok (store.view (toLex (namespc,key)))) >>= fun actual =>
      if actual ≠ expected then throw (.assertionFailed namespc key) else pure store) =
        Except.ok next) ↔ sql n = none ∧ store.view (toLex (namespc,key)) = expected
    constructor
    · rintro ⟨next,hnext⟩
      obtain ⟨actual,hread,hnext⟩ := bind_eq_ok.mp hnext
      obtain ⟨hsql,hactual⟩ := statement_eq_ok.mp hread
      split_ifs at hnext with hne
      exact ⟨hsql,(Except.ok.inj hactual).trans (not_not.mp hne)⟩
    · rintro ⟨hsql,rfl⟩
      exact ⟨store,bind_eq_ok.mpr ⟨_,statement_eq_ok.mpr ⟨hsql,rfl⟩,if_neg (not_not.mpr rfl)⟩⟩

variable {operations : List TransactionOp}

theorem applyOperations_follows (h : applyOperations sql namespc n store operations = .ok next) :
    store.Follows (operations.map (onNamespace namespc)) next := by
  induction operations generalizing n store with
  | nil =>
    cases h
    exact ⟨rfl,rfl⟩
  | cons operation operations ih =>
    obtain ⟨middle,hmiddle,h⟩ := bind_eq_ok.mp h
    exact (applyOperation_follows hmiddle).append (ih h)

theorem exists_applyOperations_iff (h : namespc ∈ store.schemas.keys) :
    (∃ next, applyOperations sql namespc n store operations = .ok next) ↔
      (∀ i < operations.length, sql (n + i) = none) ∧
        Along write Holds store.view (operations.map (onNamespace namespc)) := by
  induction operations generalizing n store with
  | nil => exact ⟨fun _ => ⟨fun _ hi => absurd hi (Nat.not_lt_zero _),trivial⟩,fun _ => ⟨store,rfl⟩⟩
  | cons operation operations ih =>
    have hsplit : (∀ i < (operation :: operations).length, sql (n + i) = none) ↔
        sql n = none ∧ ∀ i < operations.length, sql (n + 1 + i) = none := by
      constructor
      · exact fun hall => ⟨hall 0 (by simp),fun i hi => by
          rw [Nat.add_assoc, Nat.add_comm 1 i]
          exact hall (i + 1) (by simpa using hi)⟩
      · rintro ⟨hzero,hall⟩ (_ | i) hi
        · exact hzero
        · have := hall i (by simpa using hi)
          rwa [Nat.add_assoc, Nat.add_comm 1 i] at this
    rw [hsplit]
    constructor
    · rintro ⟨next,hnext⟩
      obtain ⟨middle,hmiddle,hnext⟩ := bind_eq_ok.mp hnext
      obtain ⟨hsql,hholds⟩ := (exists_applyOperation_iff h).mp ⟨middle,hmiddle⟩
      have hfollows := applyOperation_follows hmiddle
      obtain ⟨hrest,halong⟩ := (ih (hfollows.schemas ▸ h)).mp ⟨next,hnext⟩
      rw [hfollows.view] at halong
      exact ⟨⟨hsql,hrest⟩,hholds,halong⟩
    · rintro ⟨⟨hsql,hrest⟩,hholds,halong⟩
      obtain ⟨middle,hmiddle⟩ := (exists_applyOperation_iff h).mpr ⟨hsql,hholds⟩
      have hfollows := applyOperation_follows hmiddle
      obtain ⟨next,hnext⟩ := (ih (n := n + 1) (hfollows.schemas ▸ h)).mpr ⟨hrest,by
        rw [hfollows.view]
        exact halong⟩
      exact ⟨next,bind_eq_ok.mpr ⟨middle,hmiddle,hnext⟩⟩

theorem requireOwner_eq_ok {caller : PluginId} :
    store.requireOwner sql n caller namespc = .ok () ↔
      sql n = none ∧ (store.schemas.get? namespc).map (·.owner) = some caller := by
  unfold requireOwner
  rw [statement_eq_ok]
  cases store.schemas.get? namespc with
  | none => simp
  | some row =>
    dsimp only [Option.map_some]
    split_ifs with howner <;> simp [howner]

/-- The numbers of the statements of a part and of the rest. -/
theorem forall_lt_add {sql : SqlFailures} {n a b : ℕ} :
    (∀ i < a + b, sql (n + i) = none) ↔
      (∀ i < a, sql (n + i) = none) ∧ ∀ i < b, sql (n + a + i) = none := by
  constructor
  · intro h
    refine ⟨fun i hi => h i (by omega),fun i hi => ?_⟩
    rw [Nat.add_assoc]
    exact h (a + i) (by omega)
  · rintro ⟨hfirst,hrest⟩ i hi
    by_cases hlt : i < a
    · exact hfirst i hlt
    · have h := hrest (i - a) (by omega)
      rwa [show n + a + (i - a) = n + i by omega] at h

variable {transactions : List NamespaceTransaction}

theorem requireOwners_eq_ok : store.requireOwners sql n transactions = .ok () ↔
      (∀ i < transactions.length, sql (n + i) = none) ∧ ∀ participant ∈ transactions,
        (store.schemas.get? participant.namespc).map (·.owner) = some participant.owner := by
  induction transactions generalizing n with
  | nil => simp [requireOwners]
  | cons participant participants ih =>
    rw [requireOwners, seq_eq_ok, requireOwner_eq_ok, ih, List.length_cons,
      Nat.add_comm participants.length 1, forall_lt_add, List.forall_mem_cons]
    simp only [Nat.lt_one_iff, forall_eq, Nat.add_zero]
    tauto

theorem applyParticipants_follows (h : applyParticipants sql n store transactions = .ok next) :
    store.Follows (transactions.flatMap (·.batch)) next := by
  induction transactions generalizing n store with
  | nil =>
    cases h
    exact ⟨rfl,rfl⟩
  | cons participant participants ih =>
    obtain ⟨middle,hmiddle,h⟩ := bind_eq_ok.mp h
    exact (applyOperations_follows hmiddle).append (ih h)

theorem exists_applyParticipants_iff
    (h : ∀ participant ∈ transactions, participant.namespc ∈ store.schemas.keys) :
    (∃ next, applyParticipants sql n store transactions = .ok next) ↔
      (∀ i < operationCount transactions, sql (n + i) = none) ∧
        Along write Holds store.view (transactions.flatMap (·.batch)) := by
  induction transactions generalizing n store with
  | nil => exact ⟨fun _ => ⟨fun _ hi => absurd hi (Nat.not_lt_zero _),trivial⟩,fun _ => ⟨store,rfl⟩⟩
  | cons participant participants ih =>
    obtain ⟨hfirst,hrest⟩ := List.forall_mem_cons.mp h
    have hcount : operationCount (participant :: participants) =
        participant.operations.length + operationCount participants := rfl
    have hlater : ∀ {middle : LocalPersistence}, store.Follows participant.batch middle →
        ((∃ next, applyParticipants sql (n + participant.operations.length) middle participants =
          .ok next) ↔
          (∀ i < operationCount participants,
            sql (n + participant.operations.length + i) = none) ∧
          Along write Holds (runAll write store.view participant.batch)
            (participants.flatMap (·.batch))) := by
      intro middle hfollows
      rw [← hfollows.view]
      exact ih (hfollows.schemas ▸ hrest)
    rw [hcount, forall_lt_add, List.flatMap_cons, along_append]
    constructor
    · rintro ⟨next,hnext⟩
      obtain ⟨middle,hmiddle,hnext⟩ := bind_eq_ok.mp hnext
      obtain ⟨hsql,halong⟩ := (exists_applyOperations_iff hfirst).mp ⟨middle,hmiddle⟩
      obtain ⟨hsql',halong'⟩ := (hlater (applyOperations_follows hmiddle)).mp ⟨next,hnext⟩
      exact ⟨⟨hsql,hsql'⟩,halong,halong'⟩
    · rintro ⟨⟨hsql,hsql'⟩,halong,halong'⟩
      obtain ⟨middle,hmiddle⟩ := (exists_applyOperations_iff hfirst).mpr ⟨hsql,halong⟩
      obtain ⟨next,hnext⟩ := (hlater (applyOperations_follows hmiddle)).mpr ⟨hsql',halong'⟩
      exact ⟨next,bind_eq_ok.mpr ⟨middle,hmiddle,hnext⟩⟩

/-- The statements of `transact_many`: a query for every owner, the beginning, the operations, and
the commit. -/
def statementCount (transactions : List NamespaceTransaction) : ℕ :=
  transactions.length + (1 + (operationCount transactions + 1))

/-- The stated owners are those of the registered namespaces. -/
def Owns (self : LocalPersistence) (transactions : List NamespaceTransaction) : Prop :=
  ∀ participant ∈ transactions,
    (self.schemas.get? participant.namespc).map (·.owner) = some participant.owner

theorem Owns.mem_keys (h : store.Owns transactions) :
    ∀ participant ∈ transactions, participant.namespc ∈ store.schemas.keys := by
  intro participant hparticipant
  obtain ⟨row,hrow,-⟩ := Option.map_eq_some_iff.mp (h participant hparticipant)
  rw [BTreeMap.mem_keys_iff, hrow]
  rfl

theorem transaction_follows (h : store.transaction sql transactions = .ok next) :
    store.Follows (transactions.flatMap (·.batch)) next := by
  obtain ⟨-,h⟩ := seq_eq_ok.mp h
  obtain ⟨-,h⟩ := seq_eq_ok.mp h
  obtain ⟨applied,happlied,h⟩ := bind_eq_ok.mp h
  cases (statement_eq_ok.mp h).2
  exact applyParticipants_follows happlied

theorem exists_transaction_iff : (∃ next, store.transaction sql transactions = .ok next) ↔
      (∀ i < statementCount transactions, sql i = none) ∧ store.Owns transactions ∧
        Along write Holds store.view (transactions.flatMap (·.batch)) := by
  have hcount : (∀ i < statementCount transactions, sql i = none) ↔
      (∀ i < transactions.length, sql (0 + i) = none) ∧ sql transactions.length = none ∧
        (∀ i < operationCount transactions, sql (transactions.length + 1 + i) = none) ∧
        sql (transactions.length + 1 + operationCount transactions) = none := by
    have h : (∀ i < transactions.length + (1 + (operationCount transactions + 1)),
        sql (0 + i) = none) ↔ _ := forall_lt_add
    simp only [forall_lt_add, Nat.zero_add, Nat.lt_one_iff, forall_eq, Nat.add_zero] at h
    rw [statementCount]
    simpa only [Nat.zero_add] using h
  rw [hcount]
  constructor
  · rintro ⟨next,hnext⟩
    obtain ⟨howners,hnext⟩ := seq_eq_ok.mp hnext
    obtain ⟨hbegin,hnext⟩ := seq_eq_ok.mp hnext
    obtain ⟨applied,happlied,hcommit⟩ := bind_eq_ok.mp hnext
    obtain ⟨hqueries,howns⟩ := requireOwners_eq_ok.mp howners
    obtain ⟨hoperations,halong⟩ :=
      (exists_applyParticipants_iff (Owns.mem_keys howns)).mp ⟨applied,happlied⟩
    exact ⟨⟨hqueries,(statement_eq_ok.mp hbegin).1,hoperations,(statement_eq_ok.mp hcommit).1⟩,
      howns,halong⟩
  · rintro ⟨⟨hqueries,hbegin,hoperations,hcommit⟩,howns,halong⟩
    obtain ⟨next,hnext⟩ := (exists_applyParticipants_iff (n := transactions.length + 1)
      howns.mem_keys).mpr ⟨hoperations,halong⟩
    refine ⟨next,seq_eq_ok.mpr ⟨requireOwners_eq_ok.mpr ⟨hqueries,howns⟩,?_⟩⟩
    refine seq_eq_ok.mpr ⟨statement_eq_ok.mpr ⟨hbegin,rfl⟩,?_⟩
    exact bind_eq_ok.mpr ⟨next,hnext,statement_eq_ok.mpr ⟨hcommit,rfl⟩⟩

/-- What `transact_many` may do to the map of all records. -/
structure Refines (store : LocalPersistence) (sql : SqlFailures)
    (transactions : List NamespaceTransaction)
    (result : Except PersistenceError Unit × LocalPersistence) : Prop where
  succeeds : result.1 = .ok () ↔ (∀ i < statementCount transactions, sql i = none) ∧
    store.Owns transactions ∧
      Along MapOp.write MapOp.Holds store.view (transactions.flatMap (·.batch))
  applied : result.1 = .ok () →
    result.2.view = runAll MapOp.write store.view (transactions.flatMap (·.batch))
  unchanged : ∀ error, result.1 = .error error → result.2 = store
  schemas : result.2.schemas = store.schemas
  frame : ∀ key, (∀ participant ∈ transactions, participant.namespc ≠ (ofLex key).1) →
    result.2.view key = store.view key

theorem Follows.frame (h : store.Follows (transactions.flatMap (·.batch)) next) {key : RecordKey}
    (hkey : ∀ participant ∈ transactions, participant.namespc ≠ (ofLex key).1) :
    next.view key = store.view key := by
  rw [h.view]
  apply MapOp.runAll_write_of_forall_ne
  intro op hop hsame
  obtain ⟨participant,hparticipant,hop⟩ := List.mem_flatMap.mp hop
  obtain ⟨operation,-,rfl⟩ := List.mem_map.mp hop
  exact hkey participant hparticipant (hsame ▸ (onNamespace_key _ operation).symm)

/-- `transact_many` applies all operations in order, or nothing. It succeeds when no statement fails
by itself, the namespaces belong to the stated owners, and every assertion holds at its point. -/
theorem transactMany_refines (store : LocalPersistence) (sql : SqlFailures)
    (transactions : List NamespaceTransaction) :
    store.Refines sql transactions (store.transactMany sql transactions) := by
  have hsucceeds : (∃ next, store.transaction sql transactions = .ok next) ↔ _ :=
    exists_transaction_iff
  unfold transactMany
  cases hresult : store.transaction sql transactions with
  | ok next =>
    have hfollows := transaction_follows hresult
    exact ⟨iff_of_true rfl (hsucceeds.mp ⟨next,hresult⟩),fun _ => hfollows.view,
      nofun,hfollows.schemas,fun key => hfollows.frame⟩
  | error error =>
    refine ⟨iff_of_false (nofun) fun h => ?_,nofun,fun _ _ => rfl,rfl,fun _ _ => rfl⟩
    obtain ⟨next,hnext⟩ := hsucceeds.mpr h
    cases hresult.symm.trans hnext

end LocalPersistence
end PhenixConductor.Persistence

/-! ## One namespace of the store

A plugin reads and writes the records of its own namespace. For a transaction on them
it does not matter what the other namespaces hold.
-/
namespace PhenixConductor.Persistence
open Collections Harness

/-- The records of a namespace by their keys. -/
abbrev Records := String → Option (List UInt8)

def recordOp : TransactionOp → MapOp String (List UInt8)
  | .put key value => .put key value
  | .delete key => .delete key
  | .assertValue key expected => .assert key expected

/-- The records after a transaction, or the key whose assertion fails. -/
def transactRecords (records : Records) (operations : List TransactionOp) :
    Except String Records :=
  MapOp.commit records (operations.map recordOp)

/-- The text of a `KernelError` for an assertion that fails. -/
def assertionFailed (plugin namespc key : String) : String :=
  "plugin " ++ plugin ++ " persistence operation failed: transaction assertion failed for " ++
    namespc ++ "/" ++ key

end PhenixConductor.Persistence
