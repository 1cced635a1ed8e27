import PhenixConductor.Persistence.Migration

/-! # Namespaces and their owners

The plugins share one store. A namespace belongs to the plugin that has registered it first.
-/
namespace PhenixConductor.Persistence
open Collections Contract Harness BTreeMap

namespace LocalPersistence
variable (self : LocalPersistence) (sql : SqlFailures) (owner : PluginId) (schema : DurableSchema)

/-- The insertion of the row of a schema. -/
def insertSchema : Except PersistenceError LocalPersistence :=
  if h : 0 < schema.version then .ok
    { self with
      schemas := self.schemas.insert schema.namespc ⟨owner,schema.version⟩
      positive := fun namespc row hrow => by
        rw [get?_insert] at hrow
        split_ifs at hrow
        · cases hrow
          exact h
        · exact self.positive namespc row hrow
      referenced := fun key hkey => (mem_keys_insert _ _).mpr (.inr (self.referenced key hkey)) }
  else .error (.sql "CHECK constraint failed: version > 0")

def registration : Except PersistenceError LocalPersistence := do
  requireFeatures schema
  match ← self.storedOwnerAndVersion sql 0 schema.namespc with
  | none => statement sql 1 (self.insertSchema owner schema)
  | some row =>
    if row.owner ≠ owner then .error (.namespaceCollision schema.namespc row.owner)
    else if row.version ≠ schema.version then
      .error (.incompatibleSchema schema.namespc row.version schema.version)
    else .ok self

def registerSchema : Except PersistenceError Unit × LocalPersistence :=
  self.committed (self.registration sql owner schema)

end LocalPersistence

/-- The calls that may change the store. -/
inductive PersistenceCall
  | registerSchema (owner : PluginId) (schema : DurableSchema)
  | migrateSchema (owner : PluginId) (schema : DurableSchema) (migrations : List SchemaMigration)
  | transactMany (transactions : List NamespaceTransaction)

/-- The call asks for changes of the records of a namespace, as its owner. -/
def PersistenceCall.Writes (owner : PluginId) (namespc : ResourceNamespace) :
    PersistenceCall → Prop
  | .registerSchema _ _ => False
  | .migrateSchema caller schema _ => caller = owner ∧ schema.namespc = namespc
  | .transactMany transactions =>
    ∃ participant ∈ transactions, participant.owner = owner ∧ participant.namespc = namespc

namespace LocalPersistence

/-- The store after a call, where the statements of the database may fail. -/
def afterCall (store : LocalPersistence) : PersistenceCall × SqlFailures → LocalPersistence
  | (.registerSchema owner schema,sql) => (store.registerSchema sql owner schema).2
  | (.migrateSchema owner schema migrations,sql) => (store.migrateSchema sql owner schema migrations).2
  | (.transactMany transactions,sql) => (store.transactMany sql transactions).2

/-- The plugin that has registered a namespace. -/
def ownerOf (self : LocalPersistence) (namespc : ResourceNamespace) : Option PluginId :=
  (self.schemas.get? namespc).map (·.owner)

/-- Every namespace keeps its owner, and where a record has changed the owner has asked for it. -/
structure Owned (writes : PluginId → ResourceNamespace → Prop) (store next : LocalPersistence) :
    Prop where
  kept : ∀ namespc owner, store.ownerOf namespc = some owner → next.ownerOf namespc = some owner
  written : ∀ key, next.view key ≠ store.view key →
    ∃ owner, next.ownerOf (ofLex key).1 = some owner ∧ writes owner (ofLex key).1

variable {store middle next : LocalPersistence} {writes : PluginId → ResourceNamespace → Prop}
  {sql : SqlFailures} {owner : PluginId} {schema : DurableSchema}
  {transactions : List NamespaceTransaction}

theorem Owned.refl (store : LocalPersistence) : Owned writes store store :=
  ⟨fun _ _ h => h,fun _ h => absurd rfl h⟩

theorem Owned.trans (h : Owned writes store middle) (h' : Owned writes middle next) :
    Owned writes store next where
  kept namespc owner := h'.kept namespc owner ∘ h.kept namespc owner
  written key hkey := by
    by_cases hmiddle : next.view key = middle.view key
    · obtain ⟨owner,howner,hwrites⟩ := h.written key (hmiddle ▸ hkey)
      exact ⟨owner,h'.kept _ owner howner,hwrites⟩
    · exact h'.written key hmiddle

theorem ownerOf_insert {namespc : ResourceNamespace} {row : SchemaRow}
    (hschemas : next.schemas = store.schemas.insert namespc row)
    (hold : ∀ old, store.schemas.get? namespc = some old → row.owner = old.owner)
    (other : ResourceNamespace) (owner : PluginId) (howner : store.ownerOf other = some owner) :
    next.ownerOf other = some owner := by
  rw [ownerOf, hschemas, get?_insert]
  split_ifs with hsame
  · subst hsame
    obtain ⟨old,hget,rfl⟩ := Option.map_eq_some_iff.mp howner
    exact congrArg some (hold old hget)
  · exact howner

theorem committed_owned {result : Except PersistenceError LocalPersistence}
    (h : ∀ next, result = .ok next → Owned writes store next) :
    Owned writes store (store.committed result).2 := by
  cases result with
  | error => exact .refl store
  | ok next => exact h next rfl

theorem registerSchema_owned : Owned writes store (store.registerSchema sql owner schema).2 := by
  refine committed_owned fun next h => ?_
  obtain ⟨-,h⟩ := seq_eq_ok.mp h
  obtain ⟨stored,hstored,h⟩ := bind_eq_ok.mp h
  cases (statement_eq_ok.mp hstored).2
  split at h
  · next hnone =>
    obtain ⟨-,h⟩ := statement_eq_ok.mp h
    rw [insertSchema] at h
    split_ifs at h
    cases h
    refine ⟨ownerOf_insert rfl fun old hold => ?_,fun _ hkey => absurd rfl hkey⟩
    cases hnone.symm.trans hold
  · split_ifs at h
    cases h
    exact .refl store

theorem migrateSchema_owned (hwrites : writes owner schema.namespc)
    {migrations : List SchemaMigration} :
    Owned writes store (store.migrateSchema sql owner schema migrations).2 := by
  refine committed_owned fun next h => ?_
  obtain ⟨row,rfl,hnext⟩ := migration_eq_ok h
  refine ⟨ownerOf_insert hnext.schemas fun old hold => ?_,fun key hkey => ?_⟩
  · cases hnext.stored.symm.trans hold
    rfl
  · have hnamespc : schema.namespc = (ofLex key).1 := by
      by_contra hother
      apply hkey
      rw [hnext.view]
      apply MapOp.runAll_write_of_forall_ne
      rintro op hop rfl
      obtain ⟨version,-,hop⟩ := List.mem_flatMap.mp hop
      obtain ⟨operation,-,rfl⟩ := List.mem_map.mp hop
      exact hother (onNamespace_key _ operation).symm
    rw [← hnamespc]
    exact ⟨_,by rw [ownerOf, hnext.schemas, get?_insert_self, Option.map_some],hwrites⟩

theorem transactMany_owned
    (hwrites : ∀ participant ∈ transactions, writes participant.owner participant.namespc) :
    Owned writes store (store.transactMany sql transactions).2 := by
  refine committed_owned fun next h => ?_
  have hfollows := transaction_follows h
  have hsame : next.ownerOf = store.ownerOf := by
    funext namespc
    rw [ownerOf, hfollows.schemas, ownerOf]
  refine ⟨fun namespc owner howner => hsame ▸ howner,fun key hkey => ?_⟩
  obtain ⟨participant,hmem,hnamespc⟩ : ∃ participant ∈ transactions,
      participant.namespc = (ofLex key).1 := by
    by_contra hnone
    exact hkey (hfollows.frame fun participant hmem heq => hnone ⟨participant,hmem,heq⟩)
  have howner := (exists_transaction_iff.mp ⟨next,h⟩).2.1 participant hmem
  rw [← hnamespc, hsame]
  exact ⟨_,howner,hwrites participant hmem⟩

theorem afterCall_owned {turn : PersistenceCall × SqlFailures}
    (hwrites : ∀ owner namespc, turn.1.Writes owner namespc → writes owner namespc)
    (store : LocalPersistence) : Owned writes store (store.afterCall turn) := by
  obtain ⟨call,sql⟩ := turn
  cases call with
  | registerSchema owner schema => exact registerSchema_owned
  | migrateSchema owner schema migrations =>
    exact migrateSchema_owned (hwrites owner schema.namespc ⟨rfl,rfl⟩)
  | transactMany transactions =>
    exact transactMany_owned (fun participant hmem => hwrites _ _ ⟨participant,hmem,rfl,rfl⟩)

/-- Whatever the plugins ask for and whatever fails, a namespace stays with the plugin that has
registered it, and its records are changed by calls of that plugin only. -/
theorem namespaces_owned (store : LocalPersistence) (calls : List (PersistenceCall × SqlFailures)) :
    Owned (fun owner namespc => ∃ turn ∈ calls, turn.1.Writes owner namespc) store
      (runAll afterCall store calls) := by
  have halong : Along afterCall (fun _ turn => ∀ owner namespc, turn.1.Writes owner namespc →
      ∃ turn ∈ calls, turn.1.Writes owner namespc) store calls :=
    along_of_forall afterCall (fun turn hmem _ _ _ h => ⟨turn,hmem,h⟩) store
  exact halong.invariant (fun middle turn h hwrites => Owned.trans h
    (afterCall_owned hwrites middle)) (.refl store)

/-- The batches as transactions of their own, until one of them fails. The database works. -/
def transactEach (store : LocalPersistence) : List (List NamespaceTransaction) →
    Except PersistenceError Unit × LocalPersistence
  | [] => (.ok (),store)
  | batch :: batches =>
    match store.transactMany (fun _ => none) batch with
    | (.ok (),next) => next.transactEach batches
    | failed => failed

theorem Follows.eq {ops : List (MapOp RecordKey (List UInt8))} (h : store.Follows ops next)
    (h' : store.Follows ops middle) : next = middle :=
  ext_tables (h.schemas.trans h'.schemas.symm) (records_eq_of_view (h.view.trans h'.view.symm))

theorem transactMany_eq_ok : store.transactMany (fun _ => none) transactions = (.ok (),next) ↔
    store.Owns transactions ∧
      Along MapOp.write MapOp.Holds store.view (transactions.flatMap (·.batch)) ∧
        store.Follows (transactions.flatMap (·.batch)) next := by
  unfold transactMany
  cases hresult : store.transaction (fun _ => none) transactions with
  | ok reached =>
    have hfollows := transaction_follows hresult
    obtain ⟨-,howns,halong⟩ := exists_transaction_iff.mp ⟨reached,hresult⟩
    constructor
    · rintro ⟨⟩
      exact ⟨howns,halong,hfollows⟩
    · rintro ⟨-,-,hnext⟩
      rw [hnext.eq hfollows]
      rfl
  | error error =>
    refine iff_of_false (by rintro ⟨⟩) ?_
    rintro ⟨howns,halong,-⟩
    obtain ⟨reached,hreached⟩ := exists_transaction_iff.mpr ⟨fun _ _ => rfl,howns,halong⟩
    cases hresult.symm.trans hreached

/-- One transaction of all the batches commits what a transaction for each of them commits. -/
theorem transactMany_flatten (store : LocalPersistence) (batches : List (List NamespaceTransaction)) :
    store.transactMany (fun _ => none) batches.flatten = (.ok (),next) ↔
      store.transactEach batches = (.ok (),next) := by
  induction batches generalizing store with
  | nil =>
    rw [List.flatten_nil, transactMany_eq_ok]
    constructor
    · rintro ⟨-,-,h⟩
      rw [h.eq ⟨rfl,rfl⟩]
      rfl
    · rintro ⟨⟩
      exact ⟨fun _ h => (List.not_mem_nil h).elim,trivial,rfl,rfl⟩
  | cons batch batches ih =>
    have howns : store.Owns (batch ++ batches.flatten) ↔
        store.Owns batch ∧ store.Owns batches.flatten := List.forall_mem_append
    rw [List.flatten_cons, transactMany_eq_ok, howns, List.flatMap_append, along_append, transactEach]
    split
    · next middle hbatch =>
      obtain ⟨hbatch,halong,hmiddle⟩ := transactMany_eq_ok.mp hbatch
      have hlater : middle.Owns batches.flatten ↔ store.Owns batches.flatten := by
        rw [Owns, Owns, hmiddle.schemas]
      rw [← ih, transactMany_eq_ok, hlater, hmiddle.view]
      constructor
      · rintro ⟨⟨-,hrest⟩,⟨-,hholds⟩,h⟩
        exact ⟨hrest,hholds,h.schemas.trans hmiddle.schemas.symm,by rw [h.view, runAll_append, hmiddle.view]⟩
      · rintro ⟨hrest,hholds,h⟩
        exact ⟨⟨hbatch,hrest⟩,⟨halong,hholds⟩,hmiddle.append h⟩
    · next hfailed =>
      refine iff_of_false ?_ (hfailed next)
      rintro ⟨⟨hbatch,-⟩,⟨halong,-⟩,-⟩
      obtain ⟨middle,hmiddle⟩ := exists_transaction_iff.mpr ⟨fun _ _ => rfl,hbatch,halong⟩
      exact hfailed middle (by rw [transactMany, hmiddle, committed])

end LocalPersistence
end PhenixConductor.Persistence
