import PhenixConductor.Persistence.Refinement

/-! # Migrations of a schema

A migration to a later version runs the first step of the list from every version to the
next, all in one transaction of the database, and then stores the version.
-/
namespace PhenixConductor.Persistence
open Collections Contract Harness BTreeMap

namespace LocalPersistence
variable (self : LocalPersistence)

def supportedFeatures : List BackendFeature := [.transactions,.uniqueKeys,.migrations]

def requireFeatures (schema : DurableSchema) : Except PersistenceError Unit :=
  match schema.requiredFeatures.find? (· ∉ supportedFeatures) with
  | some feature => .error (.unsupportedFeature schema.namespc feature)
  | none => .ok ()

def storedOwnerAndVersion (sql : SqlFailures) (n : ℕ) (namespc : ResourceNamespace) :
    Except PersistenceError (Option SchemaRow) :=
  statement sql n (.ok (self.schemas.get? namespc))

/-- The first step of the list from a version to the next. -/
def stepFrom (migrations : List SchemaMigration) (version : ℕ) : Option SchemaMigration :=
  migrations.find? fun migration =>
    migration.fromVersion = version && migration.toVersion = version + 1

/-- The loop that makes the plan. -/
def migrationPlan (namespc : ResourceNamespace) (migrations : List SchemaMigration)
    (requested current : ℕ) : Except PersistenceError (List SchemaMigration) :=
  if current < requested then
    match stepFrom migrations current with
    | none => .error (.missingMigration namespc current (current + 1))
    | some migration => do
      let rest ← migrationPlan namespc migrations requested (current + 1)
      .ok (migration :: rest)
  else .ok []
termination_by requested - current

/-- The loop that runs the plan. -/
def applyMigrations (sql : SqlFailures) (namespc : ResourceNamespace) :
    ℕ → LocalPersistence → List SchemaMigration → Except PersistenceError LocalPersistence
  | _, store, [] => .ok store
  | n, store, migration :: migrations => do
    let next ← applyOperations sql namespc n store migration.operations
    applyMigrations sql namespc (n + migration.operations.length) next migrations

/-- The update of a row, if there is one. -/
def setVersion (namespc : ResourceNamespace) (version : ℕ) : Except PersistenceError LocalPersistence :=
  match self.schemas.get? namespc with
  | none => .ok self
  | some row =>
    if h : 0 < version then .ok
      { self with
        schemas := self.schemas.insert namespc { row with version := version }
        positive := fun other row' hrow => by
          rw [get?_insert] at hrow
          split_ifs at hrow
          · cases hrow
            exact h
          · exact self.positive other row' hrow
        referenced := fun key hkey => (mem_keys_insert _ _).mpr (.inr (self.referenced key hkey)) }
    else .error (.sql "CHECK constraint failed: version > 0")

/-- `migrate_schema` up to the commit. -/
def migration (sql : SqlFailures) (owner : PluginId) (schema : DurableSchema)
    (migrations : List SchemaMigration) : Except PersistenceError LocalPersistence := do
  requireFeatures schema
  match ← self.storedOwnerAndVersion sql 0 schema.namespc with
  | none => .error (.unregisteredNamespace schema.namespc)
  | some row =>
    if row.owner ≠ owner then .error (.wrongNamespaceOwner schema.namespc row.owner owner)
    else if schema.version < row.version then
      .error (.incompatibleSchema schema.namespc row.version schema.version)
    else if row.version = schema.version then .ok self
    else do
      let plan ← migrationPlan schema.namespc migrations schema.version row.version
      statement sql 1 (.ok ())
      let count := (plan.map (·.operations.length)).sum
      let migrated ← applyMigrations sql schema.namespc 2 self plan
      let next ← statement sql (2 + count) (migrated.setVersion schema.namespc schema.version)
      statement sql (3 + count) (.ok next)

def migrateSchema (sql : SqlFailures) (owner : PluginId) (schema : DurableSchema)
    (migrations : List SchemaMigration) : Except PersistenceError Unit × LocalPersistence :=
  self.committed (self.migration sql owner schema migrations)

/-- The operations of the steps from one version to another. -/
def replayed (namespc : ResourceNamespace) (migrations : List SchemaMigration) (stored requested : ℕ) :
    List (MapOp RecordKey (List UInt8)) :=
  (List.range' stored (requested - stored)).flatMap fun version =>
    ((stepFrom migrations version).map (·.operations)).getD [] |>.map (onNamespace namespc)

/-- A step from every version to the next. -/
def Stepwise (migrations : List SchemaMigration) (stored requested : ℕ) : Prop :=
  ∀ version, stored ≤ version → version < requested → ∃ migration ∈ migrations,
    migration.fromVersion = version ∧ migration.toVersion = version + 1

section Plan
variable {namespc : ResourceNamespace} {migrations plan : List SchemaMigration}
  {stored middle requested : ℕ}

theorem stepFrom_isSome {version : ℕ} : (stepFrom migrations version).isSome ↔
    ∃ migration ∈ migrations,
      migration.fromVersion = version ∧ migration.toVersion = version + 1 := by
  simp [stepFrom]

theorem replayed_of_lt {migration : SchemaMigration} (h : stored < requested)
    (hstep : stepFrom migrations stored = some migration) :
    replayed namespc migrations stored requested = migration.operations.map (onNamespace namespc) ++
      replayed namespc migrations (stored + 1) requested := by
  have hcount : requested - stored = (requested - (stored + 1)) + 1 := by omega
  rw [replayed, hcount, List.range'_succ, List.flatMap_cons, hstep]
  rfl

theorem replayed_of_le (h : requested ≤ stored) : replayed namespc migrations stored requested = [] := by
  rw [replayed, Nat.sub_eq_zero_of_le h]
  rfl

variable (namespc migrations) in
theorem replayed_append (h : stored ≤ middle) (h' : middle ≤ requested) :
    replayed namespc migrations stored middle ++ replayed namespc migrations middle requested =
      replayed namespc migrations stored requested := by
  have hrange : List.range' stored (middle - stored) ++ List.range' middle (requested - middle) =
      List.range' stored (requested - stored) := by
    have hrange := List.range'_append_1 (s := stored) (m := middle - stored) (n := requested - middle)
    rwa [Nat.add_sub_of_le h, show middle - stored + (requested - middle) = requested - stored by omega]
      at hrange
  rw [replayed, replayed, ← List.flatMap_append, hrange, replayed]

theorem migrationPlan_eq_ok (h : migrationPlan namespc migrations requested stored = .ok plan) :
    Stepwise migrations stored requested ∧
      plan.flatMap (fun migration => migration.operations.map (onNamespace namespc)) =
        replayed namespc migrations stored requested := by
  induction hcount : requested - stored generalizing stored plan with
  | zero =>
    have hle : requested ≤ stored := Nat.le_of_sub_eq_zero hcount
    rw [migrationPlan, if_neg (Nat.not_lt.mpr hle)] at h
    cases h
    exact ⟨fun version hge hlt => absurd (hlt.trans_le hle) (Nat.not_lt.mpr hge),
      (replayed_of_le hle).symm⟩
  | succ count ih =>
    have hlt : stored < requested := by omega
    rw [migrationPlan, if_pos hlt] at h
    cases hstep : stepFrom migrations stored with
    | none =>
      rw [hstep] at h
      cases h
    | some migration =>
      rw [hstep] at h
      obtain ⟨rest,hrest,h⟩ := bind_eq_ok.mp h
      cases h
      obtain ⟨hsteps,hreplayed⟩ := ih hrest (by omega)
      refine ⟨fun version hge hlt' => ?_,?_⟩
      · rcases Nat.eq_or_lt_of_le hge with rfl | hgt
        · exact stepFrom_isSome.mp (by rw [hstep]; rfl)
        · exact hsteps version hgt hlt'
      · rw [List.flatMap_cons, hreplayed, replayed_of_lt hlt hstep]

end Plan

variable {store next : LocalPersistence} {sql : SqlFailures} {owner : PluginId}
  {schema : DurableSchema} {migrations : List SchemaMigration} {n : ℕ}

/-- The loop that runs the plan is the one that runs the participants of a batch. -/
theorem applyMigrations_eq (owner : PluginId) (namespc : ResourceNamespace)
    (plan : List SchemaMigration) : applyMigrations sql namespc n store plan =
      applyParticipants sql n store (plan.map fun migration => ⟨owner,namespc,migration.operations⟩) := by
  induction plan generalizing n store with
  | nil => rfl
  | cons migration plan ih =>
    rw [applyMigrations, List.map_cons, applyParticipants]
    simp only [ih]

variable {row : SchemaRow}

theorem setVersion_eq_ok {namespc : ResourceNamespace} {version : ℕ}
    (hrow : store.schemas.get? namespc = some row) (h : store.setVersion namespc version = .ok next) :
    next.schemas = store.schemas.insert namespc { row with version := version } ∧
      next.records = store.records := by
  unfold setVersion at h
  split at h
  · next hnone => cases hnone.symm.trans hrow
  · next found hfound =>
    cases hfound.symm.trans hrow
    split_ifs at h
    cases h
    exact ⟨rfl,rfl⟩

/-- What a migration that succeeds has done. -/
structure Migrated (store : LocalPersistence) (schema : DurableSchema)
    (migrations : List SchemaMigration) (row : SchemaRow) (next : LocalPersistence) : Prop where
  stored : store.schemas.get? schema.namespc = some row
  raises : row.version ≤ schema.version
  steps : Stepwise migrations row.version schema.version
  holds : Along MapOp.write MapOp.Holds store.view
    (replayed schema.namespc migrations row.version schema.version)
  view : next.view = runAll MapOp.write store.view
    (replayed schema.namespc migrations row.version schema.version)
  schemas : next.schemas =
    store.schemas.insert schema.namespc { row with version := schema.version }

theorem namespc_mem_keys {namespc : ResourceNamespace}
    (hrow : store.schemas.get? namespc = some row) (owner : PluginId) (plan : List SchemaMigration) :
    ∀ participant ∈ plan.map fun migration =>
      (⟨owner,namespc,migration.operations⟩ : NamespaceTransaction),
      participant.namespc ∈ store.schemas.keys := by
  intro participant hparticipant
  obtain ⟨migration,-,rfl⟩ := List.mem_map.mp hparticipant
  rw [mem_keys_iff, hrow]
  rfl

theorem flatMap_batch (plan : List SchemaMigration) (owner : PluginId) (namespc : ResourceNamespace) :
    (plan.map fun migration => (⟨owner,namespc,migration.operations⟩ : NamespaceTransaction)).flatMap
        (·.batch) =
      plan.flatMap fun migration => migration.operations.map (onNamespace namespc) := by
  rw [List.flatMap_map]
  rfl

theorem migration_eq_ok (h : store.migration sql owner schema migrations = .ok next) :
    ∃ row, row.owner = owner ∧ Migrated store schema migrations row next := by
  rw [migration, seq_eq_ok] at h
  obtain ⟨-,h⟩ := h
  obtain ⟨stored,hstored,h⟩ := bind_eq_ok.mp h
  cases (statement_eq_ok.mp hstored).2
  split at h
  · cases h
  · next row hrow =>
    split_ifs at h with howner hlower hsame
    · cases h
      refine ⟨row,not_not.mp howner,hrow,hsame.le,?_,?_,?_,?_⟩
      · exact fun version hge hlt => absurd hlt (Nat.not_lt.mpr (hsame ▸ hge))
      · rw [replayed_of_le hsame.ge]
        trivial
      · rw [replayed_of_le hsame.ge]
        rfl
      · rw [← hsame, insert_of_get? _ hrow]
    · obtain ⟨plan,hplan,h⟩ := bind_eq_ok.mp h
      obtain ⟨-,h⟩ := seq_eq_ok.mp h
      obtain ⟨migrated,happly,h⟩ := bind_eq_ok.mp h
      obtain ⟨last,hset,h⟩ := bind_eq_ok.mp h
      obtain ⟨-,hset⟩ := statement_eq_ok.mp hset
      cases (statement_eq_ok.mp h).2
      obtain ⟨hsteps,hreplayed⟩ := migrationPlan_eq_ok hplan
      rw [applyMigrations_eq owner] at happly
      have hfollows := applyParticipants_follows happly
      have hrow' : migrated.schemas.get? schema.namespc = some row := hfollows.schemas ▸ hrow
      obtain ⟨hschemas,hrecords⟩ := setVersion_eq_ok hrow' hset
      have hkeys := namespc_mem_keys hrow owner plan
      have hholds := ((exists_applyParticipants_iff hkeys).mp ⟨migrated,happly⟩).2
      have hview := hfollows.view
      rw [flatMap_batch, hreplayed] at hholds hview
      refine ⟨row,not_not.mp howner,hrow,Nat.not_lt.mp hlower,hsteps,hholds,?_,?_⟩
      · rw [← hview, LocalPersistence.view, LocalPersistence.view, hrecords]
      · rw [hschemas, hfollows.schemas]

variable {row' : SchemaRow}

theorem Migrated.row_unique {next' : LocalPersistence}
    (h : Migrated store schema migrations row next)
    (h' : Migrated store schema migrations row' next') : row = row' :=
  Option.some.inj (h.stored.symm.trans h'.stored)

theorem ext_tables (hschemas : next.schemas = store.schemas) (hrecords : next.records = store.records) :
    next = store := by
  cases store
  cases hschemas
  cases hrecords
  rfl

theorem records_eq_of_view (h : next.view = store.view) : next.records = store.records :=
  ext fun key => congrFun h key

/-- A migration is determined by the store, the requested version and the list of steps. -/
theorem Migrated.eq {next' : LocalPersistence} (h : Migrated store schema migrations row next)
    (h' : Migrated store schema migrations row' next') : next = next' := by
  cases h.row_unique h'
  apply ext_tables
  · rw [h.schemas, h'.schemas]
  · apply records_eq_of_view
    rw [h.view, h'.view]

/-- Two migrations in turn are one. -/
theorem Migrated.trans {schema' : DurableSchema} {last : LocalPersistence}
    (hnamespc : schema'.namespc = schema.namespc) (h : Migrated store schema migrations row next)
    (h' : Migrated next schema' migrations row' last) :
    Migrated store schema' migrations row last := by
  have hrow : row' = { row with version := schema.version } := by
    have hstored := h'.stored
    rw [hnamespc, h.schemas, get?_insert_self] at hstored
    exact (Option.some.inj hstored).symm
  subst hrow
  have hreplayed := replayed_append schema.namespc migrations
    h.raises h'.raises
  constructor
  · exact hnamespc ▸ h.stored
  · exact h.raises.trans h'.raises
  · intro version hge hlt
    rcases Nat.lt_or_ge version schema.version with hbelow | habove
    · exact h.steps version hge hbelow
    · exact h'.steps version habove hlt
  · have hholds := h'.holds
    rw [h.view, hnamespc] at hholds
    rw [hnamespc, ← hreplayed, along_append]
    exact ⟨h.holds,hholds⟩
  · rw [h'.view, h.view, hnamespc, ← hreplayed, runAll_append]
  · rw [h'.schemas, h.schemas, hnamespc]
    ext1 key
    by_cases hkey : key = schema.namespc
    · subst hkey
      simp
    · rw [get?_insert_of_ne _ _ hkey, get?_insert_of_ne _ _ hkey,
        get?_insert_of_ne _ _ hkey]

theorem migrateSchema_eq (store : LocalPersistence) (sql : SqlFailures) (owner : PluginId)
    (schema : DurableSchema) (migrations : List SchemaMigration) :
    (∃ error, store.migrateSchema sql owner schema migrations = (.error error,store)) ∨
      ∃ row next, store.migrateSchema sql owner schema migrations = (.ok (),next) ∧
        row.owner = owner ∧ Migrated store schema migrations row next := by
  rw [migrateSchema]
  cases h : store.migration sql owner schema migrations with
  | error error => exact .inl ⟨error,rfl⟩
  | ok next =>
    obtain ⟨row,howner,hmigrated⟩ := migration_eq_ok h
    exact .inr ⟨row,next,rfl,howner,hmigrated⟩

theorem migrated_of_ok (h : (store.migrateSchema sql owner schema migrations).1 = .ok ()) :
    ∃ row, Migrated store schema migrations row
      (store.migrateSchema sql owner schema migrations).2 := by
  rcases store.migrateSchema_eq sql owner schema migrations with ⟨error,heq⟩ | ⟨row,next,heq,-,hnext⟩
  · rw [heq] at h
    cases h
  · rw [heq]
    exact ⟨row,hnext⟩

/-- A migration that fails leaves the store; it fails when a step is missing or an assertion
does not hold where it is replayed. The stored version never falls, and a migration to it does
nothing. Two migrations in turn do what the one to the later version does. -/
theorem migrateSchema_composes (store : LocalPersistence) (sql : SqlFailures) (owner : PluginId)
    (schema : DurableSchema) (migrations : List SchemaMigration) :
    (∀ error, (store.migrateSchema sql owner schema migrations).1 = .error error →
      (store.migrateSchema sql owner schema migrations).2 = store) ∧
    (∀ row, store.schemas.get? schema.namespc = some row →
      (¬Stepwise migrations row.version schema.version ∨ ¬Along MapOp.write MapOp.Holds store.view
        (replayed schema.namespc migrations row.version schema.version)) →
      ∃ error, store.migrateSchema sql owner schema migrations = (.error error,store)) ∧
    (∀ namespc row, store.schemas.get? namespc = some row → ∃ row',
      (store.migrateSchema sql owner schema migrations).2.schemas.get? namespc = some row' ∧
        row.version ≤ row'.version) ∧
    (∀ row, store.schemas.get? schema.namespc = some row → row.version = schema.version →
      (store.migrateSchema sql owner schema migrations).2 = store) ∧
    ∀ sql' sql'' owner' owner'' (schema' : DurableSchema), schema'.namespc = schema.namespc →
      (store.migrateSchema sql owner schema migrations).1 = .ok () →
      ((store.migrateSchema sql owner schema migrations).2.migrateSchema sql' owner' schema'
        migrations).1 = .ok () →
      (store.migrateSchema sql'' owner'' schema' migrations).1 = .ok () →
      ((store.migrateSchema sql owner schema migrations).2.migrateSchema sql' owner' schema'
        migrations).2 = (store.migrateSchema sql'' owner'' schema' migrations).2 := by
  have hcases := store.migrateSchema_eq sql owner schema migrations
  refine ⟨?_,?_,?_,?_,?_⟩
  · intro error h
    rcases hcases with ⟨_,heq⟩ | ⟨_,_,heq,-⟩
    · rw [heq]
    · rw [heq] at h
      cases h
  · intro row hrow h
    rcases hcases with hfailed | ⟨row',next,-,-,hnext⟩
    · exact hfailed
    · cases hrow.symm.trans hnext.stored
      rcases h with hmissing | hrefused
      · exact absurd hnext.steps hmissing
      · exact absurd hnext.holds hrefused
  · intro namespc row hrow
    rcases hcases with ⟨_,heq⟩ | ⟨row',next,heq,-,hnext⟩
    · rw [heq]
      exact ⟨row,hrow,le_rfl⟩
    · rw [heq, hnext.schemas, get?_insert]
      split_ifs with hsame
      · subst hsame
        cases hrow.symm.trans hnext.stored
        exact ⟨_,rfl,hnext.raises⟩
      · exact ⟨row,hrow,le_rfl⟩
  · intro row hrow hversion
    rcases hcases with ⟨_,heq⟩ | ⟨row',next,heq,-,hnext⟩
    · rw [heq]
    · rw [heq]
      cases hrow.symm.trans hnext.stored
      apply ext_tables
      · rw [hnext.schemas, ← hversion, insert_of_get? _ hrow]
      · apply records_eq_of_view
        rw [hnext.view, replayed_of_le hversion.ge]
        rfl
  · intro sql' sql'' owner' owner'' schema' hnamespc hfirst hsecond hwhole
    obtain ⟨row,hrow⟩ := migrated_of_ok hfirst
    obtain ⟨row',hrow'⟩ := migrated_of_ok hsecond
    obtain ⟨row'',hrow''⟩ := migrated_of_ok hwhole
    exact (hrow.trans hnamespc hrow').eq hrow''

end LocalPersistence
end PhenixConductor.Persistence
