import PhenixConductor.Memory.Observation

/-! # What a failure leaves

A command that commits once, at its end, leaves the store as it was where it fails.
-/
namespace PhenixConductor.Memory
open Collections Script DependencyIndex
open Execution (U64)
variable {α β : Type} {s start : MemoryStore}

/-! ## One commit at the end -/

/-- Where the program fails, the store is the one that it has started with. -/
def Spares (start : MemoryStore) (p : MemoryM α) (s : MemoryStore) : Prop :=
  Script.Ensures serveStore (fun _ => True) (fun _ _ => True)
    (fun result t => ∀ e, result = .error e → t = start) p s

theorem spares_pure {a : α} : Spares start (pure a) s := nofun

theorem spares_fail {e : MemoryError} : Spares s (fail e : MemoryM α) s := fun _ _ => rfl

variable {f : α → MemoryM β}

/-- A part that only reads goes before a part that spares the store. -/
theorem spares_bind_of_reads {p : MemoryM α} (h : Changes (fun _ => True) Eq (fun _ _ => True) p s)
    (hf : ∀ a, Spares s (f a) s) : Spares s (p >>= f) s := by
  refine ensures_bind.mpr (h.ensures.unchanged.mono (fun _ _ h => h) ?_)
  rintro (e | a) t rfl
  · exact fun _ _ => rfl
  · exact hf a

/-- Nothing fails after the program. -/
theorem spares_bind_pure {p : MemoryM α} {f : α → β} (h : Spares start p s) :
    Spares start (p >>= fun a => pure (f a)) s := by
  refine ensures_bind.mpr (h.mono (fun _ _ h => h) ?_)
  rintro (e | a) t ht
  · exact fun _ _ => ht e rfl
  · exact spares_pure

theorem spares_check_bind {result : Except MemoryError α}
    (h : ∀ a, result = .ok a → Spares s (f a) s) : Spares s (check result >>= f) s :=
  ensures_ofExcept_bind (fun _ _ _ _ => rfl) h

theorem spares_require_bind {e : MemoryError} {value : Option α}
    (h : ∀ a, value = some a → Spares s (f a) s) : Spares s (require e value >>= f) s := by
  cases value with
  | none => exact spares_fail
  | some a => exact h a rfl

theorem spares_readCell_bind {cell : MemoryCell} {f : Option cell.Content → MemoryM β}
    (h : Spares s (f (s cell)) s) : Spares s (readCell cell >>= f) s := by
  change Script.Ensures _ _ _ _ ((_ >>= _) >>= f) s
  exact ensures_askRead_bind trivial (fun _ _ _ => rfl) h

theorem spares_commitCells {operations : List (CellOp MemoryCell.Content)} :
    Spares s (commitCells operations) s :=
  ensures_askCommit_bind trivial (fun _ _ _ => rfl) fun _ _ => ⟨trivial,nofun⟩

section Commands
variable {library : MemoryLibrary}

variable {id : String}

theorem spares_readMemory_bind {missing : String} {f : MemoryRecord → MemoryM β}
    (h : ∀ record, s (.entry .record id) = some record → Spares s (f record) s) :
    Spares s (readMemory missing id >>= f) s := by
  change Spares s ((readCell (.entry .record id) >>= _) >>= f) s
  rw [bind_bind]
  exact spares_readCell_bind (spares_require_bind h)

theorem spares_readState_bind {record : MemoryRecord} {f : MemoryFreshnessRecord → MemoryM β}
    (h : Spares s (f (stateOf s id record)) s) : Spares s (readState id record >>= f) s := by
  change Spares s ((readCell (.freshness id) >>= _) >>= f) s
  rw [bind_bind]
  exact spares_readCell_bind h

theorem spares_writeFreshnessWithEntry {state : MemoryFreshnessRecord} {entry : DependencyKey} :
    Spares s (writeFreshnessWithEntry id state entry) s :=
  spares_readCell_bind (spares_readCell_bind spares_commitCells)

theorem spares_insertRecordWith {c : MemoryCollection} {value : c.Content}
    {sidecar : Option MemoryFreshnessRecord} {secondary : Option (List DependencyKey)}
    {updates : List (String × MemoryFreshnessRecord)} :
    Spares s (insertRecordWith c id value sidecar secondary updates) s := by
  refine spares_readCell_bind (spares_bind_of_reads ?_ fun _ => spares_bind_of_reads ?_ fun _ =>
    spares_bind_of_reads ?_ fun _ => spares_bind_of_reads ?_ fun _ => spares_commitCells)
  · unfold requireNew
    split_ifs
    · exact changes_fail
    · refine changes_readCell_bind rfl ?_
      split_ifs
      · exact changes_fail
      · exact changes_pure trivial
  · cases sidecar with
    | none => exact changes_pure trivial
    | some state =>
      refine changes_readCell_bind rfl ?_
      split_ifs
      · exact changes_fail
      · exact changes_pure trivial
  · cases secondary with
    | none => exact changes_pure trivial
    | some entries => exact changes_readCell_bind rfl (changes_pure trivial)
  · exact (changes_readUpdates rfl updates).mono fun _ _ _ => trivial

theorem spares_recordMemory (record : MemoryRecord) : Spares s (recordMemory record) s := by
  refine spares_check_bind fun valid _ => spares_bind_of_reads ?_ fun states => ?_
  · exact (changes_supersedePriors rfl valid.supersedes).mono fun _ _ _ => trivial
  · exact spares_bind_pure spares_insertRecordWith

theorem spares_consolidateMemory (request : MemoryConsolidationRequest) :
    Spares s (consolidateMemory library request) s := by
  refine spares_check_bind fun _ _ => spares_check_bind fun _ _ => ?_
  refine spares_bind_of_reads ?_ fun records => ?_
  · exact (changes_readMemories rfl _).mono fun _ _ _ => trivial
  · refine spares_require_bind fun first _ => spares_check_bind fun _ _ => ?_
    refine spares_check_bind fun _ _ => spares_check_bind fun _ _ => ?_
    refine spares_bind_of_reads ?_ fun _ => spares_recordMemory _
    exact (changes_routedMemoryText rfl _ _ _ _ _ _).mono fun _ _ _ => trivial

theorem spares_bindCanonicalReference (id : String) (reference : MemoryCanonicalReference)
    (observedAt : U64) : Spares s (bindCanonicalReference id reference observedAt) s := by
  refine spares_check_bind fun _ _ => spares_check_bind fun _ _ => spares_check_bind fun _ _ => ?_
  refine spares_readMemory_bind fun record _ => spares_check_bind fun _ _ => ?_
  exact spares_readState_bind (spares_bind_pure spares_writeFreshnessWithEntry)

end Commands

/-! ## A commit in every turn -/

section Loop
variable (dependency : MemoryDependencyRevision) (observedAt : U64)

/-- The store after the turn of a memory. -/
def conflicted (s : MemoryStore) (id : String) : MemoryStore :=
  match s (.entry .record id) with
  | none => s
  | some record => MemoryStore.renew s id
      (((stateOf s id record).withDependency dependency).questioned observedAt)
      (some (dependencyKey dependency.service dependency.resource))

/-- The memory is stored, and no request of its turn fails. -/
def Served (turns : MemoryCall.Turns) (s : MemoryStore) (id : String) : Prop :=
  validateKey id = .ok () ∧ (s (.entry .record id)).isSome ∧ ∀ i < 5, (turns i).failure = none

/-- The turn of the memory changes its freshness, or adds it to the dependency index. -/
def Disturbs (s : MemoryStore) (id : String) : Prop :=
  ∃ record, s (.entry .record id) = some record ∧
    (s (.freshness id) ≠
        some (((stateOf s id record).withDependency dependency).questioned observedAt) ∨
      id ∉ (dependenciesOf s).ids (dependencyKey dependency.service dependency.resource))

/-- The turns from a request on. -/
def turnsFrom (turns : MemoryCall.Turns) (n : ℕ) : MemoryCall.Turns := fun i => turns (i + n)

variable {dependency observedAt} {turns : MemoryCall.Turns} {id : String}

theorem run_check_bind {result : Except MemoryError α} {f : α → MemoryM β} :
    (check result >>= f).run serveStore turns s = match result with
      | .ok a => (f a).run serveStore turns s
      | .error e => (.error e,s) := by
  cases result <;> rfl

theorem run_readCell_bind {cell : MemoryCell} {f : Option cell.Content → MemoryM β} :
    (readCell cell >>= f).run serveStore turns s = match (turns 0).failure with
      | some error => (.error (.persistence error),s)
      | none => (f (s cell)).run serveStore (turnsFrom turns 1) s := by
  change run serveStore (ofExcept
    ((serveStore (turns 0) (.read cell) s).1.mapError MemoryError.persistence) >>= f)
      (turnsFrom turns 1) s = _
  cases hfailure : (turns 0).failure <;> simp only [serveStore, hfailure] <;> rfl

theorem run_commitCells_bind {operations : List (CellOp MemoryCell.Content)} {t : MemoryStore}
    {f : Unit → MemoryM β} (h : CellOp.commit s operations = .ok t) :
    (commitCells operations >>= f).run serveStore turns s = match (turns 0).failure with
      | some error => (.error (.persistence error),s)
      | none => (f ()).run serveStore (turnsFrom turns 1) t := by
  change run serveStore (ofExcept
    ((serveStore (turns 0) (.commit operations) s).1.mapError storeError) >>= f)
      (turnsFrom turns 1) (serveStore (turns 0) (.commit operations) s).2 = _
  cases hfailure : (turns 0).failure <;> simp only [serveStore, hfailure, committed, h] <;> rfl

@[simp] theorem turnsFrom_apply (n i : ℕ) : turnsFrom turns n i = turns (i + n) := rfl

@[simp] theorem turnsFrom_zero : turnsFrom turns 0 = turns := rfl

@[simp] theorem turnsFrom_turnsFrom (m n : ℕ) :
    turnsFrom (turnsFrom turns m) n = turnsFrom turns (n + m) := by
  funext i
  simp [Nat.add_assoc]

theorem run_readMemory_bind {missing : String} {f : MemoryRecord → MemoryM β} :
    (readMemory missing id >>= f).run serveStore turns s = match (turns 0).failure with
      | some error => (.error (.persistence error),s)
      | none => match s (.entry .record id) with
        | none => (.error (.missing (missing ++ id)),s)
        | some record => (f record).run serveStore (turnsFrom turns 1) s := by
  change run serveStore ((readCell (.entry .record id) >>= _) >>= f) turns s = _
  rw [bind_bind, run_readCell_bind]
  cases s (.entry .record id) <;> rfl

theorem run_readState_bind {record : MemoryRecord} {f : MemoryFreshnessRecord → MemoryM β} :
    (readState id record >>= f).run serveStore turns s = match (turns 0).failure with
      | some error => (.error (.persistence error),s)
      | none => (f (stateOf s id record)).run serveStore (turnsFrom turns 1) s := by
  change run serveStore ((readCell (.freshness id) >>= _) >>= f) turns s = _
  rw [bind_bind, run_readCell_bind]
  rfl

variable {entry : DependencyKey}

variable (turns) in
/-- A write fails in one of its requests, or it renews the memory. -/
theorem run_writeFreshnessWithEntry_bind {state : MemoryFreshnessRecord} {f : Unit → MemoryM β} :
    (∀ i < 3, (turns i).failure = none) ∧
      (writeFreshnessWithEntry id state entry >>= f).run serveStore turns s =
        (f ()).run serveStore (turnsFrom turns 3) (MemoryStore.renew s id state (some entry)) ∨
    (∃ i < 3, (turns i).failure ≠ none) ∧ ∃ e,
      (writeFreshnessWithEntry id state entry >>= f).run serveStore turns s = (.error e,s) := by
  unfold writeFreshnessWithEntry
  simp only [bind_bind]
  rw [run_readCell_bind]
  cases hfirst : (turns 0).failure with
  | some error => exact .inr ⟨⟨0,by simp [hfirst]⟩,_,rfl⟩
  | none =>
    dsimp only
    rw [run_readCell_bind, turnsFrom_apply]
    cases hsecond : (turns (0 + 1)).failure with
    | some error => exact .inr ⟨⟨1,by simp [hsecond]⟩,_,rfl⟩
    | none =>
      dsimp only
      have hcommit : CellOp.commit s [.assert (.freshness id) (s (.freshness id)),
          .assert .dependencies (s .dependencies),.put (.freshness id) state,
          .put .dependencies (addEntry id ((s .dependencies).getD .empty) entry)] =
            .ok (MemoryStore.renew s id state (some entry)) :=
        CellOp.commit_eq_ok.mpr ⟨⟨rfl,rfl,trivial,trivial,trivial⟩,rfl⟩
      rw [run_commitCells_bind hcommit]
      cases hthird : (turns 2).failure with
      | some error =>
        refine .inr ⟨⟨2,by simp [hthird]⟩,.persistence error,?_⟩
        simp [hthird]
      | none =>
        refine .inl ⟨fun i hi => ?_,by simp [hthird]⟩
        match i,hi with
        | 0,_ => exact hfirst
        | 1,_ => exact hsecond
        | 2,_ => exact hthird

variable (turns s id) in
/-- A turn fails, or it takes five requests and leaves the memory in conflict. -/
theorem run_conflictMemory_bind {f : Bool → MemoryM β} :
    Served turns s id ∧ (∃ isAffected, (conflictMemory dependency observedAt id >>= f).run
        serveStore turns s = (f isAffected).run serveStore (turnsFrom turns 5)
          (conflicted dependency observedAt s id)) ∨
    ¬ Served turns s id ∧ ∃ e, (conflictMemory dependency observedAt id >>= f).run
      serveStore turns s = (.error e,s) := by
  have hfails : ∀ i < 5, (turns i).failure ≠ none → ¬ Served turns s id :=
    fun i hi hfailure hserved => hfailure (hserved.2.2 i hi)
  unfold conflictMemory
  simp only [bind_bind]
  rw [run_check_bind]
  cases hkey : validateKey id with
  | error e => exact .inr ⟨fun hserved => (nomatch hkey.symm.trans hserved.1),e,rfl⟩
  | ok _ =>
    dsimp only
    rw [run_readMemory_bind]
    cases hfirst : (turns 0).failure with
    | some error => exact .inr ⟨hfails 0 (by omega) (by simp [hfirst]),_,rfl⟩
    | none =>
      cases hrecord : s (.entry .record id) with
      | none => exact .inr ⟨fun hserved => absurd hserved.2.1 (by simp [hrecord]),_,rfl⟩
      | some record =>
        dsimp only
        rw [run_readState_bind, turnsFrom_apply]
        cases hsecond : (turns (0 + 1)).failure with
        | some error => exact .inr ⟨hfails 1 (by omega) (by simp [hsecond]),_,rfl⟩
        | none =>
          dsimp only
          rw [turnsFrom_turnsFrom]
          rcases run_writeFreshnessWithEntry_bind (turnsFrom turns (1 + 1)) with
            ⟨hrest,hrun⟩ | ⟨⟨i,hi,hfailure⟩,e,hrun⟩
          · refine .inl ⟨⟨hkey,by simp [hrecord],fun i hi => ?_⟩,
              (stateOf s id record).freshness = .current,hrun.trans ?_⟩
            · match i,hi with
              | 0,_ => exact hfirst
              | 1,_ => exact hsecond
              | i + 2,hi => exact hrest i (by omega)
            · unfold conflicted
              rw [hrecord, turnsFrom_turnsFrom]
              rfl
          · exact .inr ⟨hfails (i + 2) (by omega) hfailure,e,hrun⟩

variable (dependency observedAt) in
/-- The store after the turns of some memories. -/
def conflictedAll (s : MemoryStore) (ids : List String) : MemoryStore :=
  runAll (conflicted dependency observedAt) s ids

@[simp] theorem conflicted_entry (c : MemoryCollection) (k : String) :
    conflicted dependency observedAt s id (.entry c k) = s (.entry c k) := by
  unfold conflicted
  cases s (.entry .record id) with
  | none => rfl
  | some record => exact renew_entry c k

variable {k : String}

theorem served_conflicted :
    Served turns (conflicted dependency observedAt s id) k ↔ Served turns s k := by
  rw [Served, conflicted_entry, Served]

/-- The first of the memories whose turn fails. -/
def FailsAt (turns : MemoryCall.Turns) (s : MemoryStore) (ids : List String) (last : ℕ) : Prop :=
  (∃ id, ids[last]? = some id ∧ ¬ Served (turnsFrom turns (5 * last)) s id) ∧
    ∀ i < last, ∀ id, ids[i]? = some id → Served (turnsFrom turns (5 * i)) s id

variable {ids : List String}

theorem failsAt_cons_zero : FailsAt turns s (id :: ids) 0 ↔ ¬ Served turns s id := by
  simp [FailsAt]

theorem failsAt_cons_succ {last : ℕ} : FailsAt turns s (id :: ids) (last + 1) ↔
    Served turns s id ∧
      FailsAt (turnsFrom turns 5) (conflicted dependency observedAt s id) ids last := by
  have hstart : turnsFrom turns (5 * 0) = turns := rfl
  simp only [FailsAt, List.getElem?_cons_succ, turnsFrom_turnsFrom, served_conflicted]
  constructor
  · rintro ⟨hlast,hbefore⟩
    exact ⟨hstart ▸ hbefore 0 (by omega) id rfl,hlast,
      fun i hi k hk => hbefore (i + 1) (by omega) k hk⟩
  · rintro ⟨hfirst,hlast,hbefore⟩
    refine ⟨hlast,fun i hi k hk => ?_⟩
    cases i with
    | zero =>
      cases hk
      exact hstart ▸ hfirst
    | succ i => exact hbefore i (by omega) k hk

/-- A result that is made from that of a program. -/
theorem run_bind_pure {p : MemoryM α} {g : α → β} :
    (p >>= fun a => pure (g a)).run serveStore turns s =
      ((p.run serveStore turns s).1.map g,(p.run serveStore turns s).2) := by
  induction p generalizing turns s with
  | done result => cases result <;> rfl
  | request r next ih => exact ih _

variable (dependency observedAt turns s) in
/-- The loop goes through, or it fails after the turns before the one that fails. -/
theorem run_conflictMemories (ids : List String) :
    (∃ affected, (conflictMemories dependency observedAt ids).run serveStore turns s =
        (.ok affected,conflictedAll dependency observedAt s ids)) ∧
      (∀ last, ¬ FailsAt turns s ids last) ∨
    ∃ last, FailsAt turns s ids last ∧ ∃ e,
      (conflictMemories dependency observedAt ids).run serveStore turns s =
        (.error e,conflictedAll dependency observedAt s (ids.take last)) := by
  induction ids generalizing turns s with
  | nil => exact .inl ⟨⟨[],rfl⟩,fun last h => by simp [FailsAt] at h⟩
  | cons id ids ih =>
    rw [conflictMemories]
    rcases run_conflictMemory_bind s turns id with
      ⟨hserved,isAffected,hrun⟩ | ⟨hunserved,e,hrun⟩
    · rw [hrun, run_bind_pure]
      rcases @ih (conflicted dependency observedAt s id) (turnsFrom turns 5) with
        ⟨⟨affected,hrest⟩,hnone⟩ | ⟨last,hfails,e,hrest⟩
      · refine .inl ⟨⟨_,by rw [hrest]; rfl⟩,fun last hfails => ?_⟩
        cases last with
        | zero => exact failsAt_cons_zero.mp hfails hserved
        | succ last => exact hnone last (failsAt_cons_succ.mp hfails).2
      · refine .inr ⟨last + 1,failsAt_cons_succ.mpr ⟨hserved,hfails⟩,e,?_⟩
        rw [hrest]
        rfl
    · exact .inr ⟨0,failsAt_cons_zero.mpr hunserved,e,hrun⟩

variable (dependency observedAt) in
theorem conflicted_of_some {record : MemoryRecord} (h : s (.entry .record id) = some record) :
    conflicted dependency observedAt s id = MemoryStore.renew s id
      (((stateOf s id record).withDependency dependency).questioned observedAt)
      (some (dependencyKey dependency.service dependency.resource)) := by
  rw [conflicted, h]

theorem conflicted_freshness_of_ne (h : k ≠ id) :
    conflicted dependency observedAt s id (.freshness k) = s (.freshness k) := by
  unfold conflicted
  cases s (.entry .record id) with
  | none => rfl
  | some record => exact renew_freshness_of_ne h

theorem mem_ids_conflicted (h : k ∈ (dependenciesOf s).ids entry) :
    k ∈ (dependenciesOf (conflicted dependency observedAt s id)).ids entry := by
  unfold conflicted
  cases s (.entry .record id) with
  | none => exact h
  | some record =>
    exact mem_ids_addEntry.mpr (.inl h)

/-- What the turns leave of a memory that is none of theirs. -/
theorem conflictedAll_freshness_of_notMem (hk : k ∉ ids) :
    conflictedAll dependency observedAt s ids (.freshness k) = s (.freshness k) := by
  induction ids generalizing s with
  | nil => rfl
  | cons id ids ih =>
    rw [List.mem_cons, not_or] at hk
    exact (ih hk.2).trans (conflicted_freshness_of_ne hk.1)

theorem mem_ids_conflictedAll (h : k ∈ (dependenciesOf s).ids entry) :
    k ∈ (dependenciesOf (conflictedAll dependency observedAt s ids)).ids entry := by
  induction ids generalizing s with
  | nil => exact h
  | cons id ids ih => exact ih (mem_ids_conflicted h)

variable (dependency observedAt) in
/-- The turn of a memory leaves it in conflict, and the later turns do not change that. -/
theorem conflictedAll_of_mem (hnodup : ids.Nodup) {record : MemoryRecord} (hk : k ∈ ids)
    (hrecord : s (.entry .record k) = some record) :
    conflictedAll dependency observedAt s ids (.freshness k) =
        some (((stateOf s k record).withDependency dependency).questioned observedAt) ∧
      k ∈ (dependenciesOf (conflictedAll dependency observedAt s ids)).ids
        (dependencyKey dependency.service dependency.resource) := by
  induction ids generalizing s with
  | nil => cases hk
  | cons id ids ih =>
    obtain ⟨hfirst,hrest⟩ := List.nodup_cons.mp hnodup
    change conflictedAll dependency observedAt (conflicted dependency observedAt s id) ids _ = _ ∧
      k ∈ (dependenciesOf (conflictedAll dependency observedAt
        (conflicted dependency observedAt s id) ids)).ids _
    by_cases hid : k = id
    · subst hid
      rw [conflictedAll_freshness_of_notMem hfirst]
      have hturn := conflicted_of_some dependency observedAt hrecord
      constructor
      · rw [hturn, renew_freshness_self]
      · apply mem_ids_conflictedAll
        rw [hturn, dependenciesOf_renew]
        exact mem_ids_addEntry.mpr (.inr ⟨rfl,rfl⟩)
    · have hlater := (List.mem_cons.mp hk).resolve_left hid
      have hstate : stateOf (conflicted dependency observedAt s id) k record = stateOf s k record := by
        rw [stateOf, conflicted_freshness_of_ne hid, stateOf]
      rw [← hstate]
      exact ih hrest hlater (by rwa [conflicted_entry])

theorem DependencyIndex.addEntry_of_mem {index : DependencyIndex} (h : id ∈ index.ids entry) :
    index.addEntry id entry = index := by
  rw [addEntry, if_pos h]
  apply BTreeMap.insert_of_get?
  unfold ids at h ⊢
  cases hget : index.get? entry with
  | none => simp [hget] at h
  | some ids => rfl

/-- A turn that disturbs nothing leaves the store as it was. -/
theorem conflicted_of_not_disturbs (h : ¬ Disturbs dependency observedAt s id) :
    conflicted dependency observedAt s id = s := by
  cases hrecord : s (.entry .record id) with
  | none => rw [conflicted, hrecord]
  | some record =>
    have hkept : s (.freshness id) =
        some (((stateOf s id record).withDependency dependency).questioned observedAt) ∧
        id ∈ (dependenciesOf s).ids (dependencyKey dependency.service dependency.resource) := by
      by_contra hnot
      exact h ⟨record,hrecord,not_and_or.mp hnot⟩
    have hindex : s .dependencies = some (dependenciesOf s) := by
      unfold dependenciesOf at hkept ⊢
      cases hcell : s .dependencies with
      | none => simp [hcell, ids, BTreeMap.get?_empty] at hkept
      | some index => rfl
    rw [conflicted_of_some dependency observedAt hrecord, MemoryStore.renew, ← hkept.1, Function.update_eq_self,
      addEntry_of_mem hkept.2, ← hindex, Function.update_eq_self]

theorem conflictedAll_eq_self (hnodup : ids.Nodup) : conflictedAll dependency observedAt s ids = s ↔
      ∀ id ∈ ids, ¬ Disturbs dependency observedAt s id := by
  constructor
  · rintro hsame id hid ⟨record,hrecord,hdisturbs⟩
    obtain ⟨hstate,hindex⟩ := conflictedAll_of_mem dependency observedAt
      hnodup hid hrecord
    rw [hsame] at hstate hindex
    exact hdisturbs.elim (fun h => h hstate) fun h => h hindex
  · intro h
    induction ids with
    | nil => rfl
    | cons id ids ih =>
      change conflictedAll dependency observedAt (conflicted dependency observedAt s id) ids = s
      rw [conflicted_of_not_disturbs (h id List.mem_cons_self)]
      exact ih (List.nodup_cons.mp hnodup).2 fun k hk => h k (List.mem_cons_of_mem id hk)

/-- A turn fails after an earlier one has disturbed something. -/
def Breaks (dependency : MemoryDependencyRevision) (observedAt : U64) (turns : MemoryCall.Turns)
    (s : MemoryStore) (ids : List String) : Prop :=
  ∃ last, FailsAt turns s ids last ∧ ∃ first < last, ∃ id, ids[first]? = some id ∧
    Disturbs dependency observedAt s id

theorem conflictMemories_unchanged (hnodup : ids.Nodup) :
    (∀ e t, (conflictMemories dependency observedAt ids).run serveStore turns s = (.error e,t) →
      t = s) ↔ ¬ Breaks dependency observedAt turns s ids := by
  have htake : ∀ last, conflictedAll dependency observedAt s (ids.take last) = s ↔
      ∀ first < last, ∀ id, ids[first]? = some id → ¬ Disturbs dependency observedAt s id := by
    intro last
    rw [conflictedAll_eq_self (hnodup.sublist (List.take_sublist _ _))]
    simp only [List.mem_iff_getElem?, List.getElem?_take, forall_exists_index]
    constructor
    · exact fun h first hfirst id hid => h id first (by rwa [if_pos hfirst])
    · intro h id first hid
      split_ifs at hid with hfirst
      exact h first hfirst id hid
  rcases run_conflictMemories s dependency observedAt turns ids with ⟨⟨affected,hrun⟩,hnone⟩ | ⟨last,hfails,error,hrun⟩
  · refine iff_of_true (fun e t h => ?_) fun ⟨last,hfails,_⟩ => hnone last hfails
    cases hrun.symm.trans h
  · have hunique : ∀ other, FailsAt turns s ids other → other = last := by
      rintro other ⟨⟨id,hid,hunserved⟩,hbefore⟩
      obtain ⟨⟨id',hid',hunserved'⟩,hbefore'⟩ := hfails
      rcases lt_trichotomy other last with hlt | heq | hlt
      · exact absurd (hbefore' other hlt id hid) hunserved
      · exact heq
      · exact absurd (hbefore last hlt id' hid') hunserved'
    constructor
    · rintro h ⟨other,hother,first,hfirst,id,hid,hdisturbs⟩
      obtain rfl := hunique other hother
      exact (htake other).mp (h error _ hrun) first hfirst id hid hdisturbs
    · intro h e t ht
      cases hrun.symm.trans ht
      refine (htake last).mpr fun first hfirst id hid hdisturbs => ?_
      exact h ⟨last,hfails,first,hfirst,id,hid,hdisturbs⟩

end Loop

/-! ## Commands that fail -/

/-- The commands that change memories as a whole. -/
def MemoryCommand.Writes : MemoryCommand → Prop
  | record _ | consolidate _ | observeConflict .. | bindCanonicalReference .. => True
  | «recall» _ | observeRevision .. | revalidate .. | promote .. => False

/-- The command is well formed, and one of its turns fails after an earlier one has disturbed
something. -/
def MemoryCommand.Interrupted (turns : MemoryCall.Turns) (s : MemoryStore) : MemoryCommand → Prop
  | observeConflict source affectedIds observedAt =>
    (affectedIds ≠ [] ∧ affectedIds.length ≤ 100 ∧
      (sortDedup affectedIds).length = affectedIds.length ∧ source.validate = .ok ()) ∧
    Breaks source.dependency observedAt turns s (sortDedup affectedIds)
  | _ => False

/-- Where the command fails, nothing in the store has changed. -/
def Unchanged (library : MemoryLibrary) (command : MemoryCommand) (turns : MemoryCall.Turns)
    (s : MemoryStore) : Prop :=
  ∀ e t, (command.handle library).run serveStore turns s = (.error e,t) → t = s

section Failing
variable {library : MemoryLibrary} {turns : MemoryCall.Turns}

theorem Spares.unchanged {p : MemoryM α} {f : α → MemoryResponse} (h : Spares s p s) :
    ∀ e t, (f <$> p).run serveStore turns s = (.error e,t) → t = s := by
  intro e t ht
  have hmap : Spares s (f <$> p) s := spares_bind_pure h
  have hrun := @Script.Ensures.run _ _ _ _ _ _ _ _ _ _ _ _ hmap turns fun _ => trivial
  rw [ht] at hrun
  exact hrun e rfl

theorem run_observeConflict (source : MemorySourceReference) (affectedIds : List String)
    (observedAt : U64) :
    (affectedIds ≠ [] ∧ affectedIds.length ≤ 100 ∧
        (sortDedup affectedIds).length = affectedIds.length ∧ source.validate = .ok ()) ∧
      observeConflict source affectedIds observedAt =
        conflictMemories source.dependency observedAt (sortDedup affectedIds) ∨
    ¬ (affectedIds ≠ [] ∧ affectedIds.length ≤ 100 ∧
        (sortDedup affectedIds).length = affectedIds.length ∧ source.validate = .ok ()) ∧
      ∃ e, observeConflict source affectedIds observedAt = fail e := by
  unfold observeConflict ensure
  by_cases hcount : affectedIds ≠ [] ∧ affectedIds.length ≤ 100
  · rw [if_pos hcount]
    by_cases hdistinct : (sortDedup affectedIds).length = affectedIds.length
    · cases hsource : source.validate with
      | ok _ =>
        refine .inl ⟨⟨hcount.1,hcount.2,hdistinct,rfl⟩,?_⟩
        dsimp only
        rw [if_pos hdistinct]
        rfl
      | error e =>
        refine .inr ⟨fun h => (nomatch h.2.2.2),e,?_⟩
        dsimp only
        rw [if_pos hdistinct]
        rfl
    · refine .inr ⟨fun h => hdistinct h.2.2.1,
        .invalid "conflicting evidence requires distinct affected memories",?_⟩
      dsimp only
      rw [if_neg hdistinct]
      rfl
  · refine .inr ⟨fun h => hcount ⟨h.1,h.2.1⟩,
      .invalid "conflicting evidence must affect between 1 and 100 memories",?_⟩
    rw [if_neg hcount]
    rfl

theorem observeConflict_unchanged (source : MemorySourceReference) (affectedIds : List String)
    (observedAt : U64) :
    Unchanged library (.observeConflict source affectedIds observedAt) turns s ↔
      ¬ (MemoryCommand.observeConflict source affectedIds observedAt).Interrupted turns s := by
  have hresult : Unchanged library (.observeConflict source affectedIds observedAt) turns s ↔
      ∀ e t, (observeConflict source affectedIds observedAt).run serveStore turns s = (.error e,t) →
        t = s := by
    have hmap : ((MemoryCommand.observeConflict source affectedIds observedAt).handle library).run
        serveStore turns s = (((observeConflict source affectedIds observedAt).run
          serveStore turns s).1.map MemoryResponse.affected,
            ((observeConflict source affectedIds observedAt).run serveStore turns s).2) :=
      run_bind_pure
    unfold Unchanged
    rw [hmap]
    cases (observeConflict source affectedIds observedAt).run serveStore turns s with
    | mk result t => cases result <;> simp [Except.map]
  rw [hresult, MemoryCommand.Interrupted]
  rcases run_observeConflict source affectedIds observedAt with ⟨hchecks,hrun⟩ | ⟨hchecks,e,hrun⟩
  · have hnodup : (sortDedup affectedIds).Nodup := BTreeMap.nodup_keys _
    rw [hrun, conflictMemories_unchanged hnodup, and_iff_right hchecks]
  · refine iff_of_true (fun error t ht => ?_) fun h => hchecks h.1
    rw [hrun] at ht
    cases ht
    rfl

end Failing

/-- A command that fails leaves the store as it was, if and only if it is not a conflict that
fails at a later memory than one that it has disturbed. -/
theorem unchanged_iff {library : MemoryLibrary} {command : MemoryCommand} {turns : MemoryCall.Turns}
    {s : MemoryStore} (hwrites : command.Writes) :
    Unchanged library command turns s ↔ ¬ command.Interrupted turns s := by
  cases command with
  | record memory => exact iff_of_true (spares_recordMemory memory).unchanged id
  | consolidate request => exact iff_of_true (spares_consolidateMemory request).unchanged id
  | bindCanonicalReference id reference observedAt =>
    exact iff_of_true (spares_bindCanonicalReference id reference observedAt).unchanged fun h => h
  | observeConflict source affectedIds observedAt =>
    exact observeConflict_unchanged source affectedIds observedAt
  | «recall» | observeRevision | revalidate | promote => cases hwrites

theorem unchanged_guide : Unchanged plainLibrary (.record (guideMemory "first")) plainTurns
    (afterHistory plainLibrary guideHistory) ↔
      ¬ (MemoryCommand.record (guideMemory "first")).Interrupted plainTurns
        (afterHistory plainLibrary guideHistory) :=
  unchanged_iff trivial

/-- Evidence against a guide and a memory that is not stored. -/
def strayConflict : MemoryCommand :=
  .observeConflict ⟨guideService,"errata",none,none⟩ ["first","missing"] 20

/-- The second memory is missing, and the first one is in conflict. -/
theorem stray_conflict_left : ((strayConflict.handle plainLibrary).run serveStore plainTurns
      (afterHistory plainLibrary guideHistory)).1 = .error (.missing "memory missing") ∧
    ¬ Unchanged plainLibrary strayConflict plainTurns (afterHistory plainLibrary guideHistory) := by
  have herror : ((strayConflict.handle plainLibrary).run serveStore plainTurns
      (afterHistory plainLibrary guideHistory)).1 = .error (.missing "memory missing") := by
    decide +kernel
  have hchanged : ((strayConflict.handle plainLibrary).run serveStore plainTurns
      (afterHistory plainLibrary guideHistory)).2 (.freshness "first") ≠
        afterHistory plainLibrary guideHistory (.freshness "first") := by
    decide +kernel
  refine ⟨herror,fun h => ?_⟩
  unfold Unchanged at h
  generalize (strayConflict.handle plainLibrary).run serveStore plainTurns
    (afterHistory plainLibrary guideHistory) = outcome at herror hchanged h
  exact hchanged (congrFun (h _ outcome.2 (Prod.ext herror rfl)) _)

end PhenixConductor.Memory
