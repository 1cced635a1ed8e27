import PhenixConductor.Application.Journal

/-! # The projection and its registered value

A call of the store changes the reducer and the registered value together or leaves both.
-/
namespace PhenixConductor.Application
open Collections Contract Client
open Execution (U64)
open Observable (Failure)

variable {D R H : Type}

/-! ## One call -/

/-- The value that is registered is that of the reducer. -/
structure Agrees (toValue : SessionProjectionState D R → PhenixValue)
    (held : SessionProjectionStore D R H) : Prop where
  usable : held.store.poisoned = false
  current : held.store.state.current sessionProjectionValueId = some (toValue held.reducer)

/-- A call has changed the reducer, or it has failed and left it. -/
inductive Committed (toValue : SessionProjectionState D R → PhenixValue)
    (mutate : SessionProjectionState D R →
      Except SessionProjectionError (SessionProjectionState D R))
    (held : SessionProjectionStore D R H) :
    EStateM.Result (Failure SessionProjectionStoreError) (SessionProjectionStore D R H) Unit → Prop
  | done {next : SessionProjectionStore D R H} (agrees : Agrees toValue next)
      (reducer : mutate held.reducer = .ok next.reducer) : Committed toValue mutate held (.ok () next)
  | kept {next : SessionProjectionStore D R H} (failure : Failure SessionProjectionStoreError)
      (agrees : Agrees toValue next) (reducer : next.reducer = held.reducer) :
      Committed toValue mutate held (.error failure next)

section Commit
variable {toValue : SessionProjectionState D R → PhenixValue} {held next : SessionProjectionStore D R H}
  {mutate : SessionProjectionState D R → Except SessionProjectionError (SessionProjectionState D R)}

theorem commit_committed (h : Agrees toValue held) (mutate : SessionProjectionState D R →
    Except SessionProjectionError (SessionProjectionState D R)) :
    Committed toValue mutate held (commit toValue mutate held) := by
  unfold commit
  cases hmutate : mutate held.reducer with
  | error error => exact .kept _ h rfl
  | ok reducer =>
    have houtcome := held.store.transaction_replaceRoot h.usable sessionProjectionValueId
      (toValue reducer)
    dsimp only
    generalize held.store.transaction [sessionProjectionValueId]
      (Observable.replaceRoot sessionProjectionValueId (toValue reducer)) = committed at houtcome ⊢
    obtain ⟨store,answer,deliveries⟩ := committed
    cases houtcome with
    | put current => exact .done ⟨rfl,current⟩ hmutate
    | kept error current => exact .kept _ ⟨rfl,current.trans h.current⟩ rfl

/-- Whatever a call answers, the registered value is that of the reducer. -/
theorem agrees_commit (h : Agrees toValue held) (mutate : SessionProjectionState D R →
    Except SessionProjectionError (SessionProjectionState D R)) :
    Agrees toValue (after (commit toValue mutate) held) := by
  have houtcome := commit_committed h mutate
  unfold after
  generalize commit toValue mutate held = result at houtcome ⊢
  cases houtcome with
  | done agrees => exact agrees
  | kept failure agrees => exact agrees

theorem commit_eq_ok (hok : commit toValue mutate held = .ok () next) :
    mutate held.reducer = .ok next.reducer := by
  unfold commit at hok
  cases hmutate : mutate held.reducer with
  | error error => simp [hmutate] at hok
  | ok reducer =>
    simp only [hmutate] at hok
    split at hok
    · cases hok
      rfl
    · cases hok

/-- What the reducer is after a call. -/
theorem reducer_commit (h : Agrees toValue held) (mutate : SessionProjectionState D R →
    Except SessionProjectionError (SessionProjectionState D R)) :
    (after (commit toValue mutate) held).reducer = held.reducer ∨
      mutate held.reducer = .ok (after (commit toValue mutate) held).reducer := by
  have houtcome := commit_committed h mutate
  unfold after
  generalize commit toValue mutate held = result at houtcome ⊢
  cases houtcome with
  | done agrees reducer => exact .inr reducer
  | kept failure agrees reducer => exact .inl reducer

end Commit

/-! ## Calls of the store -/

inductive ProjectionCall (D R : Type)
  | insertCreated (session : SessionInfo)
  | replaceSnapshot (snapshot : SessionSnapshot D R)
  | applyUpdate (update : SessionUpdate D R)
  | repairWithSnapshot (snapshot : SessionSnapshot D R) (buffered : List (SessionUpdate D R))

section Calls
variable (toValue : SessionProjectionState D R → PhenixValue)

def callProjection : ProjectionCall D R → ProjectionM D R H Unit
  | .insertCreated session => insertCreated toValue session
  | .replaceSnapshot snapshot => replaceSnapshot toValue snapshot
  | .applyUpdate update => applyUpdate toValue update
  | .repairWithSnapshot snapshot buffered => repairWithSnapshot toValue snapshot buffered

variable {held : SessionProjectionStore D R H}

theorem agrees_applyBuffered (sessionId : SessionId) (update : SessionUpdate D R)
    (h : Agrees toValue held) :
    Agrees toValue (after (applyBuffered toValue sessionId update) held) := by
  unfold applyBuffered
  split_ifs with hother
  · exact h
  · refine after_bind_invariant h fun found reached hget hreached => ?_
    cases hget
    cases held.reducer.get? sessionId with
    | none => exact h
    | some projection =>
      dsimp only
      split_ifs
      · exact h
      · exact agrees_commit h _

/-- A call of the store, whether it fails or not, leaves the reducer and the value equal. -/
theorem agrees_callProjection (call : ProjectionCall D R) (h : Agrees toValue held) :
    Agrees toValue (after (callProjection toValue call) held) := by
  cases call with
  | insertCreated session => exact agrees_commit h fun reducer => .ok (reducer.insertCreated session)
  | replaceSnapshot snapshot =>
    exact agrees_commit h fun reducer => .ok (reducer.replaceSnapshot snapshot)
  | applyUpdate update => exact agrees_commit h fun reducer => reducer.applyUpdate update
  | repairWithSnapshot snapshot buffered =>
    exact after_bind_invariant (agrees_commit h _) fun _ reached _ hreached =>
      after_forM_invariant (fun update _ held hheld =>
        agrees_applyBuffered toValue _ update hheld) hreached

end Calls

/-! ## The reducer -/

theorem get?_put (self : SessionProjectionState D R) (id j : SessionId)
    (projection : SessionProjection D R) :
    (self.put id projection).get? j = if j = id then some projection else self.get? j := by
  unfold SessionProjectionState.put SessionProjectionState.get?
  rw [BTreeMap.get?_insert]
  by_cases hj : j = id
  · rw [hj, if_pos rfl, if_pos rfl]
  · rw [if_neg hj, if_neg fun htext => hj (Identifier.text_injective htext)]

theorem applyUpdate_eq_ok {self next : SessionProjectionState D R} {update : SessionUpdate D R}
    (h : self.applyUpdate update = .ok next) : ∃ projection,
      self.get? update.sessionId = some projection ∧
        update.sequence = projection.throughSequence + 1 ∧
        next = self.put update.sessionId (projection.applied update) := by
  unfold SessionProjectionState.applyUpdate at h
  cases hget : self.get? update.sessionId with
  | none => simp [hget] at h
  | some projection =>
    simp only [hget] at h
    split_ifs at h with hsequence
    cases h
    exact ⟨projection,rfl,not_not.mp hsequence,rfl⟩

/-! ## Repair -/

/-- Buffered updates of a session that is projected up to a number: the suffix in order, and
in between updates that are covered already. -/
inductive Buffers (id : SessionId) :
    U64 → List (SessionUpdate D R) → List (SessionUpdate D R) → Prop
  | nil (through : U64) : Buffers id through [] []
  | covered {through : U64} {suffix buffered : List (SessionUpdate D R)}
      {update : SessionUpdate D R} (session : update.sessionId = id)
      (old : update.sequence ≤ through) (rest : Buffers id through suffix buffered) :
      Buffers id through suffix (update :: buffered)
  | next {through : U64} {suffix buffered : List (SessionUpdate D R)}
      {update : SessionUpdate D R} (session : update.sessionId = id)
      (sequence : update.sequence.val = through.val + 1)
      (rest : Buffers id update.sequence suffix buffered) :
      Buffers id through (update :: suffix) (update :: buffered)

section Repair
variable {toValue : SessionProjectionState D R → PhenixValue} {id : SessionId}

variable {suffix buffered : List (SessionUpdate D R)}

theorem forM_applyBuffered {through : U64} (h : Buffers id through suffix buffered)
    (held : SessionProjectionStore D R H)
    (hthrough : ∃ projection, held.reducer.get? id = some projection ∧ projection.throughSequence = through) :
    buffered.forM (applyBuffered toValue id) held = suffix.forM (applyUpdate toValue) held := by
  induction h generalizing held with
  | nil through => rfl
  | @covered through suffix buffered update session old rest ih =>
    obtain ⟨projection,hget,rfl⟩ := hthrough
    have hskip : applyBuffered toValue id update held = .ok () held := by
      simp [applyBuffered, session, stateful_bind, hget, old]
    exact (stateful_bind_ok hskip).trans (ih held ⟨projection,hget,rfl⟩)
  | @next through suffix buffered update session sequence rest ih =>
    obtain ⟨projection,hget,rfl⟩ := hthrough
    have hnew : ¬update.sequence ≤ projection.throughSequence := by
      rw [Fin.le_def]
      omega
    have hsame : applyBuffered toValue id update held = applyUpdate toValue update held := by
      simp [applyBuffered, session, stateful_bind, hget, hnew]
    change (applyBuffered toValue id update >>= fun _ => buffered.forM (applyBuffered toValue id)) held =
      (applyUpdate toValue update >>= fun _ => suffix.forM (applyUpdate toValue)) held
    rw [stateful_bind, stateful_bind, hsame]
    cases happly : applyUpdate toValue update held with
    | error failure next => rfl
    | ok _ next =>
      obtain ⟨found,hfound,-,hnext⟩ := applyUpdate_eq_ok (commit_eq_ok happly)
      refine ih next ⟨found.applied update,?_,rfl⟩
      rw [hnext, get?_put, if_pos session.symm]

/-- A repair does what the snapshot and the suffix do after it. -/
theorem repairWithSnapshot_eq {snapshot : SessionSnapshot D R}
    (h : Buffers snapshot.session.sessionId snapshot.throughSequence suffix buffered)
    (held : SessionProjectionStore D R H) : repairWithSnapshot toValue snapshot buffered held =
      (replaceSnapshot toValue snapshot >>= fun _ => suffix.forM (applyUpdate toValue)) held := by
  unfold repairWithSnapshot
  rw [stateful_bind, stateful_bind]
  cases hreplace : replaceSnapshot toValue snapshot held with
  | error failure next => rfl
  | ok _ next =>
    have hnext := commit_eq_ok hreplace
    simp only [Except.ok.injEq] at hnext
    refine forM_applyBuffered h next
      ⟨⟨snapshot.session,snapshot.throughSequence,snapshot.updates⟩,?_,rfl⟩
    rw [← hnext, SessionProjectionState.replaceSnapshot, get?_put, if_pos rfl]

end Repair

/-! ## Projections and journals -/

/-- Every projection that is held is the beginning of its journal, up to its number. -/
def Held (sessions : SessionStore (SessionChange D R)) (reducer : SessionProjectionState D R) :
    Prop :=
  ∀ id projection, reducer.get? id = some projection →
    projection.updates <+: sessions.updates id ∧
      projection.throughSequence.val = projection.updates.length

/-- The projection of a session is up to date. -/
def UpToDate (sessions : SessionStore (SessionChange D R)) (reducer : SessionProjectionState D R)
    (id : SessionId) : Prop :=
  ∃ projection, reducer.get? id = some projection ∧
    projection.throughSequence.val = (sessions.entries id).length

section Held
variable {sessions next : SessionStore (SessionChange D R)} {reducer : SessionProjectionState D R}

theorem Held.grows (h : Held sessions reducer) (hgrows : Grows sessions next) :
    Held next reducer := by
  intro id projection hget
  obtain ⟨hpart,hthrough⟩ := h id projection hget
  exact ⟨hpart.trans (isPrefix_updates hgrows id),hthrough⟩

variable {id : SessionId}

theorem Held.put (h : Held sessions reducer) {projection : SessionProjection D R}
    (hpart : projection.updates <+: sessions.updates id)
    (hthrough : projection.throughSequence.val = projection.updates.length) :
    Held sessions (reducer.put id projection) := by
  intro j found hget
  rw [get?_put] at hget
  split_ifs at hget with hj
  · cases hget
    exact hj ▸ ⟨hpart,hthrough⟩
  · exact h j found hget

theorem Held.insertCreated (h : Held sessions reducer) (session : SessionInfo) :
    Held sessions (reducer.insertCreated session) := h.put List.nil_prefix rfl

variable {snapshot : SessionSnapshot D R}

theorem Whole.length (h : Whole sessions id snapshot) :
    snapshot.throughSequence.val = snapshot.updates.length := by
  rw [h.through, h.updates, SessionStore.updates, List.length_map]

theorem Held.replaceSnapshot (h : Held sessions reducer) (hwhole : Whole sessions id snapshot) :
    Held sessions (reducer.replaceSnapshot snapshot) := by
  refine h.put ?_ hwhole.length
  rw [hwhole.session, hwhole.updates]

theorem upToDate_replaceSnapshot (hwhole : Whole sessions id snapshot) :
    UpToDate sessions (reducer.replaceSnapshot snapshot) id := by
  refine ⟨⟨snapshot.session,snapshot.throughSequence,snapshot.updates⟩,?_,hwhole.through⟩
  rw [SessionProjectionState.replaceSnapshot, get?_put, if_pos hwhole.session.symm]

/-- An update of the journal that fits is the next one. -/
theorem Held.applyUpdate (h : Held sessions reducer) (hnumbered : Numbered sessions)
    {update : SessionUpdate D R} (hmem : update ∈ sessions.updates update.sessionId)
    {next : SessionProjectionState D R} (hok : reducer.applyUpdate update = .ok next) :
    Held sessions next := by
  obtain ⟨projection,hget,hsequence,rfl⟩ := applyUpdate_eq_ok hok
  obtain ⟨⟨rest,hrest⟩,hthrough⟩ := h _ projection hget
  obtain ⟨i,hi⟩ := List.mem_iff_getElem?.mp hmem
  have hnumber : update.sequence.val = i + 1 := by
    rw [SessionStore.updates, List.getElem?_map, Option.map_eq_some_iff] at hi
    obtain ⟨entry,hentry,hupdate⟩ := hi
    rw [← hupdate]
    exact hnumbered.getElem hentry
  have hindex : i = projection.updates.length := by
    have hval := congrArg Fin.val hsequence
    have hbound := update.sequence.isLt
    rw [Fin.val_add, hnumber] at hval
    change i + 1 = (projection.throughSequence.val + 1) % 2 ^ 64 at hval
    omega
  have hnext : rest[0]? = some update := by
    rw [← hrest, List.getElem?_append_right (Nat.le_of_eq hindex.symm), hindex, Nat.sub_self] at hi
    exact hi
  obtain ⟨tail,rfl⟩ : ∃ tail, rest = update :: tail := by
    cases rest with
    | nil => simp at hnext
    | cons first tail =>
      rw [List.getElem?_cons_zero, Option.some_inj] at hnext
      exact ⟨tail,by rw [hnext]⟩
  refine h.put ⟨tail,?_⟩ ?_
  · rw [← hrest]
    simp [SessionProjection.applied]
  · simp only [SessionProjection.applied, List.length_append, List.length_singleton]
    rw [hnumber, hindex]

end Held

end PhenixConductor.Application
