import PhenixConductor.Memory.Steps

/-! # Commands take steps

Alone on the store, a command sees what it has read until it commits.
-/
namespace PhenixConductor.Memory
open Collections Contract MemoryStore MemoryFreshnessRecord CellOp
open MemoryCall (Reply)
open Execution (U64 U32)

section Rules
variable {α β : Type} {allowed : StoreTurn Reply → Prop}
  {guarantee : MemoryStore → MemoryStore → Prop} {post : β → MemoryStore → Prop}
  {s : MemoryStore}

/-- The program changes the store as guaranteed, and ends as told where it succeeds. -/
structure Changes (allowed : StoreTurn MemoryCall.Reply → Prop)
    (guarantee : MemoryStore → MemoryStore → Prop) (post : α → MemoryStore → Prop)
    (p : MemoryM α) (s : MemoryStore) : Prop where
  ensures : Script.Ensures serveStore allowed guarantee
    (fun result t => ∀ a, result = .ok a → post a t) p s

theorem changes_pure {b : β} (h : post b s) : Changes allowed guarantee post (pure b) s := by
  constructor
  rintro a ⟨⟩
  exact h

theorem changes_fail {e : MemoryError} :
    Changes allowed guarantee post (Script.fail e) s := ⟨nofun⟩

variable {f : α → MemoryM β}

theorem changes_bind {p : MemoryM α}
    (h : Changes allowed guarantee (fun a t => Changes allowed guarantee post (f a) t) p s) :
    Changes allowed guarantee post (p >>= f) s := by
  refine ⟨Script.ensures_bind.mpr (h.ensures.mono (fun _ _ h => h) ?_)⟩
  rintro (e | a) t ht
  · exact nofun
  · exact (ht a rfl).ensures

theorem Changes.mono {post' : β → MemoryStore → Prop} {p : MemoryM β}
    (h : Changes allowed guarantee post p s) (hpost : ∀ b t, post b t → post' b t) :
    Changes allowed guarantee post' p s :=
  ⟨h.ensures.mono (fun _ _ h => h) fun _ t ht a ha => hpost a t (ht a ha)⟩

theorem Changes.weaken {guarantee' : MemoryStore → MemoryStore → Prop} {p : MemoryM β}
    (h : Changes allowed guarantee post p s) (hguarantee : ∀ s t, guarantee s t → guarantee' s t) :
    Changes allowed guarantee' post p s :=
  ⟨h.ensures.mono hguarantee fun _ _ h => h⟩

theorem changes_map {p : MemoryM α} {f : α → β}
    (h : Changes allowed guarantee (fun a t => post (f a) t) p s) :
    Changes allowed guarantee post (f <$> p) s :=
  changes_bind (h.mono fun _ _ ha => changes_pure ha)

theorem changes_check_bind {result : Except MemoryError α}
    (h : ∀ a, result = .ok a → Changes allowed guarantee post (f a) s) :
    Changes allowed guarantee post (check result >>= f) s :=
  ⟨Script.ensures_ofExcept_bind (fun _ _ => nofun) fun a ha => (h a ha).ensures⟩

theorem changes_require_bind {e : MemoryError} {value : Option α}
    (h : ∀ a, value = some a → Changes allowed guarantee post (f a) s) :
    Changes allowed guarantee post (require e value >>= f) s := by
  cases value with
  | none => exact ⟨nofun⟩
  | some a => exact h a rfl

theorem changes_readCell_bind {cell : MemoryCell} {f : Option cell.Content → MemoryM β}
    (hrefl : guarantee s s) (h : Changes allowed guarantee post (f (s cell)) s) :
    Changes allowed guarantee post (readCell cell >>= f) s := by
  constructor
  change Script.Ensures _ _ _ _ ((_ >>= _) >>= f) s
  exact ensures_askRead_bind hrefl (fun _ => nofun) h.ensures

theorem changes_commitCells {post : Unit → MemoryStore → Prop}
    {operations : List (CellOp MemoryCell.Content)} (hrefl : guarantee s s)
    (h : ∀ t, commit s operations = .ok t → guarantee s t ∧ post () t) :
    Changes allowed guarantee post (commitCells operations) s := by
  refine ⟨ensures_askCommit_bind hrefl (fun _ => nofun) fun t ht => ⟨(h t ht).1,?_⟩⟩
  rintro a ⟨⟩
  exact (h t ht).2

theorem changes_askCall_bind {q : MemoryCall} {f : q.Reply → MemoryM β} (hrefl : guarantee s s)
    (h : ∀ turn, allowed turn → Changes allowed guarantee post (f (turn.reply q)) s) :
    Changes allowed guarantee post (askCall q >>= f) s :=
  ⟨ensures_askCall_bind hrefl fun turn hturn => (h turn hturn).ensures⟩

end Rules

section Reading
variable {β : Type} {allowed : StoreTurn Reply → Prop}
  {guarantee : MemoryStore → MemoryStore → Prop} {post : β → MemoryStore → Prop}
  {s : MemoryStore} (hrefl : guarantee s s)

include hrefl

variable {id : String}

theorem changes_readMemory_bind {missing : String} {f : MemoryRecord → MemoryM β}
    (h : ∀ record, s (.entry .record id) = some record → Changes allowed guarantee post (f record) s) :
    Changes allowed guarantee post (readMemory missing id >>= f) s := by
  change Changes _ _ _ ((readCell (.entry .record id) >>= _) >>= f) s
  rw [Script.bind_bind]
  exact changes_readCell_bind hrefl (changes_require_bind h)

theorem changes_readState_bind {record : MemoryRecord} {f : MemoryFreshnessRecord → MemoryM β}
    (h : Changes allowed guarantee post (f (stateOf s id record)) s) :
    Changes allowed guarantee post (readState id record >>= f) s := by
  change Changes _ _ _ ((readCell (.freshness id) >>= _) >>= f) s
  rw [Script.bind_bind]
  exact changes_readCell_bind hrefl h

theorem changes_writeFreshness {post : Unit → MemoryStore → Prop} {state : MemoryFreshnessRecord}
    (h : guarantee s (renew s id state none) ∧ post () (renew s id state none)) :
    Changes allowed guarantee post (writeFreshness id state) s := by
  refine changes_readCell_bind hrefl (changes_commitCells hrefl fun t ht => ?_)
  obtain ⟨-,rfl⟩ := commit_eq_ok.mp ht
  exact h

theorem changes_writeFreshnessWithEntry {post : Unit → MemoryStore → Prop}
    {state : MemoryFreshnessRecord} {entry : DependencyKey}
    (h : guarantee s (renew s id state (some entry)) ∧ post () (renew s id state (some entry))) :
    Changes allowed guarantee post (writeFreshnessWithEntry id state entry) s := by
  refine changes_readCell_bind hrefl (changes_readCell_bind hrefl
    (changes_commitCells hrefl fun t ht => ?_))
  obtain ⟨-,rfl⟩ := commit_eq_ok.mp ht
  exact h

end Reading

section Inserting
variable {allowed : StoreTurn Reply → Prop}
  {guarantee : MemoryStore → MemoryStore → Prop} {s : MemoryStore}

/-- The next freshness of the memories that are superseded. -/
def supersededStates (s : MemoryStore) (time : U64) (ids : List String) :
    List (String × MemoryFreshnessRecord) :=
  ids.filterMap fun id => (supersededState s time id).map (id,·)

theorem changes_supersedePriors {record : MemoryRecord} (hrefl : guarantee s s)
    (ids : List String) : Changes allowed guarantee (fun states t => t = s ∧
      states = supersededStates s record.effectiveAt ids ∧
        ∀ id ∈ ids, id ≠ record.id ∧ (s (.entry .record id)).isSome)
      (supersedePriors record ids) s := by
  induction ids with
  | nil => exact changes_pure ⟨rfl,rfl,nofun⟩
  | cons id ids ih =>
    refine changes_check_bind fun _ _ => changes_check_bind fun _ hself => ?_
    refine changes_readMemory_bind hrefl fun prior hprior => changes_check_bind fun _ _ => ?_
    refine changes_readState_bind hrefl (changes_bind (ih.mono ?_))
    rintro states _ ⟨rfl,rfl,hpriors⟩
    refine changes_pure ⟨rfl,by simp [supersededStates,supersededState,hprior],?_⟩
    have hne : id ≠ record.id := by
      by_contra h
      simp [ensure,h] at hself
    exact List.forall_mem_cons.mpr ⟨⟨hne,by simp [hprior]⟩,hpriors⟩

/-- The part of a batch for the memories that are superseded, over the values read. -/
def updateOperations (s : MemoryStore) (updates : List (String × MemoryFreshnessRecord)) :
    List (CellOp MemoryCell.Content) :=
  updates.flatMap fun update =>
    [.assert (.freshness update.1) (s (.freshness update.1)),.put (.freshness update.1) update.2]

theorem changes_readUpdates (hrefl : guarantee s s)
    (updates : List (String × MemoryFreshnessRecord)) : Changes allowed guarantee
      (fun operations t => t = s ∧ operations = updateOperations s updates)
      (readUpdates updates) s := by
  induction updates with
  | nil => exact changes_pure ⟨rfl,rfl⟩
  | cons update updates ih =>
    refine changes_readCell_bind hrefl (changes_bind (ih.mono ?_))
    rintro operations _ ⟨rfl,rfl⟩
    exact changes_pure ⟨rfl,rfl⟩

theorem runAll_updateOperations {time : U64} {base : MemoryStore} {ids : List String}
    (hids : ∀ id ∈ ids, (s (.entry .record id)).isSome) (cell : MemoryCell) :
    runAll write base (updateOperations s (supersededStates s time ids)) cell =
      match cell with
      | .freshness id => if id ∈ ids then supersededState s time id else base (.freshness id)
      | cell => base cell := by
  induction ids generalizing base with
  | nil => cases cell <;> rfl
  | cons id ids ih =>
    obtain ⟨prior,hprior⟩ := Option.isSome_iff_exists.mp (hids id List.mem_cons_self)
    have hstate : supersededState s time id = some ((stateOf s id prior).superseded time) := by
      simp [supersededState,hprior]
    have hcons : updateOperations s (supersededStates s time (id :: ids)) =
        .assert (.freshness id) (s (.freshness id)) ::
          .put (.freshness id) ((stateOf s id prior).superseded time) ::
            updateOperations s (supersededStates s time ids) := by
      simp [supersededStates,hstate,updateOperations]
    rw [hcons,runAll_cons,runAll_cons,ih fun k hk => hids k (List.mem_cons_of_mem _ hk)]
    cases cell with
    | freshness k =>
      by_cases hk : k = id
      · subst k
        simp [write,hstate]
      · simp [write,hk]
    | _ => simp [write]

theorem changes_insertMemory {record : MemoryRecord} (hrefl : guarantee s s)
    (hkey : validateKey record.id = .ok ())
    (hpriors : ∀ id ∈ record.supersedes, id ≠ record.id ∧ (s (.entry .record id)).isSome)
    (h : record.Insertable s → guarantee s (add s record)) :
    Changes allowed guarantee (fun _ _ => True) (insertRecordWith .record record.id record
      (some record.initialState) (some record.entries)
      (supersededStates s record.effectiveAt record.supersedes)) s := by
  refine changes_readCell_bind hrefl (changes_bind ?_)
  unfold requireNew
  split_ifs with hlisted
  · exact changes_fail
  refine changes_readCell_bind hrefl ?_
  split_ifs with hentry
  · exact changes_fail
  refine changes_pure (changes_bind (changes_readCell_bind hrefl ?_))
  split_ifs with hstate
  · exact changes_fail
  refine changes_pure (changes_bind (changes_readCell_bind hrefl (changes_pure ?_)))
  refine changes_bind ((changes_readUpdates hrefl _).mono ?_)
  rintro operations s ⟨rfl,rfl⟩
  refine changes_commitCells hrefl fun t ht => ⟨?_,trivial⟩
  have hnew : record.Insertable s := ⟨hkey,by simpa using hentry,by simpa using hstate,hpriors⟩
  have ht : t = add s record := by
    rw [← (commit_eq_ok.mp ht).2]
    funext cell
    rw [runAll_append,runAll_updateOperations fun id hid => (hpriors id hid).2]
    cases cell with
    | index c => cases c <;> simp [write,sidecarOperations,add]
    | entry c id =>
      by_cases hid : id = record.id
      · subst id
        cases c <;> simp [write,sidecarOperations,add]
      · cases c <;> simp [write,sidecarOperations,add,hid]
    | freshness id =>
      by_cases hid : id = record.id
      · subst id
        simp [write,sidecarOperations,add]
      · simp [write,sidecarOperations,add,hid]
    | dependencies => simp [write,sidecarOperations,add,dependenciesOf]
  exact ht ▸ h hnew

end Inserting

/-- What the checks of a record leave of it. -/
theorem validate_eq_ok {record valid : MemoryRecord} (h : record.validate = .ok valid) :
    validateKey record.id = .ok () ∧ valid.id = record.id ∧ valid.validFrom = record.validFrom ∧
      valid.createdAt = record.createdAt ∧ valid.supersedes = sortDedup record.supersedes := by
  obtain ⟨⟨⟩,hkey,h⟩ := bind_eq_ok.mp h
  obtain ⟨⟨⟩,-,h⟩ := bind_eq_ok.mp h
  obtain ⟨⟨⟩,-,h⟩ := bind_eq_ok.mp h
  obtain ⟨sourceRefs,-,h⟩ := bind_eq_ok.mp h
  obtain ⟨⟨⟩,-,h⟩ := bind_eq_ok.mp h
  obtain ⟨⟨⟩,-,h⟩ := bind_eq_ok.mp h
  cases h
  exact ⟨hkey,rfl,rfl,rfl,rfl⟩

section Commands
variable (library : MemoryLibrary) (allowed : StoreTurn Reply → Prop)
  {s : MemoryStore}

/-- The program takes steps of the command only. -/
abbrev Steps {α : Type} (command : MemoryCommand) (p : MemoryM α) (s : MemoryStore) : Prop :=
  Changes allowed (MemoryStep library allowed command) (fun _ _ => True) p s

variable {library allowed}

variable {command : MemoryCommand}

variable {record : MemoryRecord}

theorem steps_recordMemory (h : ∀ valid, record.validate = .ok valid → command.Inserts valid) :
    Steps library allowed command (recordMemory record) s := by
  have hrefl : MemoryStep library allowed command s s := .stay s
  refine changes_check_bind fun valid hvalid => ?_
  have hkey : validateKey valid.id = .ok () := by
    rw [(validate_eq_ok hvalid).2.1]
    exact (validate_eq_ok hvalid).1
  refine changes_bind ((changes_supersedePriors hrefl valid.supersedes).mono ?_)
  rintro states s ⟨rfl,rfl,hpriors⟩
  refine changes_bind (Changes.mono (changes_insertMemory hrefl hkey hpriors fun hnew => ?_) ?_)
  · exact .added (h valid hvalid) hnew
  · exact fun _ _ _ => changes_pure trivial

variable {guarantee : MemoryStore → MemoryStore → Prop}

theorem changes_readMemories (hrefl : guarantee s s) (ids : List String) :
    Changes allowed guarantee (fun _ t => t = s) (readMemories ids) s := by
  induction ids with
  | nil => exact changes_pure rfl
  | cons id ids ih =>
    refine changes_check_bind fun _ _ => changes_readMemory_bind hrefl fun _ _ => ?_
    exact changes_bind (ih.mono fun _ _ h => changes_pure h)

variable {request : HelperInvocationRequest}

theorem changes_routedModelBytes_bind {α : Type} (hrefl : guarantee s s) {label : String}
    {post : α → MemoryStore → Prop} {f : List UInt8 → MemoryM α}
    (h : ∀ turn bytes, allowed turn → turn.reply (.invoke request) = .ok bytes → Changes allowed guarantee post (f bytes) s) :
    Changes allowed guarantee post (routedModelBytes request label >>= f) s := by
  refine changes_bind (changes_askCall_bind hrefl fun turn hturn => ?_)
  refine changes_check_bind fun bytes hbytes => changes_check_bind fun _ _ => changes_pure ?_
  refine h turn bytes hturn ?_
  cases hreply : turn.reply (.invoke request) with
  | error e => simp [hreply,Except.mapError] at hbytes
  | ok output => simpa [hreply,Except.mapError] using hbytes

theorem changes_routedMemoryText (hrefl : guarantee s s) (executionId parentAttemptId : String)
    (profileId : RoutingProfileId) (callableId : CallableId) (input : List UInt8) (label : String) :
    Changes allowed guarantee (fun _ t => t = s)
      (routedMemoryText library executionId parentAttemptId profileId callableId input label) s := by
  refine changes_routedModelBytes_bind hrefl fun _ bytes _ _ => ?_
  exact changes_check_bind fun text _ => changes_check_bind fun _ _ => changes_pure rfl

theorem steps_consolidateMemory (request : MemoryConsolidationRequest) :
    Steps library allowed (.consolidate request) (consolidateMemory library request) s := by
  refine changes_check_bind fun _ _ => changes_check_bind fun _ _ => ?_
  refine changes_bind ((changes_readMemories (.stay _) _).mono ?_)
  rintro records s rfl
  refine changes_require_bind fun first _ => changes_check_bind fun _ _ => ?_
  refine changes_check_bind fun sourceRefs _ => changes_check_bind fun input _ => ?_
  refine changes_bind ((changes_routedMemoryText (.stay _) _ _ _ _ _ _).mono ?_)
  rintro content s rfl
  refine steps_recordMemory fun valid hvalid => ?_
  obtain ⟨-,-,hfrom,hcreated,-⟩ := validate_eq_ok hvalid
  exact ⟨hcreated,hfrom⟩

theorem steps_promoteMemory (id promotedId : String) (scope : MemoryScope) (createdAt : U64) :
    Steps library allowed (.promote id promotedId scope createdAt)
      (promoteMemory id promotedId scope createdAt) s := by
  refine changes_check_bind fun _ _ => changes_readMemory_bind (.stay s) fun source _ => ?_
  refine changes_check_bind fun _ _ => steps_recordMemory fun valid hvalid => ?_
  obtain ⟨-,-,-,-,hsupersedes⟩ := validate_eq_ok hvalid
  exact hsupersedes

theorem steps_bindCanonicalReference (id : String) (reference : MemoryCanonicalReference)
    (observedAt : U64) : Steps library allowed (.bindCanonicalReference id reference observedAt)
      (bindCanonicalReference id reference observedAt) s := by
  refine changes_check_bind fun _ _ => changes_check_bind fun _ _ => ?_
  refine changes_check_bind fun _ hkey => changes_readMemory_bind (.stay s) fun record hrecord => ?_
  refine changes_check_bind fun _ hkind => changes_readState_bind (.stay s) (changes_bind ?_)
  have hdecision : record.kind = .decision := by
    by_contra h
    simp [bindable,ensure,h] at hkind
  exact changes_writeFreshnessWithEntry (.stay s)
    ⟨.renewed hkey hrecord (.bound hdecision),changes_pure trivial⟩

section Observing
variable {service : ServiceId} {resource revision : String} {observedAt : U64} {ids : List String}

/-- One of the memories is affected by a revision, and renewed. -/
inductive Observes (service : ServiceId) (resource revision : String) (observedAt : U64)
    (ids : List String) : MemoryStore → MemoryStore → Prop
  | stay (s : MemoryStore) : Observes service resource revision observedAt ids s s
  | renewed {s : MemoryStore} {id record} (hid : id ∈ ids) (hkey : validateKey id = .ok ())
      (hrecord : s (.entry .record id) = some record)
      (haffected : (stateOf s id record).AffectedBy service resource revision) :
    Observes service resource revision observedAt ids s (renew s id
      ((stateOf s id record).observeRevisionChange service resource revision observedAt) none)

theorem Observes.step {t : MemoryStore} {limit : U32}
    (h : Observes service resource revision observedAt ids s t) :
    MemoryStep library allowed
      (.observeRevision service resource revision observedAt limit) s t := by
  cases h with
  | stay => exact .stay s
  | renewed _ hkey hrecord haffected => exact .renewed hkey hrecord (.observed haffected)

/-- The revision is recorded for the memory wherever it is used. -/
def Settled (service : ServiceId) (resource revision : String) (s : MemoryStore) (id : String) :
    Prop :=
  ∀ record, s (.entry .record id) = some record →
    ¬(stateOf s id record).AffectedBy service resource revision

theorem Observes.settled {t : MemoryStore} {k : String}
    (h : Observes service resource revision observedAt ids s t)
    (hk : Settled service resource revision s k) : Settled service resource revision t k := by
  cases h with
  | stay => exact hk
  | @renewed id _ _ _ _ haffected =>
    intro other hother
    by_cases hid : k = id
    · subst k
      rw [stateOf_renew_self]
      exact not_affectedBy_observeRevisionChange _ _ _ _ _
    · rw [stateOf_renew_of_ne hid]
      exact hk other (by simpa using hother)

theorem observes_observeMemory {id : String} (hid : id ∈ ids) :
    Changes allowed (Observes service resource revision observedAt ids) (fun isAffected t =>
      Observes service resource revision observedAt ids s t ∧
        Settled service resource revision t id ∧
          (Settled service resource revision s id → isAffected = false))
      (observeMemory service resource revision observedAt id) s := by
  refine changes_check_bind fun _ hkey => changes_readCell_bind (.stay s) ?_
  refine changes_require_bind fun record hrecord => changes_readState_bind (.stay s) ?_
  split_ifs with haffected
  · have hstep := @Observes.renewed service resource revision observedAt ids s id record
      hid hkey hrecord haffected
    refine changes_bind (changes_writeFreshness (.stay s) ⟨hstep,changes_pure ⟨hstep,?_,?_⟩⟩)
    · intro other hother
      rw [stateOf_renew_self]
      exact not_affectedBy_observeRevisionChange _ _ _ _ _
    · exact fun h => absurd haffected (h record hrecord)
  · refine changes_pure ⟨.stay s,fun other hother => ?_,fun _ => rfl⟩
    cases Option.some.inj (hrecord.symm.trans hother)
    exact haffected

theorem observes_observeMemories {rest : List String} (hrest : ∀ id ∈ rest, id ∈ ids) :
    Changes allowed (Observes service resource revision observedAt ids) (fun affected t =>
      (∀ k, k ∈ rest ∨ Settled service resource revision s k →
        Settled service resource revision t k) ∧
          ((∀ id ∈ rest, Settled service resource revision s id) → affected = []))
      (observeMemories service resource revision observedAt rest) s := by
  induction rest generalizing s with
  | nil => exact changes_pure ⟨fun k hk => hk.resolve_left List.not_mem_nil,fun _ => rfl⟩
  | cons id rest ih =>
    obtain ⟨hid,hrest⟩ := List.forall_mem_cons.mp hrest
    refine changes_bind ((observes_observeMemory hid).mono ?_)
    rintro isAffected t ⟨hstep,hsettled,hnone⟩
    refine changes_bind ((ih hrest).mono ?_)
    rintro affected u ⟨hkeep,hall⟩
    refine changes_pure ⟨fun k hk => hkeep k ?_,fun h => ?_⟩
    · rcases hk with hk | hk
      · rcases List.mem_cons.mp hk with rfl | hk
        · exact .inr hsettled
        · exact .inl hk
      · exact .inr (hstep.settled hk)
    · obtain ⟨hfirst,hothers⟩ := List.forall_mem_cons.mp h
      rw [hnone hfirst,hall fun k hk => hstep.settled (hothers k hk)]
      rfl

/-- The memories that an observation looks at: the first ones of the index entry. -/
def observable (s : MemoryStore) (service : ServiceId) (resource : String) (limit : U32) :
    List String :=
  ((dependenciesOf s).ids (dependencyKey service resource)).take limit.val

theorem not_isBlank_of_validateText {label value : String} (h : validateText label value = .ok ()) :
    ¬Configuration.isBlank value := by
  intro hblank
  simp [validateText,hblank] at h

theorem observes_observeRevision (limit : U32) :
    Changes allowed (Observes service resource revision observedAt
      (observable s service resource limit)) (fun affected t =>
        (¬Configuration.isBlank resource ∧ ¬Configuration.isBlank revision) ∧
        (∀ id ∈ observable s service resource limit, Settled service resource revision t id) ∧
          ((∀ id ∈ observable s service resource limit, Settled service resource revision s id) →
            affected = []))
      (observeRevision service resource revision observedAt limit) s := by
  refine changes_check_bind fun _ hresource => changes_check_bind fun _ hrevision => ?_
  refine changes_check_bind fun _ _ => changes_bind (changes_bind ?_)
  refine changes_readCell_bind (.stay s) (changes_pure (changes_pure ?_))
  refine (observes_observeMemories fun _ h => h).mono ?_
  rintro affected t ⟨hsettled,hnone⟩
  exact ⟨⟨not_isBlank_of_validateText hresource,not_isBlank_of_validateText hrevision⟩,
    fun id hid => hsettled id (.inl hid),hnone⟩

end Observing

theorem steps_conflictMemories {source : MemorySourceReference} {affectedIds : List String}
    {observedAt : U64} (ids : List String) (hids : ∀ id ∈ ids, id ∈ affectedIds) :
    Steps library allowed (.observeConflict source affectedIds observedAt)
      (conflictMemories source.dependency observedAt ids) s := by
  induction ids generalizing s with
  | nil => exact changes_pure trivial
  | cons id ids ih =>
    have hrest := fun k hk => hids k (List.mem_cons_of_mem id hk)
    refine changes_bind (changes_check_bind fun _ hkey => ?_)
    refine changes_readMemory_bind (.stay s) fun record hrecord => ?_
    refine changes_readState_bind (.stay s) (changes_bind ?_)
    refine changes_writeFreshnessWithEntry (.stay s)
      ⟨.renewed hkey hrecord (.conflicted (hids id List.mem_cons_self)),changes_pure ?_⟩
    exact changes_bind ((ih hrest).mono fun _ _ _ => changes_pure trivial)

theorem steps_observeConflict (source : MemorySourceReference) (affectedIds : List String)
    (observedAt : U64) : Steps library allowed (.observeConflict source affectedIds observedAt)
      (observeConflict source affectedIds observedAt) s := by
  refine changes_check_bind fun _ _ => changes_check_bind fun _ _ => ?_
  exact changes_check_bind fun _ _ => steps_conflictMemories _ fun id hid => mem_sortDedup.mp hid

variable {outcome : MemoryRevalidationOutcome}

theorem answered_decode {turn : StoreTurn Reply} {bytes : List UInt8}
    (hturn : allowed turn) (hreply : turn.reply (.invoke request) = .ok bytes)
    (hdecode : (library.decodeOutcome bytes).mapError (fun error => MemoryError.provider ("invalid memory revalidation outcome: " ++ error)) = .ok outcome)
    (hresolved : outcome = .needsValidation → request.callableId = memoryResolveCallable) :
    Answered library allowed outcome := by
  refine ⟨turn,hturn,request,bytes,hreply,?_,hresolved⟩
  cases h : library.decodeOutcome bytes with
  | error e => simp [h,Except.mapError] at hdecode
  | ok answer => simpa [h,Except.mapError] using hdecode

variable {state : MemoryFreshnessRecord}

variable {parentAttemptId : String} {profileId : RoutingProfileId}

theorem steps_routedRevalidation {executionId : String} {callableId : CallableId} :
    Changes allowed (MemoryStep library allowed command) (fun outcome t => t = s ∧
      ((outcome = .needsValidation → callableId = memoryResolveCallable) →
        Answered library allowed outcome))
      (routedRevalidation library executionId parentAttemptId profileId callableId record state)
      s := by
  refine changes_check_bind fun input _ => changes_routedModelBytes_bind (.stay s) fun turn bytes hturn h => ?_
  refine ⟨fun outcome houtcome => ⟨rfl,fun hresolved => ?_⟩⟩
  exact answered_decode hturn h houtcome hresolved

theorem steps_routedOutcome {executionId : String} :
    Changes allowed (MemoryStep library allowed command)
      (fun outcome t => t = s ∧ Answered library allowed outcome)
      (routedOutcome library executionId parentAttemptId profileId record state) s := by
  refine changes_bind (steps_routedRevalidation.mono ?_)
  rintro validated s ⟨rfl,hvalidated⟩
  split_ifs with hopen
  · refine steps_routedRevalidation.mono fun outcome _ h => ⟨h.1,h.2 fun _ => rfl⟩
  · exact changes_pure ⟨rfl,hvalidated fun h => absurd h hopen⟩

theorem steps_settleRevalidation {id : String} {time : U64}
    (h : MemoryStep library allowed command s (renew s id (state.changed outcome.freshness time) none)) :
    Steps library allowed command (settleRevalidation id state time outcome) s :=
  changes_bind (changes_writeFreshness (.stay s) ⟨h,changes_pure trivial⟩)

theorem steps_revalidateMemory (id executionId parentAttemptId : String)
    (profileId : RoutingProfileId) (time : U64) :
    Steps library allowed (.revalidate id executionId parentAttemptId profileId time)
      (revalidateMemory library id executionId parentAttemptId profileId time) s := by
  refine changes_check_bind fun _ hkey => changes_readMemory_bind (.stay s) fun record hrecord => ?_
  refine changes_readState_bind (.stay s) ?_
  unfold deterministicOutcome
  by_cases hhistorical : (stateOf s id record).freshness = .historical
  · simp only [if_pos hhistorical]
    exact changes_pure trivial
  by_cases hended : record.EndedBy time
  · simp only [if_neg hhistorical,if_pos hended]
    exact steps_settleRevalidation (.renewed hkey hrecord (.ended hhistorical hended))
  by_cases hopen : (stateOf s id record).freshness = .needsValidation
  · simp only [if_neg hhistorical,if_neg hended,if_pos hopen]
    refine changes_bind (steps_routedOutcome.mono ?_)
    rintro outcome s ⟨rfl,houtcome⟩
    exact steps_settleRevalidation (.renewed hkey hrecord (.validated hopen hended houtcome))
  · simp only [if_neg hhistorical,if_neg hended,if_neg hopen]
    exact changes_pure trivial

theorem steps_loadEntries (c : MemoryCollection) (ids : List String) :
    Changes allowed (MemoryStep library allowed command) (fun values t => t = s ∧
      values = ids.filterMap fun id => s (.entry c id)) (loadEntries c ids) s := by
  induction ids with
  | nil => exact changes_pure ⟨rfl,rfl⟩
  | cons id ids ih =>
    refine changes_readCell_bind (.stay s) (changes_require_bind fun value hvalue => ?_)
    refine changes_bind (ih.mono ?_)
    rintro values s ⟨rfl,rfl⟩
    exact changes_pure ⟨rfl,by rw [List.filterMap_cons,hvalue]⟩

section Recalling
variable {query : MemoryRecallQuery}

/-- Whether a memory counts as current at a time: one that is no longer current does until then. -/
def CountsAt (record : MemoryRecord) (state : MemoryFreshnessRecord) (time : U64) : Prop :=
  if state.freshness = .current then ¬record.EndedBy time else time < state.changedAt

instance decidableCountsAt (record : MemoryRecord) (state : MemoryFreshnessRecord) (time : U64) :
    Decidable (CountsAt record state time) := by
  unfold CountsAt
  infer_instance

variable {record : MemoryRecord}

theorem countsAt_of_current {state : MemoryFreshnessRecord} {time : U64}
    (h : state.freshness = .current) : CountsAt record state time ↔ ¬record.EndedBy time := by
  simp [CountsAt,h]

theorem countsAt_of_not_current {state : MemoryFreshnessRecord} {time : U64}
    (h : state.freshness ≠ .current) : CountsAt record state time ↔ time < state.changedAt := by
  simp [CountsAt,h]

/-- Only memories that do not count at the time of the query are expired, and they still do not. -/
theorem countsAt_of_step {t : MemoryStore} (h : MemoryStep library allowed (.«recall» query) s t)
    (hrecord : s (.entry .record record.id) = some record) :
    t (.entry .record record.id) = some record ∧
      (CountsAt record (stateOf t record.id record) query.time ↔
        CountsAt record (stateOf s record.id record) query.time) := by
  cases h with
  | stay => exact ⟨hrecord,Iff.rfl⟩
  | added hinserts => exact hinserts.elim
  | @renewed id other _ _ _ hother h =>
    refine ⟨by rw [renew_entry,hrecord],?_⟩
    cases h with
    | expired hcurrent hended =>
      by_cases hid : record.id = id
      · subst id
        cases Option.some.inj (hrecord.symm.trans hother)
        simp [CountsAt,hcurrent,hended,changed]
      · rw [stateOf_renew_of_ne hid]

theorem steps_considerMemory (hrecord : s (.entry .record record.id) = some record) :
    Changes allowed (MemoryStep library allowed (.«recall» query)) (fun counts t =>
      MemoryStep library allowed (.«recall» query) s t ∧
        counts = decide (CountsAt record (stateOf s record.id record) query.time))
      (considerMemory query.time record) s := by
  refine changes_check_bind fun _ hkey => changes_readState_bind (.stay s) ?_
  unfold deterministicOutcome
  by_cases hcurrent : (stateOf s record.id record).freshness = .current
  · have hcounts : CountsAt record (stateOf s record.id record) query.time ↔ _ :=
      countsAt_of_current hcurrent
    by_cases hended : record.EndedBy query.time
    · have hstep : MemoryStep library allowed (.«recall» query) s (renew s record.id
          ((stateOf s record.id record).changed .historical query.time) none) :=
        .renewed hkey hrecord (.expired hcurrent hended)
      simp only [hcurrent,reduceCtorEq,if_false,if_pos hended]
      unfold expireMemory
      rw [if_pos hcurrent]
      refine changes_bind (changes_bind (changes_writeFreshness (.stay s) ⟨hstep,?_⟩))
      refine changes_pure (changes_pure ⟨hstep,?_⟩)
      simp [hcounts,hended,changed]
    · simp only [hcurrent,reduceCtorEq,if_false,if_neg hended]
      exact changes_pure ⟨.stay s,by simp [hcounts,hended]⟩
  · have hcounts : CountsAt record (stateOf s record.id record) query.time ↔ _ :=
      countsAt_of_not_current hcurrent
    by_cases hhistorical : (stateOf s record.id record).freshness = .historical
    · simp only [if_pos hhistorical]
      exact changes_pure ⟨.stay s,by simp [hcounts]⟩
    by_cases hended : record.EndedBy query.time
    · simp only [if_neg hhistorical,if_pos hended]
      unfold expireMemory
      rw [if_neg hcurrent]
      exact changes_pure ⟨.stay s,by simp [hcounts]⟩
    · have hopen : (stateOf s record.id record).freshness = .needsValidation := by
        cases h : (stateOf s record.id record).freshness <;> simp_all
      simp only [if_neg hhistorical,if_neg hended,if_pos hopen]
      exact changes_pure ⟨.stay s,by simp [hcounts]⟩

/-- The memories that count are found, whatever is expired on the way. -/
theorem steps_currentMemories (records : List MemoryRecord)
    (hrecords : ∀ record ∈ records, s (.entry .record record.id) = some record) :
    Changes allowed (MemoryStep library allowed (.«recall» query)) (fun current _ =>
      current = records.filter fun record =>
        CountsAt record (stateOf s record.id record) query.time)
      (currentMemories query.time records) s := by
  induction records generalizing s with
  | nil => exact changes_pure rfl
  | cons record records ih =>
    obtain ⟨hrecord,hrest⟩ := List.forall_mem_cons.mp hrecords
    refine changes_bind ((steps_considerMemory hrecord).mono ?_)
    rintro counts t ⟨hstep,rfl⟩
    refine changes_bind ((ih fun other hother => (countsAt_of_step hstep (hrest other hother)).1).mono
      ?_)
    rintro rest u rfl
    have hsame : (records.filter fun other =>
        CountsAt other (stateOf t other.id other) query.time) =
          records.filter fun other => CountsAt other (stateOf s other.id other) query.time :=
      List.filter_congr fun other hother => by
        simp only [(countsAt_of_step hstep (hrest other hother)).2]
    rw [hsame]
    refine changes_pure ?_
    by_cases hcounts : CountsAt record (stateOf s record.id record) query.time
    · simp [hcounts]
    · simp [hcounts]

variable {candidates : List MemoryRecord}

theorem steps_appendSemanticCandidates {current : List MemoryRecord} {limit : ℕ} :
    Changes allowed (MemoryStep library allowed (.«recall» query)) (fun found _ =>
      ∀ record ∈ found, record ∈ candidates ∨ record ∈ eligible current query)
      (appendSemanticCandidates library current query limit candidates) s := by
  unfold appendSemanticCandidates
  split_ifs with hblank
  · exact changes_pure fun record hrecord => .inl hrecord
  refine changes_check_bind fun pool hpool => ?_
  split_ifs with hempty
  · exact changes_pure fun record hrecord => .inl hrecord
  refine changes_askCall_bind (.stay s) fun turn _ => changes_pure fun record hrecord => ?_
  exact (mem_withSimilar hrecord).imp_right fun hmem => mem_of_recall hpool hmem

theorem steps_rankCandidates : Changes allowed (MemoryStep library allowed (.«recall» query))
      (fun found _ => ∀ record ∈ found, record ∈ candidates) (rankCandidates query candidates) s := by
  unfold rankCandidates
  split_ifs with hsingle
  · exact changes_pure fun record hrecord => List.mem_of_mem_take hrecord
  · exact changes_askCall_bind (.stay s) fun turn _ =>
      changes_pure fun record hrecord => mem_withRanking hrecord

/-- Every stored memory is stored under its identifier. -/
def Named (s : MemoryStore) : Prop :=
  ∀ id record, s (.entry .record id) = some record → record.id = id

/-- The memories of the index. -/
def storedRecords (s : MemoryStore) : List MemoryRecord :=
  ((s (.index .record)).getD []).filterMap fun id => s (.entry .record id)

/-- The memories that a recall takes for current. -/
def currentAt (s : MemoryStore) (time : U64) : List MemoryRecord :=
  (storedRecords s).filter fun record => CountsAt record (stateOf s record.id record) time

theorem Named.of_mem_storedRecords (h : Named s) (hrecord : record ∈ storedRecords s) :
    s (.entry .record record.id) = some record := by
  obtain ⟨id,-,hid⟩ := List.mem_filterMap.mp hrecord
  rw [h id record hid,hid]

/-- What a recall returns is eligible among the stored memories that count as current. -/
theorem steps_recallMemory (hnamed : Named s) :
    Changes allowed (MemoryStep library allowed (.«recall» query)) (fun found _ =>
      ∀ record ∈ found, record ∈ eligible (currentAt s query.time) query)
      (recallMemory library query) s := by
  refine changes_bind (changes_bind ?_)
  refine changes_readCell_bind (.stay s) (changes_pure ((steps_loadEntries .record _).mono ?_))
  rintro records s ⟨rfl,rfl⟩
  refine changes_bind ((steps_currentMemories _ fun record => hnamed.of_mem_storedRecords).mono ?_)
  rintro current t rfl
  refine changes_check_bind fun candidates hcandidates => ?_
  refine changes_bind (steps_appendSemanticCandidates.mono fun candidates u hsimilar => ?_)
  refine steps_rankCandidates.mono fun found _ hfound record hrecord => ?_
  exact (hsimilar record (hfound record hrecord)).elim (mem_of_recall hcandidates) id

end Recalling

/-- A command takes steps only, whatever fails in it. -/
theorem steps_handle (hnamed : Named s) (command : MemoryCommand) :
    Steps library allowed command (command.handle library) s := by
  cases command with
  | record memory => exact changes_map (steps_recordMemory fun _ h => h)
  | «recall» query => exact changes_map ((steps_recallMemory hnamed).mono fun _ _ _ => trivial)
  | consolidate request => exact changes_map (steps_consolidateMemory request)
  | observeRevision service resource revision observedAt limit =>
    refine changes_map (((observes_observeRevision limit).weaken fun _ _ h => h.step).mono ?_)
    exact fun _ _ _ => trivial
  | observeConflict source affectedIds observedAt =>
    exact changes_map (steps_observeConflict source affectedIds observedAt)
  | bindCanonicalReference id reference observedAt =>
    exact changes_map (steps_bindCanonicalReference id reference observedAt)
  | revalidate id executionId parentAttemptId profileId time =>
    exact changes_map (steps_revalidateMemory id executionId parentAttemptId profileId time)
  | promote id promotedId scope createdAt =>
    exact changes_map (steps_promoteMemory id promotedId scope createdAt)

end Commands

end PhenixConductor.Memory
