import PhenixConductor.Memory.Soundness

/-! # Programs on a working store

Where no durable operation fails by itself, a program whose checks hold and whose commits
assert what it has read comes to its end.
-/
namespace PhenixConductor.Memory
open Collections

/-- The durable operation at the turn does not fail by itself. -/
def Working (turn : StoreTurn MemoryCall.Reply) : Prop := turn.failure = none

/-- The program succeeds on a working store, and ends as told. -/
structure Succeeds {α : Type} (post : α → MemoryStore → Prop) (p : MemoryM α)
    (s : MemoryStore) : Prop where
  ensures : Script.Ensures serveStore Working (fun _ _ => True)
    (fun result t => ∃ a, result = .ok a ∧ post a t) p s

section Rules
variable {α β : Type} {post : β → MemoryStore → Prop} {s : MemoryStore}

theorem Succeeds.run {p : MemoryM β} (h : Succeeds post p s) {turns : MemoryCall.Turns}
    (hturns : ∀ n, Working (turns n)) :
    ∃ b, (p.run serveStore turns s).1 = .ok b ∧ post b (p.run serveStore turns s).2 :=
  h.ensures.run hturns

theorem Succeeds.mono {post' : β → MemoryStore → Prop} {p : MemoryM β} (h : Succeeds post p s)
    (hpost : ∀ b t, post b t → post' b t) : Succeeds post' p s :=
  ⟨h.ensures.mono (fun _ _ h => h) fun _ t ⟨b,hb,hpost'⟩ => ⟨b,hb,hpost b t hpost'⟩⟩

theorem succeeds_pure {b : β} (h : post b s) : Succeeds post (pure b) s := ⟨⟨b,rfl,h⟩⟩

variable {f : α → MemoryM β}

theorem succeeds_bind {p : MemoryM α} (h : Succeeds (fun a t => Succeeds post (f a) t) p s) :
    Succeeds post (p >>= f) s := by
  refine ⟨Script.ensures_bind.mpr (h.ensures.mono (fun _ _ h => h) ?_)⟩
  rintro _ t ⟨a,rfl,ha⟩
  exact ha.ensures

theorem succeeds_map {p : MemoryM α} {f : α → β} (h : Succeeds (fun a t => post (f a) t) p s) :
    Succeeds post (f <$> p) s :=
  succeeds_bind (h.mono fun _ _ ha => succeeds_pure ha)

theorem succeeds_check_bind {result : Except MemoryError α} {a : α} (hresult : result = .ok a)
    (h : Succeeds post (f a) s) : Succeeds post (check result >>= f) s := by
  subst hresult
  exact h

theorem succeeds_require_bind {e : MemoryError} {value : Option α} {a : α} (hvalue : value = some a)
    (h : Succeeds post (f a) s) : Succeeds post (require e value >>= f) s := by
  subst hvalue
  exact h

theorem succeeds_readCell_bind {cell : MemoryCell} {f : Option cell.Content → MemoryM β}
    (h : Succeeds post (f (s cell)) s) : Succeeds post (readCell cell >>= f) s := by
  constructor
  change Script.Ensures _ _ _ _ ((_ >>= _) >>= f) s
  rintro ⟨failure,reply⟩ ⟨⟩
  exact ⟨trivial,h.ensures⟩

theorem succeeds_commitCells {post : Unit → MemoryStore → Prop}
    {operations : List (CellOp MemoryCell.Content)} {t : MemoryStore}
    (hcommit : CellOp.commit s operations = .ok t) (h : post () t) :
    Succeeds post (commitCells operations) s := by
  constructor
  rintro ⟨failure,reply⟩ ⟨⟩
  refine ⟨trivial,?_⟩
  have hcommitted : committed s operations = (.ok (),t) := by rw [committed,hcommit]
  change Script.Ensures _ _ _ _ (Script.ofExcept ((committed s operations).1.mapError storeError))
    (committed s operations).2
  rw [hcommitted]
  exact ⟨(),rfl,h⟩

theorem succeeds_readState_bind {id : String} {record : MemoryRecord}
    {f : MemoryFreshnessRecord → MemoryM β} (h : Succeeds post (f (stateOf s id record)) s) :
    Succeeds post (readState id record >>= f) s := by
  change Succeeds _ ((readCell (.freshness id) >>= _) >>= f) s
  rw [Script.bind_bind]
  exact succeeds_readCell_bind h

theorem succeeds_writeFreshness {post : Unit → MemoryStore → Prop} {id : String}
    {state : MemoryFreshnessRecord} (h : post () (MemoryStore.renew s id state none)) :
    Succeeds post (writeFreshness id state) s := by
  refine succeeds_readCell_bind (succeeds_commitCells ?_ h)
  exact CellOp.commit_eq_ok.mpr ⟨⟨rfl,trivial,trivial⟩,rfl⟩

end Rules

end PhenixConductor.Memory

/-! ## How far an observed revision reaches

An observation looks at the first memories of its index entry only, in every attempt at
the same ones. It reaches all memories that use the resource exactly where no other one
still has to be told.
-/
namespace PhenixConductor.Memory
open Collections Contract Configuration
open Execution (U64 U32)

/-- The revision is recorded wherever the resource is used. -/
def MemoryFreshnessRecord.Records (self : MemoryFreshnessRecord) (service : ServiceId)
    (resource revision : String) : Prop :=
  (∀ dependency ∈ self.dependencies,
    dependency.On service resource → dependency.revision = some revision) ∧
  ∀ reference ∈ self.canonicalReference,
    reference.On service resource → reference.revision = some revision

theorem records_iff_not_affectedBy {state : MemoryFreshnessRecord} {service : ServiceId}
    {resource revision : String} : state.Records service resource revision ↔
      ¬state.AffectedBy service resource revision := by
  simp [MemoryFreshnessRecord.Records,MemoryFreshnessRecord.AffectedBy]

section Attempts
variable (library : MemoryLibrary) (service : ServiceId) (resource revision : String)
  (observedAt : U64) (limit : U32)

def attempt (turns : MemoryCall.Turns) (s : MemoryStore) :
    Except MemoryError MemoryResponse × MemoryStore :=
  ((MemoryCommand.observeRevision service resource revision observedAt limit).handle library).run
    serveStore turns s

/-- The store after the same observation is made again and again. -/
def attempts (s : MemoryStore) (tries : List MemoryCall.Turns) : MemoryStore :=
  runAll (fun s turns => (attempt library service resource revision observedAt limit turns s).2)
    s tries

/-- An observation that is made until it reports no memory reaches all that use the resource, and
no others; the index has every memory under what it uses. -/
structure RevisionReaches (s : MemoryStore) : Prop where
  ends : isBlank resource = false → isBlank revision = false →
    ∀ first second, (∀ n, Working (first n)) → (∀ n, Working (second n)) →
      (attempt library service resource revision observedAt limit second
        (attempt library service resource revision observedAt limit first s).2).1 =
          .ok (.affected [])
  reached : ∀ tries last, (attempt library service resource revision observedAt limit last
      (attempts library service resource revision observedAt limit s tries)).1 =
        .ok (.affected []) →
    ∀ id state, s (.freshness id) = some state → state.Uses service resource →
      ∃ next, attempts library service resource revision observedAt limit s (tries ++ [last])
          (.freshness id) = some next ∧ next.Records service resource revision ∧
        (state.freshness = .current → next.freshness = .needsValidation)
  indexed : ∀ tries id state,
    attempts library service resource revision observedAt limit s tries (.freshness id) =
        some state →
      ∀ service' resource', state.Uses service' resource' →
        id ∈ (dependenciesOf
          (attempts library service resource revision observedAt limit s tries)).ids
            (dependencyKey service' resource')
  unchanged : ∀ tries id,
    attempts library service resource revision observedAt limit s tries (.entry .record id) =
        s (.entry .record id) ∧
      ∀ state, s (.freshness id) = some state → ¬state.Uses service resource →
        attempts library service resource revision observedAt limit s tries (.freshness id) =
          some state

/-- Every memory that uses the resource is among the first ones of the index entry or has the
revision, and none of those that have it is current. -/
def NoneHidden (s : MemoryStore) : Prop :=
  ∀ id state, s (.freshness id) = some state → state.Uses service resource →
    (id ∈ observable s service resource limit ∨ state.Records service resource revision) ∧
      (state.freshness = .current → ¬state.Records service resource revision)

variable {library service resource revision observedAt limit}

/-- What attempts make of a store: some of the first memories of the entry are told. -/
structure Told (service : ServiceId) (resource revision : String) (observedAt : U64)
    (ids : List String) (s t : MemoryStore) : Prop where
  entry : ∀ id, t (.entry .record id) = s (.entry .record id)
  dependencies : t .dependencies = s .dependencies
  states : ∀ id state, s (.freshness id) = some state → t (.freshness id) = some state ∨
    id ∈ ids ∧ state.AffectedBy service resource revision ∧ t (.freshness id) =
      some (state.observeRevisionChange service resource revision observedAt)

variable {ids : List String}

theorem Told.refl (s : MemoryStore) : Told service resource revision observedAt ids s s :=
  ⟨fun _ => rfl,rfl,fun _ _ h => .inl h⟩

variable {s : MemoryStore}

variable {t : MemoryStore}

theorem Told.step {u : MemoryStore} (h : Told service resource revision observedAt ids s t)
    (hstep : Observes service resource revision observedAt ids t u) :
    Told service resource revision observedAt ids s u := by
  cases hstep with
  | stay => exact h
  | @renewed id record hid _ hrecord haffected =>
    refine ⟨fun k => by rw [renew_entry,h.entry],?_,fun k state hstate => ?_⟩
    · rw [← h.dependencies]
      simp [MemoryStore.renew]
    by_cases hk : k = id
    · subst k
      rw [renew_freshness_self]
      have hold : ∀ other, t (.freshness id) = some other → stateOf t id record = other :=
        fun other hother => by simp [stateOf,hother]
      rcases h.states id state hstate with hsame | ⟨-,-,htold⟩
      · rw [hold state hsame] at haffected ⊢
        exact .inr ⟨hid,haffected,rfl⟩
      · rw [hold _ htold] at haffected
        exact absurd haffected (state.not_affectedBy_observeRevisionChange _ _ _ _)
    · rw [renew_freshness_of_ne hk]
      exact h.states k state hstate

theorem changes_attempt (s : MemoryStore) : Changes (fun _ => True)
    (Observes service resource revision observedAt (observable s service resource limit))
    (fun response t => ∃ affected, response = .affected affected ∧
      (¬isBlank resource ∧ ¬isBlank revision) ∧
      (∀ id ∈ observable s service resource limit, Settled service resource revision t id) ∧
        ((∀ id ∈ observable s service resource limit, Settled service resource revision s id) →
          affected = []))
    ((MemoryCommand.observeRevision service resource revision observedAt limit).handle library) s :=
  changes_map ((observes_observeRevision limit).mono fun affected _ h => ⟨affected,rfl,h⟩)

theorem Told.observable_eq (h : Told service resource revision observedAt ids s t) :
    observable t service resource limit = observable s service resource limit := by
  unfold observable dependenciesOf
  rw [h.dependencies]

theorem told_attempts (hs : Sound s) (tries : List MemoryCall.Turns) :
    Sound (attempts library service resource revision observedAt limit s tries) ∧
      Told service resource revision observedAt (observable s service resource limit) s
        (attempts library service resource revision observedAt limit s tries) := by
  refine runAll_invariant (I := fun t => Sound t ∧ Told service resource revision observedAt
    (observable s service resource limit) s t) ?_ tries ⟨hs,Told.refl s⟩
  rintro t turns ⟨ht,htold⟩
  refine ⟨ht.afterCommand library
    (.observeRevision service resource revision observedAt limit,turns),?_⟩
  exact (changes_attempt t).ensures.run_induct (fun _ => trivial)
    (fun _ _ hstep h => h.step (htold.observable_eq ▸ hstep)) htold

/-- An attempt that succeeds leaves nothing to tell to the memories that it looks at, and reports
none where nothing was to tell. -/
theorem attempt_eq_ok {turns : MemoryCall.Turns} {response : MemoryResponse}
    (h : (attempt library service resource revision observedAt limit turns s).1 = .ok response) :
    ∃ affected, response = .affected affected ∧
      (¬isBlank resource ∧ ¬isBlank revision) ∧
      (∀ id ∈ observable s service resource limit, Settled service resource revision
        (attempt library service resource revision observedAt limit turns s).2 id) ∧
        ((∀ id ∈ observable s service resource limit, Settled service resource revision s id) →
          affected = []) :=
  (changes_attempt s).ensures.run (fun _ => trivial) response h

section Working

theorem succeeds_observeMemory {s : MemoryStore} {id : String}
    (hkey : validateKey id = .ok ()) (hid : (s (.entry .record id)).isSome) :
    Succeeds (fun _ t => ∀ k, t (.entry .record k) = s (.entry .record k))
      (observeMemory service resource revision observedAt id) s := by
  obtain ⟨record,hrecord⟩ := Option.isSome_iff_exists.mp hid
  refine succeeds_check_bind hkey (succeeds_readCell_bind (succeeds_require_bind hrecord ?_))
  refine succeeds_readState_bind ?_
  split_ifs with haffected
  · exact succeeds_bind (succeeds_writeFreshness (succeeds_pure fun k => renew_entry .record k))
  · exact succeeds_pure fun _ => rfl

theorem succeeds_observeMemories {s : MemoryStore} (ids : List String)
    (hids : ∀ id ∈ ids, validateKey id = .ok () ∧ (s (.entry .record id)).isSome) :
    Succeeds (fun _ _ => True) (observeMemories service resource revision observedAt ids) s := by
  induction ids generalizing s with
  | nil => exact succeeds_pure trivial
  | cons id ids ih =>
    obtain ⟨⟨hkey,hid⟩,hrest⟩ := List.forall_mem_cons.mp hids
    refine succeeds_bind ((succeeds_observeMemory hkey hid).mono fun _ t ht => succeeds_bind ?_)
    refine (ih fun k hk => ?_).mono fun _ _ _ => succeeds_pure trivial
    rw [ht]
    exact hrest k hk

theorem attempt_succeeds {s : MemoryStore} (hs : Sound s)
    (hresource : isBlank resource = false)
    (hrevision : isBlank revision = false)
    (hlimit : 1 ≤ limit.val ∧ limit.val ≤ 100) {turns : MemoryCall.Turns}
    (hturns : ∀ n, Working (turns n)) : ∃ response,
      (attempt library service resource revision observedAt limit turns s).1 = .ok response := by
  have hhandle : Succeeds (fun _ _ => True) ((MemoryCommand.observeRevision service resource
      revision observedAt limit).handle library) s := by
    refine succeeds_map (succeeds_check_bind (a := ()) (by simp [validateText,hresource]) ?_)
    refine succeeds_check_bind (a := ()) (by simp [validateText,hrevision]) ?_
    refine succeeds_check_bind (a := ()) (by simp [ensure,hlimit]) ?_
    refine succeeds_bind (succeeds_bind (succeeds_readCell_bind (succeeds_pure (succeeds_pure ?_))))
    refine (succeeds_observeMemories _ fun id hid => ?_)
    have hstored := hs.indexed _ id (List.mem_of_mem_take hid)
    exact ⟨hs.keyed id hstored,hstored⟩
  obtain ⟨response,hok,-⟩ := hhandle.run hturns
  exact ⟨response,hok⟩

/-- On a working store, the second of two attempts reports no memory. -/
theorem attempt_twice {s : MemoryStore} (hs : Sound s)
    (hresource : isBlank resource = false)
    (hrevision : isBlank revision = false)
    (hlimit : 1 ≤ limit.val ∧ limit.val ≤ 100) {first second : MemoryCall.Turns}
    (hfirst : ∀ n, Working (first n)) (hsecond : ∀ n, Working (second n)) :
    (attempt library service resource revision observedAt limit second
      (attempt library service resource revision observedAt limit first s).2).1 =
        .ok (.affected []) := by
  have hafter : Sound (attempt library service resource revision observedAt limit first s).2 ∧
      Told service resource revision observedAt (observable s service resource limit) s
        (attempt library service resource revision observedAt limit first s).2 :=
    told_attempts hs [first]
  obtain ⟨response,hok⟩ := attempt_succeeds hs hresource hrevision hlimit hfirst
  obtain ⟨-,-,-,hsettled,-⟩ := attempt_eq_ok hok
  obtain ⟨again,hagain⟩ := attempt_succeeds hafter.1 hresource hrevision hlimit hsecond
  obtain ⟨affected,rfl,-,-,hnone⟩ := attempt_eq_ok hagain
  rw [hagain,hnone (hafter.2.observable_eq ▸ hsettled)]

end Working

variable {state : MemoryFreshnessRecord}

theorem uses_of_affectedBy (h : state.AffectedBy service resource revision) :
    state.Uses service resource :=
  h.imp (fun ⟨dependency,hmem,hon,_⟩ => ⟨dependency,hmem,hon⟩)
    fun ⟨reference,hmem,hon,_⟩ => ⟨reference,hmem,hon⟩

theorem freshness_observeRevisionChange (haffected : state.AffectedBy service resource revision)
    (hcurrent : state.freshness = .current) :
    (state.observeRevisionChange service resource revision observedAt).freshness =
      .needsValidation := by
  unfold MemoryFreshnessRecord.observeRevisionChange MemoryFreshnessRecord.questioned
  rw [if_pos haffected,if_pos (by simpa [MemoryFreshnessRecord.recorded] using hcurrent)]
  rfl

theorem attempts_concat {tries : List MemoryCall.Turns} {last : MemoryCall.Turns} :
    attempts library service resource revision observedAt limit s (tries ++ [last]) =
      (attempt library service resource revision observedAt limit last
        (attempts library service resource revision observedAt limit s tries)).2 := by
  unfold attempts
  rw [runAll_append]
  rfl

/-- A memory that has the revision is left as it is, and so is one that is not looked at. -/
theorem Told.eq {id : String} {next : MemoryFreshnessRecord}
    (h : Told service resource revision observedAt ids s t)
    (hstate : s (.freshness id) = some state) (hnext : t (.freshness id) = some next)
    (hleft : id ∉ ids ∨ ¬state.AffectedBy service resource revision) : next = state := by
  rcases h.states id state hstate with hsame | ⟨hid,haffected,-⟩
  · exact Option.some.inj (hnext.symm.trans hsame)
  · exact hleft.elim (absurd hid) (absurd haffected)

theorem noneHidden_of_reaches (hs : Sound s)
    (h : RevisionReaches library service resource revision observedAt limit s)
    (hresource : ¬isBlank resource) (hrevision : ¬isBlank revision) :
    NoneHidden service resource revision limit s := by
  -- two attempts on a working store end, and the first memories are all that they look at
  have hlast := h.ends (by simpa using hresource) (by simpa using hrevision)
    (fun _ => ⟨none,fun q => q.casesOn (fun _ => .error "") (fun _ => none) fun _ => none⟩)
    (fun _ => ⟨none,fun q => q.casesOn (fun _ => .error "") (fun _ => none) fun _ => none⟩)
    (fun _ => rfl) fun _ => rfl
  intro id state hstate huses
  obtain ⟨next,hnext,hrecords,hopen⟩ := h.reached [_] _ hlast id state hstate huses
  have hleft := (told_attempts hs _).2.eq hstate hnext
  constructor
  · by_cases hid : id ∈ observable s service resource limit
    · exact .inl hid
    · exact .inr (hleft (.inl hid) ▸ hrecords)
  · intro hcurrent hrecorded
    have hsame := hleft (.inr (records_iff_not_affectedBy.mp hrecorded))
    rw [hsame,hcurrent] at hopen
    exact nomatch hopen rfl

theorem reaches_of_noneHidden (hs : Sound s) (hlimit : 1 ≤ limit.val ∧ limit.val ≤ 100)
    (h : isBlank resource ∨ isBlank revision ∨ NoneHidden service resource revision limit s) :
    RevisionReaches library service resource revision observedAt limit s where
  ends hresource hrevision _ _ hfirst hsecond :=
    attempt_twice hs hresource hrevision hlimit hfirst hsecond
  reached tries last hlast id state hstate huses := by
    obtain ⟨-,-,⟨hresource,hrevision⟩,hsettled,-⟩ := attempt_eq_ok hlast
    have hhidden := (h.resolve_left hresource).resolve_left hrevision id state hstate huses
    have hafter : Sound (attempts library service resource revision observedAt limit s
          (tries ++ [last])) ∧
        Told service resource revision observedAt (observable s service resource limit) s
          (attempts library service resource revision observedAt limit s (tries ++ [last])) :=
      told_attempts hs _
    rw [(told_attempts hs tries).2.observable_eq,← attempts_concat] at hsettled
    rcases hafter.2.states id state hstate with hsame | ⟨-,haffected,hnext⟩
    · have hrecords : state.Records service resource revision := by
        refine hhidden.1.elim (fun hid => records_iff_not_affectedBy.mpr ?_) fun hrecords => hrecords
        obtain ⟨record,hrecord⟩ := Option.isSome_iff_exists.mp
          ((hafter.1.fresh id).mp (by rw [hsame]; rfl))
        have hnow := hsettled id hid record hrecord
        rwa [stateOf,hsame] at hnow
      exact ⟨state,hsame,hrecords,fun hcurrent => absurd hrecords (hhidden.2 hcurrent)⟩
    · refine ⟨_,hnext,records_iff_not_affectedBy.mpr ?_,freshness_observeRevisionChange haffected⟩
      exact state.not_affectedBy_observeRevisionChange _ _ _ _
  indexed tries id state hstate service' resource' huses :=
    (told_attempts hs tries).1.covered id state hstate service' resource' huses
  unchanged tries id := by
    refine ⟨(told_attempts hs tries).2.entry id,fun state hstate huses => ?_⟩
    exact ((told_attempts hs tries).2.states id state hstate).resolve_right
      fun htold => huses (uses_of_affectedBy htold.2.1)

/-- An observation reaches all memories that use the resource exactly where none is hidden behind
those that are looked at, and none is taken for current that has the revision. -/
theorem revisionReaches_iff (history : List (MemoryCommand × MemoryCall.Turns))
    (hlimit : 1 ≤ limit.val ∧ limit.val ≤ 100) :
    RevisionReaches library service resource revision observedAt limit
        (afterHistory library history) ↔
      isBlank resource ∨ isBlank revision ∨
        NoneHidden service resource revision limit (afterHistory library history) := by
  have hs := sound_afterHistory library history
  refine ⟨fun h => ?_,reaches_of_noneHidden hs hlimit⟩
  by_cases hresource : isBlank resource
  · exact .inl hresource
  by_cases hrevision : isBlank revision
  · exact .inr (.inl hrevision)
  · exact .inr (.inr (noneHidden_of_reaches hs h hresource hrevision))

end Attempts

section Hidden

/-- A library whose encodings are never asked for. -/
def plainLibrary : MemoryLibrary where
  encodeRecords _ := .error "not encoded"
  encodeState _ _ := .error "not encoded"
  decodeOutcome _ := .error "not decoded"
  decodeText _ := .error "not decoded"
  lowercase text := text

/-- A working store, and no other service. -/
def plainTurns : MemoryCall.Turns := fun _ => ⟨none,fun
  | .invoke _ => .error "no service"
  | .embed _ => none
  | .rank _ => none⟩

def guideService : ServiceId := ⟨"guide@1",by decide⟩

/-- A memory that rests on a guide. -/
def guideMemory (id : String) : MemoryRecord where
  id := id
  kind := .fact
  scope := .global
  content := "as the guide says"
  sourceRefs := [⟨guideService,"guide",none,none⟩]
  supersedes := []
  validFrom := none
  validUntil := none
  createdAt := 10

def guideHistory : List (MemoryCommand × MemoryCall.Turns) :=
  [(.record (guideMemory "first"),plainTurns),(.record (guideMemory "second"),plainTurns)]

theorem revision_hidden : ¬RevisionReaches plainLibrary guideService "guide" "2" 20 1
    (afterHistory plainLibrary guideHistory) := by
  intro h
  obtain ⟨next,hnext,hrecords,-⟩ := h.reached [plainTurns] plainTurns (by decide +kernel) "second"
    (guideMemory "second").initialState (by decide +kernel) (by decide +kernel)
  have hsame : next = (guideMemory "second").initialState :=
    Option.some.inj (hnext.symm.trans (by decide +kernel))
  subst hsame
  exact absurd (records_iff_not_affectedBy.mp hrecords) (by decide +kernel)

theorem guide_memories {id : String} {state : MemoryFreshnessRecord}
    (h : afterHistory plainLibrary guideHistory (.freshness id) = some state) :
    id = "first" ∨ id = "second" := by
  have hs := sound_afterHistory plainLibrary guideHistory
  have hlisted := (hs.listed id).mpr ((hs.fresh id).mp (by rw [h]; rfl))
  have hindex : (afterHistory plainLibrary guideHistory (.index .record)).getD [] =
      ["first","second"] := by decide +kernel
  simpa [hindex] using hlisted

theorem revisionReaches_guide : RevisionReaches plainLibrary guideService "guide" "2" 20 2
    (afterHistory plainLibrary guideHistory) := by
  refine (revisionReaches_iff guideHistory (by decide)).mpr (.inr (.inr ?_))
  intro id state hstate _
  rcases guide_memories hstate with rfl | rfl
  · have hsame : state = (guideMemory "first").initialState :=
      Option.some.inj (hstate.symm.trans (by decide +kernel))
    subst hsame
    exact ⟨.inl (by decide +kernel),
      fun _ h => absurd (records_iff_not_affectedBy.mp h) (by decide +kernel)⟩
  · have hsame : state = (guideMemory "second").initialState :=
      Option.some.inj (hstate.symm.trans (by decide +kernel))
    subst hsame
    exact ⟨.inl (by decide +kernel),
      fun _ h => absurd (records_iff_not_affectedBy.mp h) (by decide +kernel)⟩

end Hidden

end PhenixConductor.Memory
