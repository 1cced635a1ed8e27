import PhenixConductor.Context.Compaction

/-! # Runs of the operations on a projection

A proposal stays ready from its preparation to the next change of the projection, because every
change drops what is prepared.
-/
namespace PhenixConductor.Context
open Collections EStateM
open Execution (U64)

inductive ProjectionOperation
  | applyAdmission (result : ContextAdmissionResult)
  | prepareCompaction (proposal : CompactionProposal)
  | commitCompaction (checkpointId : String)
  | invalidateForContextMutation

namespace ProjectionOperation

def perform : ProjectionOperation → ProjectionM Unit
  | applyAdmission result => ContextProjectionState.applyAdmission result
  | prepareCompaction proposal => ContextProjectionState.prepareCompaction proposal
  | commitCompaction checkpointId => do
    let _ ← ContextProjectionState.commitCompaction checkpointId
  | invalidateForContextMutation => modify (·.invalidateForContextMutation)

/-- The operation moves the projection to a later revision. -/
def Advances : ProjectionOperation → Prop
  | applyAdmission _ => True
  | prepareCompaction _ => False
  | commitCompaction _ => True
  | invalidateForContextMutation => True

/-- The operation moves the projection to a later epoch of the cache. -/
def Renews : ProjectionOperation → Prop
  | applyAdmission _ => False
  | prepareCompaction _ => False
  | commitCompaction _ => True
  | invalidateForContextMutation => True

end ProjectionOperation

namespace ContextProjectionState

def step (self : ContextProjectionState) (operation : ProjectionOperation) :
    ContextProjectionState := after operation.perform self

def Fails (self : ContextProjectionState) (operation : ProjectionOperation) : Prop :=
  ∃ error next, operation.perform self = .error error next

/-- Neither counter is at its end. -/
def Unexhausted (self : ContextProjectionState) : Prop :=
  (self.revision.revision : ℕ) < 2 ^ 64 - 1 ∧ (self.revision.cacheEpoch : ℕ) < 2 ^ 64 - 1

/-- What an operation has to do to a projection. -/
structure Lawful (before : ContextProjectionState) (operation : ProjectionOperation) : Prop where
  failed : ∀ error next, operation.perform before = .error error next → next = before
  advances : ∀ next, operation.perform before = .ok () next → operation.Advances →
    before.Unexhausted → before.revision.revision < next.revision.revision ∧
      before.revision.cacheEpoch ≤ next.revision.cacheEpoch
  renews : ∀ next, operation.perform before = .ok () next → operation.Renews →
    before.Unexhausted → before.revision.cacheEpoch < next.revision.cacheEpoch
  expects : ∀ id proposal, (before.step operation).prepared.get? id = some proposal →
    proposal.expectedProjection = (before.step operation).revision
  accepted : ∀ proposal next, operation = .prepareCompaction proposal →
    operation.perform before = .ok () next → ∀ later, Along step Fails next later →
      ∃ commit last, commitCompaction proposal.checkpoint.checkpointId
        (runAll step next later) = .ok commit last
  commits : ∀ id next, operation = .commitCompaction id → operation.perform before = .ok () next →
    ∃ proposal, before.prepared.get? id = some proposal ∧
      Compacts proposal.transitions before.admitted next.admitted

/-- A proposal is accepted only if its transitions are chained. -/
def ChainedOnly (self : ContextProjectionState) (operation : ProjectionOperation) : Prop :=
  ∀ proposal, operation = .prepareCompaction proposal → ¬ self.Fails operation → proposal.Chained

/-- The checks of a proposal pass. -/
structure Ready (state : ContextProjectionState) (proposal : CompactionProposal) : Prop where
  valid : proposal.validateAgainst state.revision = .ok ()
  fits : ∀ transition ∈ proposal.transitions, ∃ item, state.itemFor transition = .ok item

/-- Everything that is prepared can be committed. -/
def Sound (self : ContextProjectionState) : Prop :=
  ∀ id proposal, self.prepared.get? id = some proposal → self.Ready proposal ∧ proposal.Chained

end ContextProjectionState

theorem CompactionProposal.validateAgainst_eq_ok {self : CompactionProposal}
    {actual : ProjectionRevision} (h : self.validateAgainst actual = .ok ()) :
    self.expectedProjection = actual ∧ actual.cacheEpoch < self.nextCacheEpoch ∧
      ∀ transition ∈ self.transitions, transition.validate = .ok () := by
  unfold validateAgainst at h
  split_ifs at h with hstale hepoch hsource
  exact ⟨not_ne_iff.mp hstale,not_le.mp hepoch,forM_eq_ok.mp h⟩

namespace ContextProjectionState
variable {self next : ContextProjectionState} {proposal : CompactionProposal} {id : String}
  {commit : CompactionCommit}

theorem Ready.of_eq (h : self.Ready proposal) (hrevision : next.revision = self.revision)
    (hadmitted : next.admitted = self.admitted) : next.Ready proposal where
  valid := hrevision ▸ h.valid
  fits transition ht := by
    unfold itemFor
    rw [hadmitted]
    exact h.fits transition ht

theorem ready_of_preparable (h : self.preparable proposal = .ok ()) : self.Ready proposal := by
  obtain ⟨-,h⟩ := seq_eq_ok.mp h
  obtain ⟨hvalid,h⟩ := seq_eq_ok.mp h
  obtain ⟨hfits,-⟩ := seq_eq_ok.mp h
  refine ⟨mapError_eq_ok.mp hvalid,fun transition ht => ?_⟩
  obtain ⟨item,hitem,-⟩ := bind_eq_ok.mp (forM_eq_ok.mp hfits transition ht)
  exact ⟨item,hitem⟩

theorem commitProposal_eq_ok : commitProposal proposal self = .ok commit next ↔
    proposal.validateAgainst self.revision = .ok () ∧ ∃ middle,
      proposal.transitions.forM applyTransition self = .ok ⟨⟩ middle ∧
        next = middle.withCompaction proposal ∧ commit = ⟨proposal,next.revision⟩ := by
  simp only [commitProposal, stateful_bind, stateful_get]
  cases proposal.validateAgainst self.revision with
  | error e => simp [Except.mapError]
  | ok _ =>
    simp only [Except.mapError, check_ok]
    cases proposal.transitions.forM applyTransition self with
    | error e middle => simp
    | ok _ middle =>
      simp only [stateful_modify, stateful_pure, Result.ok.injEq, true_and]
      constructor
      · rintro ⟨rfl,rfl⟩
        exact ⟨middle,rfl,rfl,rfl⟩
      · rintro ⟨_,rfl,rfl,rfl⟩
        exact ⟨rfl,rfl⟩

theorem commitCompaction_eq_ok : commitCompaction id self = .ok commit next ↔
    ∃ proposal, self.prepared.get? id = some proposal ∧
      commitProposal proposal { self with prepared := self.prepared.erase id } =
        .ok commit next := by
  simp only [commitCompaction, stateful_bind, stateful_get]
  cases self.prepared.get? id with
  | none => simp
  | some proposal => simp [stateful_bind]

/-- A ready proposal is committed if and only if it is chained. -/
theorem exists_commitCompaction_iff (hget : self.prepared.get? id = some proposal)
    (hready : self.Ready proposal) :
    (∃ commit next, commitCompaction id self = .ok commit next) ↔ proposal.Chained := by
  have hready' : ({ self with prepared := self.prepared.erase id } :
    ContextProjectionState).Ready proposal := hready.of_eq rfl rfl
  rw [CompactionProposal.Chained, ← exists_applyTransitions_iff hready'.fits]
  constructor
  · rintro ⟨commit,next,h⟩
    obtain ⟨proposal',hget',h⟩ := commitCompaction_eq_ok.mp h
    obtain rfl := Option.some.inj (hget.symm.trans hget')
    obtain ⟨-,middle,hmiddle,-⟩ := commitProposal_eq_ok.mp h
    exact ⟨middle,hmiddle⟩
  · rintro ⟨middle,hmiddle⟩
    exact ⟨_,_,commitCompaction_eq_ok.mpr ⟨proposal,hget,
      commitProposal_eq_ok.mpr ⟨hready'.valid,middle,hmiddle,rfl,rfl⟩⟩⟩

/-- What a commit does. -/
theorem commitCompaction_changes (h : commitCompaction id self = .ok commit next) :
    ∃ proposal, self.prepared.get? id = some proposal ∧
      self.revision.cacheEpoch < proposal.nextCacheEpoch ∧
      next.revision = ⟨saturatingAdd self.revision.revision 1,proposal.nextCacheEpoch⟩ ∧
      next.prepared = .empty ∧ Compacts proposal.transitions self.admitted next.admitted := by
  obtain ⟨proposal,hget,h⟩ := commitCompaction_eq_ok.mp h
  obtain ⟨hvalid,middle,hmiddle,rfl,-⟩ := commitProposal_eq_ok.mp h
  obtain ⟨-,hepoch,htransitions⟩ := CompactionProposal.validateAgainst_eq_ok hvalid
  obtain ⟨hsame,hcompacts⟩ := applyTransitions_eq_ok htransitions hmiddle
  refine ⟨proposal,hget,hepoch,?_,rfl,hcompacts⟩
  rw [hsame]
  rfl

theorem lt_saturatingAdd {n : U64} (h : (n : ℕ) < 2 ^ 64 - 1) : n < saturatingAdd n 1 := by
  rw [Fin.lt_def, val_saturatingAdd, Fin.val_one]
  omega

open ProjectionOperation (perform)
theorem perform_admission_eq_ok {result : ContextAdmissionResult} :
    (ProjectionOperation.applyAdmission result).perform self = .ok () next ↔
      self.admissible result = .ok () ∧ next = self.withAdmission result := by
  simp only [perform, applyAdmission, checked_eq]
  cases self.admissible result <;> simp [eq_comm]

theorem epoch_le_of_admissible {result : ContextAdmissionResult}
    (h : self.admissible result = .ok ()) : self.revision.cacheEpoch ≤ result.cacheEpoch := by
  obtain ⟨-,h⟩ := seq_eq_ok.mp h
  unfold requireEpoch at h
  split_ifs at h with hepoch
  exact not_lt.mp hepoch

theorem perform_commit_eq_ok :
    (ProjectionOperation.commitCompaction id).perform self = .ok () next ↔
      ∃ commit, commitCompaction id self = .ok commit next := by
  simp only [perform, stateful_bind]
  cases commitCompaction id self <;> simp

theorem perform_prepare_eq_ok :
    (ProjectionOperation.prepareCompaction proposal).perform self = .ok () next ↔
      self.preparable proposal = .ok () ∧ next = { self with
        prepared := self.prepared.insert proposal.checkpoint.checkpointId proposal } := by
  simp only [perform, prepareCompaction, checked_eq]
  cases self.preparable proposal <;> simp [eq_comm]

theorem not_fails_prepare_iff :
    ¬ self.Fails (.prepareCompaction proposal) ↔ self.preparable proposal = .ok () := by
  simp only [Fails, perform, prepareCompaction, checked_eq]
  cases self.preparable proposal <;> simp

variable {operation : ProjectionOperation}

/-- A failing operation leaves a sound projection as it is. -/
theorem Sound.failed (hself : self.Sound) {error : ProjectionStateError}
    (h : operation.perform self = .error error next) : next = self := by
  cases operation with
  | applyAdmission result => exact checked_eq_error h
  | prepareCompaction proposal => exact checked_eq_error h
  | commitCompaction id =>
    cases hget : self.prepared.get? id with
    | none =>
      simp only [perform, commitCompaction, stateful_bind, stateful_get, hget,
        stateful_throw, Result.error.injEq] at h
      exact h.2.symm
    | some proposal =>
      obtain ⟨hready,hchained⟩ := hself id proposal hget
      obtain ⟨commit,last,hcommit⟩ := (exists_commitCompaction_iff hget hready).mpr hchained
      rw [perform_commit_eq_ok.mpr ⟨commit,hcommit⟩] at h
      cases h
  | invalidateForContextMutation => cases h

theorem Sound.of_prepared (h : self.prepared = .empty) : self.Sound := by
  intro id proposal hget
  rw [h] at hget
  cases hget

theorem Sound.step (hself : self.Sound) (hchained : self.ChainedOnly operation) :
    (self.step operation).Sound := by
  cases hresult : operation.perform self with
  | error error next =>
    rw [ContextProjectionState.step, after_error hresult, hself.failed hresult]
    exact hself
  | ok result next =>
    rw [ContextProjectionState.step, after_ok hresult]
    cases operation with
    | applyAdmission result =>
      obtain ⟨-,rfl⟩ := perform_admission_eq_ok.mp hresult
      exact .of_prepared rfl
    | prepareCompaction proposal =>
      obtain ⟨hpreparable,rfl⟩ := perform_prepare_eq_ok.mp hresult
      intro id other hget
      rw [BTreeMap.get?_insert] at hget
      split_ifs at hget with hid
      · cases hget
        exact ⟨(ready_of_preparable hpreparable).of_eq rfl rfl,
          hchained proposal rfl (not_fails_prepare_iff.mpr hpreparable)⟩
      · exact (hself id other hget).imp_left (·.of_eq rfl rfl)
    | commitCompaction id =>
      obtain ⟨commit,hcommit⟩ := perform_commit_eq_ok.mp hresult
      obtain ⟨proposal,-,-,-,hprepared,-⟩ := commitCompaction_changes hcommit
      exact .of_prepared hprepared
    | invalidateForContextMutation =>
      cases hresult
      exact .of_prepared rfl

/-- Operations that all fail leave a sound projection as it is. -/
theorem Sound.runAll_failed (hself : self.Sound) {later : List ProjectionOperation}
    (h : Along ContextProjectionState.step Fails self later) :
    runAll ContextProjectionState.step self later = self := by
  induction later with
  | nil => rfl
  | cons operation later ih =>
    obtain ⟨⟨error,next,hfailed⟩,h⟩ := h
    have hstep : self.step operation = self := by
      rw [ContextProjectionState.step, after_error hfailed, hself.failed hfailed]
    rw [runAll_cons, hstep]
    rw [hstep] at h
    exact ih h

theorem exists_commit_of_prepared (hpreparable : self.preparable proposal = .ok ())
    (hperform : (ProjectionOperation.prepareCompaction proposal).perform self = .ok () next) :
    (∃ commit last, commitCompaction proposal.checkpoint.checkpointId next = .ok commit last) ↔
      proposal.Chained := by
  obtain ⟨-,rfl⟩ := perform_prepare_eq_ok.mp hperform
  exact exists_commitCompaction_iff (BTreeMap.get?_insert_self ..)
    ((ready_of_preparable hpreparable).of_eq rfl rfl)

theorem Sound.lawful (hself : self.Sound) (hchained : self.ChainedOnly operation) :
    self.Lawful operation where
  failed error next h := hself.failed h
  advances next h hadvances hbelow := by
    cases operation with
    | applyAdmission result =>
      obtain ⟨hadmissible,rfl⟩ := perform_admission_eq_ok.mp h
      exact ⟨lt_saturatingAdd hbelow.1,epoch_le_of_admissible hadmissible⟩
    | prepareCompaction proposal => exact hadvances.elim
    | commitCompaction id =>
      obtain ⟨commit,hcommit⟩ := perform_commit_eq_ok.mp h
      obtain ⟨proposal,-,hepoch,hrevision,-,-⟩ := commitCompaction_changes hcommit
      rw [hrevision]
      exact ⟨lt_saturatingAdd hbelow.1,hepoch.le⟩
    | invalidateForContextMutation =>
      cases h
      exact ⟨lt_saturatingAdd hbelow.1,(lt_saturatingAdd hbelow.2).le⟩
  renews next h hrenews hbelow := by
    cases operation with
    | applyAdmission result => exact hrenews.elim
    | prepareCompaction proposal => exact hrenews.elim
    | commitCompaction id =>
      obtain ⟨commit,hcommit⟩ := perform_commit_eq_ok.mp h
      obtain ⟨proposal,-,hepoch,hrevision,-,-⟩ := commitCompaction_changes hcommit
      rw [hrevision]
      exact hepoch
    | invalidateForContextMutation =>
      cases h
      exact lt_saturatingAdd hbelow.2
  expects id proposal hget :=
    (CompactionProposal.validateAgainst_eq_ok ((hself.step hchained) id proposal hget).1.valid).1
  accepted proposal next hoperation h later hlater := by
    subst hoperation
    have hpreparable := (perform_prepare_eq_ok.mp h).1
    have hnext : next.Sound := by
      rw [← after_ok h]
      exact hself.step hchained
    rw [hnext.runAll_failed hlater]
    exact (exists_commit_of_prepared hpreparable h).mpr
      (hchained proposal rfl (not_fails_prepare_iff.mpr hpreparable))
  commits id next hoperation h := by
    subst hoperation
    obtain ⟨commit,hcommit⟩ := perform_commit_eq_ok.mp h
    obtain ⟨proposal,hget,-,-,-,hcompacts⟩ := commitCompaction_changes hcommit
    exact ⟨proposal,hget,hcompacts⟩

theorem Lawful.chainedOnly (h : self.Lawful operation) : self.ChainedOnly operation := by
  rintro proposal rfl hsucceeds
  have hpreparable := not_fails_prepare_iff.mp hsucceeds
  have hperform := perform_prepare_eq_ok.mpr ⟨hpreparable,rfl⟩
  exact (exists_commit_of_prepared hpreparable hperform).mp
    (h.accepted proposal _ rfl hperform [] trivial)

end ContextProjectionState

/-- A run obeys the laws at every step if and only if every proposal that it accepts is chained. -/
theorem projection_lawful_iff (executionId : String) (operations : List ProjectionOperation) :
    Along ContextProjectionState.step ContextProjectionState.Lawful (.new executionId) operations ↔
      Along ContextProjectionState.step ContextProjectionState.ChainedOnly (.new executionId)
        operations := by
  constructor
  · exact Along.mono fun state operation => ContextProjectionState.Lawful.chainedOnly
  · intro h
    have hnew : (ContextProjectionState.new executionId).Sound := .of_prepared rfl
    rw [along_iff]
    intro before operation hbefore
    obtain ⟨after,rfl⟩ := hbefore
    obtain ⟨h,-⟩ := along_append.mp h
    obtain ⟨hrun,hlast,-⟩ := along_append.mp h
    exact (hrun.invariant (fun state operation hstate hok => hstate.step hok) hnew).lawful hlast

/-- Somewhere the exact text of a note can be found. -/
def noteReference : ExactContextReference where
  resourceId := ⟨"notes",by decide +kernel⟩
  revision := ⟨"first",by decide +kernel⟩

def noteItem : AdmittedContextItem where
  id := "note"
  source := .inline "note"
  contentIdentity := "note"
  form := .full
  cache := .stablePrefix
  retention := .full
  estimatedTokens := 20
  recovery := none

def noteAdmission : ContextAdmissionResult where
  executionId := "execution"
  policyRevision := "policy"
  cacheEpoch := 1
  admitted := [noteItem]
  usedInputTokens := 20
  omittedInputTokens := 0
  deduplicatedItems := 0

/-- A proposal that moves the same full note to two retentions. -/
def movedTwice : CompactionProposal where
  executionId := "execution"
  expectedProjection := ⟨1,1⟩
  nextCacheEpoch := 2
  transitions := [⟨"note",.full,.compact,some noteReference⟩,⟨"note",.full,.reference,
    some noteReference⟩]
  checkpoint :=
    { checkpointId := "checkpoint"
      executionId := "execution"
      sourceRevision := ⟨1,1⟩
      contentIdentity := "summary"
      compactView := [1]
      exactSources := [noteReference]
      toolGroups := [] }

/-- The projection that has accepted the proposal. -/
def notePrepared : ContextProjectionState :=
  runAll ContextProjectionState.step (.new "execution")
    [.applyAdmission noteAdmission,.prepareCompaction movedTwice]

/-- The proposal is accepted, and its commit stops after the first of its transitions. -/
theorem half_committed : ∃ operations error next,
    runAll ContextProjectionState.step (.new "execution") operations = notePrepared ∧
      notePrepared.prepared.get? "checkpoint" = some movedTwice ∧
      (ProjectionOperation.commitCompaction "checkpoint").perform notePrepared =
        .error error next ∧
      next.admitted ≠ notePrepared.admitted ∧ next.prepared ≠ notePrepared.prepared ∧
      next.revision = notePrepared.revision :=
  ⟨[.applyAdmission noteAdmission,.prepareCompaction movedTwice],
    .retentionMismatch "note" .compact .full,
    after (ProjectionOperation.commitCompaction "checkpoint").perform notePrepared,
    rfl,by decide +kernel,by rfl,by decide +kernel,by decide +kernel,by decide +kernel⟩

end PhenixConductor.Context
