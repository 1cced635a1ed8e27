import PhenixConductor.Collections.Digraph
import PhenixConductor.Execution.StepTransaction

/-! # What the attempt commands can do

A command that fails changes nothing.
-/
namespace PhenixConductor.Execution
open Collections
variable {Route : Type}

namespace AttemptLedger
variable (self : AttemptLedger StepPlan Route)

def attributionOf (attemptId : String) : Option UsageAttribution :=
  (self.attempts.get? attemptId).map (·.attribution)

/-- The attempt that an attempt is a retry of. -/
def retryOf (attemptId : String) : Option String :=
  (self.attributionOf attemptId).bind fun attribution =>
    if attribution.kind = .retry then attribution.parentAttemptId else none

/-- The attempts, whatever has become of them, are the same. -/
def SameAttempts (next : AttemptLedger StepPlan Route) : Prop :=
  ∀ attemptId, next.attributionOf attemptId = self.attributionOf attemptId

variable {self}

/-- The attempt may be created. -/
structure Admits (before : AttemptLedger StepPlan Route) (attribution : UsageAttribution) :
    Prop where
  fresh : before.attributionOf attribution.attemptId = none
  shape : attribution.kind = .root ↔ attribution.parentAttemptId = none
  parent : ∀ parentId, attribution.parentAttemptId = some parentId → ∃ parent,
    before.attempts.get? parentId = some parent ∧
      parent.attribution.rootExecutionId = attribution.rootExecutionId ∧
      (attribution.kind = .retry → parent.phase = .settled ∧ parent.outcome ≠ some .succeeded)

/-- The attempt is created, and nothing else is. -/
structure Creates (before : AttemptLedger StepPlan Route) (attribution : UsageAttribution)
    (next : AttemptLedger StepPlan Route) : Prop where
  admits : before.Admits attribution
  attributionOf : ∀ attemptId, next.attributionOf attemptId =
    if attemptId = attribution.attemptId then some attribution
    else before.attributionOf attemptId

instance sameAttempts_refl :
    Std.Refl (SameAttempts : AttemptLedger StepPlan Route → AttemptLedger StepPlan Route → Prop) :=
  ⟨fun _ _ => rfl⟩

instance sameAttempts_trans : IsTrans (AttemptLedger StepPlan Route) SameAttempts :=
  ⟨fun _ _ _ hab hbc id => (hbc id).trans (hab id)⟩

variable {next : AttemptLedger StepPlan Route}

theorem attributionOf_put (attemptId other : String) (record : StepAttemptRecord StepPlan Route) :
    (self.put attemptId record).attributionOf other =
      if other = attemptId then some record.attribution else self.attributionOf other := by
  unfold attributionOf put
  rw [BTreeMap.get?_insert]
  split_ifs <;> rfl

/-- A record that is put back attributed as it was. -/
theorem sameAttempts_put {attemptId : String} {before record : StepAttemptRecord StepPlan Route}
    (hget : self.attempts.get? attemptId = some before)
    (hsame : record.attribution = before.attribution) :
    self.SameAttempts (self.put attemptId record) := by
  intro other
  rw [attributionOf_put]
  split_ifs with hother
  · rw [hother, attributionOf, hget, Option.map_some, hsame]
  · rfl

theorem SameAttempts.retryOf (h : self.SameAttempts next) : next.retryOf = self.retryOf := by
  funext id
  unfold AttemptLedger.retryOf
  rw [h id]

end AttemptLedger

namespace StepAttemptRecord
variable {self record : StepAttemptRecord StepPlan Route}

theorem requirePhase_eq_ok {expected : StepAttemptPhase} {u : Unit} :
    self.requirePhase expected = .ok u ↔ self.phase = expected := by
  unfold requirePhase
  split_ifs with h <;> simp [h]

theorem new_eq_ok {attribution : UsageAttribution} {plan : StepPlan}
    (h : new attribution plan = .ok record) :
    record = ⟨attribution,plan,.planned,none,none,none,none,none⟩ := by
  simp only [new, seq_eq_ok] at h
  exact (Except.ok.inj h.2.2.2.2.2).symm

theorem bindReservation_eq_ok {reservationId : String}
    (h : self.bindReservation reservationId = .ok record) : self.phase = .planned ∧
      record = { self with reservationId := some reservationId, phase := .reserved } := by
  obtain ⟨⟨⟩,hphase,h⟩ := bind_eq_ok.mp h
  obtain ⟨⟨⟩,-,h⟩ := bind_eq_ok.mp h
  exact ⟨requirePhase_eq_ok.mp hphase,(Except.ok.inj h).symm⟩

theorem bindRoute_eq_ok {decision : Route} (h : self.bindRoute decision = .ok record) :
    self.phase = .reserved ∧
      record = { self with route := some decision, phase := .routed } := by
  obtain ⟨⟨⟩,hphase,h⟩ := bind_eq_ok.mp h
  exact ⟨requirePhase_eq_ok.mp hphase,(Except.ok.inj h).symm⟩

theorem bindProjection_eq_ok {projection : ProjectionRevision}
    (h : self.bindProjection projection = .ok record) : self.phase = .routed ∧
      record = { self with projection := some projection, phase := .contextAdmitted } := by
  obtain ⟨⟨⟩,hphase,h⟩ := bind_eq_ok.mp h
  exact ⟨requirePhase_eq_ok.mp hphase,(Except.ok.inj h).symm⟩

theorem markDispatched_eq_ok {dispatchId : String}
    (h : self.markDispatched dispatchId = .ok record) : self.phase = .contextAdmitted ∧
      record = { self with dispatchId := some dispatchId, phase := .dispatched } := by
  obtain ⟨⟨⟩,hphase,h⟩ := bind_eq_ok.mp h
  obtain ⟨⟨⟩,-,h⟩ := bind_eq_ok.mp h
  exact ⟨requirePhase_eq_ok.mp hphase,(Except.ok.inj h).symm⟩

end StepAttemptRecord

namespace AttemptLedger
variable {self next : AttemptLedger StepPlan Route}

variable {kind : UsageAttemptKind} {parentAttemptId : Option String}

theorem validateParentShape_eq_ok {u : Unit} (h : validateParentShape kind parentAttemptId = .ok u) :
    kind = .root ↔ parentAttemptId = none := by
  cases kind <;> cases parentAttemptId <;> simp [validateParentShape] at h ⊢

variable {rootExecutionId : String}

theorem validateParent_eq_ok {parent : StepAttemptRecord StepPlan Route} {u : Unit}
    (h : validateParent rootExecutionId kind parent = .ok u) :
    parent.attribution.rootExecutionId = rootExecutionId ∧
      (kind = .retry → parent.phase = .settled ∧ parent.outcome ≠ some .succeeded) := by
  unfold validateParent at h
  split_ifs at h with hroot hphase houtcome
  refine ⟨not_not.mp hroot,fun hkind => ⟨?_,fun hsucceeded => houtcome ⟨hkind,hsucceeded⟩⟩⟩
  exact not_not.mp fun hne => hphase ⟨hkind,hne⟩

variable {attribution : UsageAttribution}

/-- An attempt that may be created has a new name and a parent that may have it. -/
theorem creatable_eq_ok {plan : StepPlan} {record : StepAttemptRecord StepPlan Route}
    (h : self.creatable attribution plan = .ok record) : self.Admits attribution ∧
      record = ⟨attribution,plan,.planned,none,none,none,none,none⟩ := by
  simp only [creatable, seq_eq_ok, ensure_eq_ok] at h
  obtain ⟨hfresh,-,hshape,hparent,h⟩ := h
  refine ⟨⟨?_,validateParentShape_eq_ok hshape,?_⟩,
    StepAttemptRecord.new_eq_ok (mapError_eq_ok.mp h)⟩
  · rw [attributionOf, (BTreeMap.get?_eq_none _).mpr hfresh, Option.map_none]
  · intro parentId hnamed
    rw [hnamed, validateParentOf] at hparent
    cases hget : self.attempts.get? parentId with
    | none => simp [hget] at hparent
    | some parent =>
      rw [hget] at hparent
      obtain ⟨hroot,hretry⟩ := validateParent_eq_ok hparent
      exact ⟨parent,rfl,hroot,hretry⟩

variable {response : StepAttemptResponse Route}

variable
  {change : StepAttemptRecord StepPlan Route → Except StepAttemptTransitionError (StepAttemptRecord StepPlan Route)}

theorem mutation_eq_ok {attemptId text : String} :
    self.mutation attemptId text change = .ok (response,next) ↔ ∃ attempt record,
      self.attempts.get? attemptId = some attempt ∧ change attempt = .ok record ∧
        response = .attempt record ∧ next = self.put attemptId record := by
  unfold mutation
  rw [map_eq_ok]
  constructor
  · rintro ⟨changed,hcopy,hanswer⟩
    obtain ⟨attempt,record,hget,hchange,rfl⟩ := onCopy_mutate.mp hcopy
    cases hanswer
    exact ⟨attempt,record,hget,hchange,rfl,rfl⟩
  · rintro ⟨attempt,record,hget,hchange,rfl,rfl⟩
    exact ⟨_,onCopy_mutate.mpr ⟨attempt,record,hget,hchange,rfl⟩,rfl⟩

theorem sameAttempts_of_mutation {attemptId text : String}
    (hchange : ∀ attempt record, change attempt = .ok record → record.attribution = attempt.attribution)
    (h : self.mutation attemptId text change = .ok (response,next)) : self.SameAttempts next := by
  obtain ⟨attempt,record,hget,hrecord,-,rfl⟩ := mutation_eq_ok.mp h
  exact sameAttempts_put hget (hchange attempt record hrecord)

theorem allocated_eq_ok {executionId policyRevision : String}
    {changed : UsageAttribution × AttemptLedger StepPlan Route}
    (h : self.allocated rootExecutionId executionId parentAttemptId policyRevision kind = .ok changed) :
    changed.2.attempts = self.attempts := by
  simp only [allocated, seq_eq_ok] at h
  obtain ⟨sequence,-,hallocated⟩ := bind_eq_ok.mp h.2.2.2.2.2.2
  cases hallocated
  rfl

theorem answer_create {plan : StepPlan}
    (h : self.answer (.create attribution plan) = .ok (response,next)) : self.Admits attribution ∧
      response = .attempt ⟨attribution,plan,.planned,none,none,none,none,none⟩ ∧
      next = self.put attribution.attemptId
        ⟨attribution,plan,.planned,none,none,none,none,none⟩ := by
  rw [answer, map_eq_ok] at h
  obtain ⟨record,hrecord,hanswer⟩ := h
  obtain ⟨hadmits,rfl⟩ := creatable_eq_ok hrecord
  cases hanswer
  exact ⟨hadmits,rfl,rfl⟩

/-- Create adds the attempt that it names; no other command adds or changes one. -/
theorem answer_cases {command : StepAttemptCommand Route}
    (h : self.answer command = .ok (response,next)) :
    (∃ attribution plan, command = .create attribution plan ∧ self.Creates attribution next) ∨
      (∀ attribution plan, command ≠ .create attribution plan) ∧ self.SameAttempts next := by
  cases command with
  | allocateIdentity rootExecutionId executionId parentAttemptId policyRevision kind =>
    rw [answer, map_eq_ok] at h
    obtain ⟨changed,hchanged,hanswer⟩ := h
    cases hanswer
    refine .inr ⟨by simp,fun id => ?_⟩
    rw [attributionOf, allocated_eq_ok hchanged, attributionOf]
  | create attribution plan =>
    obtain ⟨hadmits,-,rfl⟩ := answer_create h
    exact .inl ⟨attribution,plan,rfl,hadmits,fun id => attributionOf_put _ _ _⟩
  | get attemptId =>
    cases h
    exact .inr ⟨by simp,fun _ => rfl⟩
  | listRoot rootExecutionId =>
    cases h
    exact .inr ⟨by simp,fun _ => rfl⟩
  | bindReservation attemptId reservationId =>
    refine .inr ⟨by simp,sameAttempts_of_mutation (fun attempt record hrecord => ?_) h⟩
    rw [(StepAttemptRecord.bindReservation_eq_ok hrecord).2]
  | bindRoute attemptId decision =>
    refine .inr ⟨by simp,sameAttempts_of_mutation (fun attempt record hrecord => ?_) h⟩
    rw [(StepAttemptRecord.bindRoute_eq_ok hrecord).2]
  | bindProjection attemptId projection =>
    refine .inr ⟨by simp,sameAttempts_of_mutation (fun attempt record hrecord => ?_) h⟩
    rw [(StepAttemptRecord.bindProjection_eq_ok hrecord).2]
  | markDispatched attemptId dispatchId =>
    refine .inr ⟨by simp,sameAttempts_of_mutation (fun attempt record hrecord => ?_) h⟩
    rw [(StepAttemptRecord.markDispatched_eq_ok hrecord).2]
  | abort attemptId outcome =>
    refine .inr ⟨by simp,sameAttempts_of_mutation (fun attempt record hrecord => ?_) h⟩
    rw [(abort_eq_ok.mp hrecord).2.2]
    rfl
  | settle attemptId outcome =>
    refine .inr ⟨by simp,sameAttempts_of_mutation (fun attempt record hrecord => ?_) h⟩
    rw [(settle_eq_ok.mp hrecord).2]
    rfl

end AttemptLedger

section Invoke
variable {store : AttemptStore Route} {command : StepAttemptCommand Route}
  {ledger next : AttemptLedger StepPlan Route} {response : StepAttemptResponse Route}

theorem attemptAnswer_eq_ok (h : attemptAnswer store command ledger = .ok (response,next)) :
    ledger.answer command = .ok (response,next) ∧
      (command.readsOnly = false → encodeLedger store.encoding next = .ok ()) := by
  obtain ⟨⟨⟩,-,h⟩ := bind_eq_ok.mp h
  obtain ⟨⟨found,changed⟩,hanswer,h⟩ := bind_eq_ok.mp h
  split_ifs at h with hreads
  · cases h
    exact ⟨hanswer,fun hmutates => by simp [hreads] at hmutates⟩
  · obtain ⟨⟨⟩,hencode,h⟩ := bind_eq_ok.mp h
    obtain ⟨⟨⟩,-,h⟩ := bind_eq_ok.mp h
    cases h
    exact ⟨hanswer,fun _ => mapError_eq_ok.mp hencode⟩

theorem length_le_of_encodeLedger {encoding : LedgerEncoding Route}
    (h : encodeLedger encoding ledger = .ok ()) :
    ledger.attempts.keys.length ≤ maxAttemptStateBytes := by
  obtain ⟨encoded,hencoded,hfits⟩ := bind_eq_ok.mp h
  exact (encoding.dense ledger encoded hencoded).trans (ensure_eq_ok.mp hfits)

theorem invokeAttempts_eq : invokeAttempts store command ledger =
    match attemptAnswer store command ledger with
    | .ok (response,next) => .ok response next
    | .error failure => .error failure ledger := by
  simp only [invokeAttempts, stateful_bind, stateful_get]
  cases attemptAnswer store command ledger <;> rfl

end Invoke

end PhenixConductor.Execution
