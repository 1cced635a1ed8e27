import PhenixConductor.Execution.AttemptSteps
import PhenixConductor.Collections.JsonText

/-! # The attempts of a run

A command creates an attempt in its first phase, takes one attempt a phase further, or leaves
all of them as they are.
-/
namespace PhenixConductor.Execution
open Collections Relation StepAttemptRecord StepAttemptPhase
variable {Route : Type}

namespace StepAttemptPhase

def position : StepAttemptPhase → ℕ
  | .planned => 0
  | .reserved => 1
  | .routed => 2
  | .contextAdmitted => 3
  | .dispatched => 4
  | .settled => 5

/-- A phase is followed by the next one, or by the end where nothing has been dispatched. -/
inductive Follows : StepAttemptPhase → StepAttemptPhase → Prop
  | reserve : Follows .planned .reserved
  | route : Follows .reserved .routed
  | admitContext : Follows .routed .contextAdmitted
  | dispatch : Follows .contextAdmitted .dispatched
  | settle : Follows .dispatched .settled
  | abort {phase : StepAttemptPhase} (undispatched : phase ≠ .dispatched)
      (unsettled : phase ≠ .settled) : Follows phase .settled

end StepAttemptPhase

namespace StepAttemptRecord

/-- The attempt has what is bound up to a phase, and nothing that is bound later. -/
structure Got (record : StepAttemptRecord StepPlan Route) (phase : StepAttemptPhase) : Prop where
  unsettled : phase ≠ .settled
  reservationId : record.reservationId.isSome ↔ reserved.position ≤ phase.position
  route : record.route.isSome ↔ routed.position ≤ phase.position
  projection : record.projection.isSome ↔
    contextAdmitted.position ≤ phase.position
  dispatchId : record.dispatchId.isSome ↔ StepAttemptPhase.dispatched.position ≤ phase.position

/-- The attempt got as far as its phase, or to an earlier one before it was closed. -/
structure Shaped (record : StepAttemptRecord StepPlan Route) : Prop where
  got : ∃ phase, record.Got phase ∧ (record.phase = phase ∨ record.phase = .settled)
  outcome : record.outcome.isSome ↔ record.phase = .settled
  succeeded : record.outcome = some .succeeded → record.Got .dispatched

/-- What the attempt has stays as it is. -/
structure Continues (before later : StepAttemptRecord StepPlan Route) : Prop where
  attribution : later.attribution = before.attribution
  plan : later.plan = before.plan
  phase : ReflTransGen StepAttemptPhase.Follows before.phase later.phase
  reservationId : ∀ reservationId ∈ before.reservationId, later.reservationId = some reservationId
  route : ∀ route ∈ before.route, later.route = some route
  projection : ∀ projection ∈ before.projection, later.projection = some projection
  dispatchId : ∀ dispatchId ∈ before.dispatchId, later.dispatchId = some dispatchId
  outcome : ∀ outcome ∈ before.outcome, later.outcome = some outcome

/-- The attempt is closed, and not by a success. -/
def Failed (record : StepAttemptRecord StepPlan Route) : Prop :=
  record.phase = .settled ∧ ∃ outcome ≠ .succeeded, record.outcome = some outcome

/-- What a command can do to an attempt. -/
inductive Advances (before : StepAttemptRecord StepPlan Route) :
    StepAttemptRecord StepPlan Route → Prop
  | reserve (h : before.phase = .planned) (reservationId : String) :
      Advances before { before with reservationId := some reservationId, phase := .reserved }
  | route (h : before.phase = .reserved) (decision : Route) :
      Advances before { before with route := some decision, phase := .routed }
  | admitContext (h : before.phase = .routed) (projection : ProjectionRevision) :
      Advances before { before with projection := some projection, phase := .contextAdmitted }
  | dispatch (h : before.phase = .contextAdmitted) (dispatchId : String) :
      Advances before { before with dispatchId := some dispatchId, phase := .dispatched }
  | settle (h : before.phase = .dispatched) (outcome : AttemptOutcome) :
      Advances before (before.closed outcome)
  | abort (undispatched : before.phase ≠ .dispatched) (unsettled : before.phase ≠ .settled)
      {outcome : AttemptOutcome} (unsuccessful : outcome ≠ .succeeded) :
      Advances before (before.closed outcome)

variable {record before later : StepAttemptRecord StepPlan Route}

theorem Advances.follows (h : before.Advances later) : before.phase.Follows later.phase := by
  cases h with
  | reserve h => exact h ▸ .reserve
  | route h => exact h ▸ .route
  | admitContext h => exact h ▸ .admitContext
  | dispatch h => exact h ▸ .dispatch
  | settle h => exact h ▸ .settle
  | abort undispatched unsettled => exact .abort undispatched unsettled

theorem Advances.attribution (h : before.Advances later) :
    later.attribution = before.attribution := by
  cases h <;> rfl

/-- An attempt that is not closed got as far as its phase. -/
theorem Shaped.got_phase (h : record.Shaped) (hphase : record.phase ≠ .settled) :
    record.Got record.phase := by
  obtain ⟨phase,hgot,rfl | hsettled⟩ := h.got
  · exact hgot
  · exact absurd hsettled hphase

theorem Shaped.outcome_eq_none (h : record.Shaped) (hphase : record.phase ≠ .settled) :
    record.outcome = none :=
  Option.not_isSome_iff_eq_none.mp (mt h.outcome.mp hphase)

/-- What is set in a phase was not there before it. -/
theorem eq_none_of_got {α : Type} {field : Option α} {phase bound : StepAttemptPhase}
    (h : field.isSome ↔ bound.position ≤ phase.position)
    (hlt : phase.position < bound.position) : field = none :=
  Option.not_isSome_iff_eq_none.mp (mt h.mp (Nat.not_le.mpr hlt))

theorem Shaped.continues (h : before.Shaped) (hadvances : before.Advances later) :
    before.Continues later := by
  have hphase := ReflTransGen.single hadvances.follows
  have hunsettled : before.phase ≠ .settled := by
    cases hadvances <;> simp_all
  have hgot := h.got_phase hunsettled
  have hnone := h.outcome_eq_none hunsettled
  cases hadvances with
  | reserve hfrom =>
    rw [hfrom] at hgot
    refine ⟨rfl,rfl,hphase,?_,fun _ h => h,fun _ h => h,fun _ h => h,fun _ h => h⟩
    rw [eq_none_of_got hgot.reservationId (by decide)]
    nofun
  | route hfrom =>
    rw [hfrom] at hgot
    refine ⟨rfl,rfl,hphase,fun _ h => h,?_,fun _ h => h,fun _ h => h,fun _ h => h⟩
    rw [eq_none_of_got hgot.route (by decide)]
    nofun
  | admitContext hfrom =>
    rw [hfrom] at hgot
    refine ⟨rfl,rfl,hphase,fun _ h => h,fun _ h => h,?_,fun _ h => h,fun _ h => h⟩
    rw [eq_none_of_got hgot.projection (by decide)]
    nofun
  | dispatch hfrom =>
    rw [hfrom] at hgot
    refine ⟨rfl,rfl,hphase,fun _ h => h,fun _ h => h,fun _ h => h,?_,fun _ h => h⟩
    rw [eq_none_of_got hgot.dispatchId (by decide)]
    nofun
  | settle hfrom =>
    refine ⟨rfl,rfl,hphase,fun _ h => h,fun _ h => h,fun _ h => h,fun _ h => h,?_⟩
    rw [hnone]
    nofun
  | abort =>
    refine ⟨rfl,rfl,hphase,fun _ h => h,fun _ h => h,fun _ h => h,fun _ h => h,?_⟩
    rw [hnone]
    nofun

theorem shaped_new (attribution : UsageAttribution) (plan : StepPlan) :
    Shaped (⟨attribution,plan,.planned,none,none,none,none,none⟩ :
      StepAttemptRecord StepPlan Route) where
  got := by
    refine ⟨.planned,⟨nofun,?_,?_,?_,?_⟩,.inl rfl⟩ <;> simp [StepAttemptPhase.position]
  outcome := by simp
  succeeded := nofun

/-- An attempt that gets further, and is not closed by it. -/
theorem Shaped.reach (hnone : before.outcome = none) {phase : StepAttemptPhase}
    (hgot : later.Got phase) (hphase : later.phase = phase) (houtcome : later.outcome = before.outcome) :
    later.Shaped := by
  rw [hnone] at houtcome
  constructor
  · exact ⟨phase,hgot,.inl hphase⟩
  · simp [houtcome, hphase, hgot.unsettled]
  · simp [houtcome]

theorem Shaped.advance (h : before.Shaped) (hadvances : before.Advances later) : later.Shaped := by
  have hunsettled : before.phase ≠ .settled := by
    cases hadvances <;> simp_all
  have hgot := h.got_phase hunsettled
  have hnone := h.outcome_eq_none hunsettled
  cases hadvances with
  | reserve hfrom reservationId =>
    rw [hfrom] at hgot
    have hnext : Got { before with reservationId := some reservationId, phase := .reserved } .reserved := by
      refine ⟨nofun,by simp,?_,?_,?_⟩
      · exact hgot.route.trans (by decide)
      · exact hgot.projection.trans (by decide)
      · exact hgot.dispatchId.trans (by decide)
    exact .reach hnone hnext rfl rfl
  | route hfrom decision =>
    rw [hfrom] at hgot
    have hnext : Got { before with route := some decision, phase := .routed } .routed := by
      refine ⟨nofun,?_,by simp,?_,?_⟩
      · exact hgot.reservationId.trans (by decide)
      · exact hgot.projection.trans (by decide)
      · exact hgot.dispatchId.trans (by decide)
    exact .reach hnone hnext rfl rfl
  | admitContext hfrom projection =>
    rw [hfrom] at hgot
    have hnext : Got { before with projection := some projection, phase := .contextAdmitted } .contextAdmitted := by
      refine ⟨nofun,?_,?_,by simp,?_⟩
      · exact hgot.reservationId.trans (by decide)
      · exact hgot.route.trans (by decide)
      · exact hgot.dispatchId.trans (by decide)
    exact .reach hnone hnext rfl rfl
  | dispatch hfrom dispatchId =>
    rw [hfrom] at hgot
    have hnext : Got { before with dispatchId := some dispatchId, phase := .dispatched } .dispatched := by
      refine ⟨nofun,?_,?_,?_,by simp⟩
      · exact hgot.reservationId.trans (by decide)
      · exact hgot.route.trans (by decide)
      · exact hgot.projection.trans (by decide)
    exact .reach hnone hnext rfl rfl
  | settle hfrom outcome =>
    have hclosed : (before.closed outcome).Got before.phase := { hgot with }
    rw [hfrom] at hclosed
    exact ⟨⟨_,hclosed,.inr rfl⟩,iff_of_true rfl rfl,fun _ => hclosed⟩
  | @abort _ _ outcome hfailed =>
    have hclosed : (before.closed outcome).Got before.phase := { hgot with }
    exact ⟨⟨_,hclosed,.inr rfl⟩,iff_of_true rfl rfl,fun h => absurd (Option.some.inj h) hfailed⟩

theorem Continues.refl (record : StepAttemptRecord StepPlan Route) : record.Continues record :=
  ⟨rfl,rfl,.refl,fun _ h => h,fun _ h => h,fun _ h => h,fun _ h => h,fun _ h => h⟩

theorem Continues.trans {first second third : StepAttemptRecord StepPlan Route}
    (h : first.Continues second) (h' : second.Continues third) : first.Continues third where
  attribution := h'.attribution.trans h.attribution
  plan := h'.plan.trans h.plan
  phase := h.phase.trans h'.phase
  reservationId id hid := h'.reservationId id (h.reservationId id hid)
  route route hroute := h'.route route (h.route route hroute)
  projection projection hprojection := h'.projection projection (h.projection projection hprojection)
  dispatchId id hid := h'.dispatchId id (h.dispatchId id hid)
  outcome outcome houtcome := h'.outcome outcome (h.outcome outcome houtcome)

/-- What has failed stays so. -/
theorem Failed.continues (h : before.Failed) (hshaped : later.Shaped)
    (hcontinues : before.Continues later) : later.Failed := by
  obtain ⟨-,outcome,hfailed,houtcome⟩ := h
  have hlater := hcontinues.outcome outcome houtcome
  exact ⟨hshaped.outcome.mp (by simp [hlater]),outcome,hfailed,hlater⟩

end StepAttemptRecord

namespace AttemptLedger
variable {self next : AttemptLedger StepPlan Route}

def parentOf (self : AttemptLedger StepPlan Route) (attemptId : String) : Option String :=
  (self.attributionOf attemptId).bind (·.parentAttemptId)

/-- What a command can do to the attempts. -/
inductive Effect (before : AttemptLedger StepPlan Route) : AttemptLedger StepPlan Route → Prop
  | same {next : AttemptLedger StepPlan Route} (h : next.attempts = before.attempts) :
      Effect before next
  | create {attribution : UsageAttribution} {plan : StepPlan} (admits : before.Admits attribution) :
      Effect before (before.put attribution.attemptId
        ⟨attribution,plan,.planned,none,none,none,none,none⟩)
  | advance {attemptId : String} {record new : StepAttemptRecord StepPlan Route}
      (found : before.attempts.get? attemptId = some record) (advances : record.Advances new) :
      Effect before (before.put attemptId new)

variable {attemptId : String} {response : StepAttemptResponse Route}

variable
  {change : StepAttemptRecord StepPlan Route → Except StepAttemptTransitionError (StepAttemptRecord StepPlan Route)}

theorem effect_of_mutation {text : String}
    (hchange : ∀ attempt record, change attempt = .ok record → attempt.Advances record)
    (h : self.mutation attemptId text change = .ok (response,next)) : Effect self next := by
  obtain ⟨attempt,record,hget,hrecord,-,rfl⟩ := mutation_eq_ok.mp h
  exact .advance hget (hchange attempt record hrecord)

variable {command : StepAttemptCommand Route}

theorem effect_answer (h : self.answer command = .ok (response,next)) : Effect self next := by
  cases command with
  | allocateIdentity rootExecutionId executionId parentAttemptId policyRevision kind =>
    rw [answer, map_eq_ok] at h
    obtain ⟨changed,hchanged,hanswer⟩ := h
    cases hanswer
    exact .same (allocated_eq_ok hchanged)
  | create attribution plan =>
    obtain ⟨hadmits,-,rfl⟩ := answer_create h
    exact .create hadmits
  | get attemptId =>
    cases h
    exact .same rfl
  | listRoot rootExecutionId =>
    cases h
    exact .same rfl
  | bindReservation attemptId reservationId =>
    apply effect_of_mutation _ h
    intro attempt record hrecord
    obtain ⟨hphase,rfl⟩ := bindReservation_eq_ok hrecord
    exact .reserve hphase reservationId
  | bindRoute attemptId decision =>
    apply effect_of_mutation _ h
    intro attempt record hrecord
    obtain ⟨hphase,rfl⟩ := bindRoute_eq_ok hrecord
    exact .route hphase decision
  | bindProjection attemptId projection =>
    apply effect_of_mutation _ h
    intro attempt record hrecord
    obtain ⟨hphase,rfl⟩ := bindProjection_eq_ok hrecord
    exact .admitContext hphase projection
  | markDispatched attemptId dispatchId =>
    apply effect_of_mutation _ h
    intro attempt record hrecord
    obtain ⟨hphase,rfl⟩ := markDispatched_eq_ok hrecord
    exact .dispatch hphase dispatchId
  | abort attemptId outcome =>
    apply effect_of_mutation _ h
    intro attempt record hrecord
    obtain ⟨⟨hdispatched,hsettled⟩,houtcome,rfl⟩ := abort_eq_ok.mp hrecord
    exact .abort hdispatched hsettled houtcome
  | settle attemptId outcome =>
    apply effect_of_mutation _ h
    intro attempt record hrecord
    obtain ⟨hphase,rfl⟩ := settle_eq_ok.mp hrecord
    exact .settle hphase outcome

/-- An attempt that is there is still there after a command, and may have got further. -/
theorem Effect.later (h : Effect self next) {record : StepAttemptRecord StepPlan Route}
    (hget : self.attempts.get? attemptId = some record) :
    ∃ later, next.attempts.get? attemptId = some later ∧ (later = record ∨ record.Advances later) := by
  cases h with
  | same hsame => exact ⟨record,hsame ▸ hget,.inl rfl⟩
  | create hadmits =>
    refine ⟨record,?_,.inl rfl⟩
    rw [put, BTreeMap.get?_insert_of_ne]
    · exact hget
    · rintro rfl
      have hfresh := hadmits.fresh
      rw [attributionOf, hget] at hfresh
      cases hfresh
  | @advance advancedId before new hfound hadvances =>
    by_cases hid : attemptId = advancedId
    · subst hid
      cases hget.symm.trans hfound
      exact ⟨new,BTreeMap.get?_insert_self ..,.inr hadvances⟩
    · exact ⟨record,by rw [put, BTreeMap.get?_insert_of_ne _ _ hid, hget],.inl rfl⟩

/-- An attempt that is there after a command was there before it, or has been created. -/
theorem Effect.origin (h : Effect self next) {later : StepAttemptRecord StepPlan Route}
    (hget : next.attempts.get? attemptId = some later) :
    (∃ record, self.attempts.get? attemptId = some record ∧
      (later = record ∨ record.Advances later)) ∨
    ∃ plan, self.Admits later.attribution ∧
      later = ⟨later.attribution,plan,.planned,none,none,none,none,none⟩ := by
  cases h with
  | same hsame => exact .inl ⟨later,hsame ▸ hget,.inl rfl⟩
  | @create attribution plan hadmits =>
    rw [put, BTreeMap.get?_insert] at hget
    split_ifs at hget
    · cases hget
      exact .inr ⟨plan,hadmits,rfl⟩
    · exact .inl ⟨later,hget,.inl rfl⟩
  | @advance advancedId before new hfound hadvances =>
    rw [put, BTreeMap.get?_insert] at hget
    split_ifs at hget with hid
    · cases hget
      exact .inl ⟨before,hid ▸ hfound,.inr hadvances⟩
    · exact .inl ⟨later,hget,.inl rfl⟩

/-- The attempts of a ledger are a forest of roots, and a retry follows a failure. -/
structure Lawful (now : AttemptLedger StepPlan Route) : Prop where
  forest : Acyclic (IsParent now.parentOf)
  parents : ∀ attemptId record parentId, now.attempts.get? attemptId = some record →
    record.attribution.parentAttemptId = some parentId →
    ∃ parent, now.attempts.get? parentId = some parent ∧
      parent.attribution.rootExecutionId = record.attribution.rootExecutionId
  roots : ∀ attemptId record, now.attempts.get? attemptId = some record →
    (record.attribution.kind = .root ↔ record.attribution.parentAttemptId = none)
  retries : ∀ attemptId record, now.attempts.get? attemptId = some record →
    record.attribution.kind = .retry →
    ∃ parentId parent, record.attribution.parentAttemptId = some parentId ∧
      now.attempts.get? parentId = some parent ∧ parent.Failed
  shaped : ∀ attemptId record, now.attempts.get? attemptId = some record → record.Shaped

theorem lawful_empty : (empty : AttemptLedger StepPlan Route).Lawful := by
  constructor
  · apply acyclic_of_rank fun _ => 0
    intro attemptId parentId hparent
    cases hparent
  · intro attemptId record parentId hget
    cases hget
  · intro attemptId record hget
    cases hget
  · intro attemptId record hget
    cases hget
  · intro attemptId record hget
    cases hget

theorem parentOf_eq_some {parentId : String} :
    self.parentOf attemptId = some parentId ↔ ∃ record, self.attempts.get? attemptId = some record ∧
      record.attribution.parentAttemptId = some parentId := by
  unfold parentOf attributionOf
  cases self.attempts.get? attemptId <;> simp

/-- An attempt that may be a retry follows a failure. -/
theorem Lawful.failed_parent (h : self.Lawful) {attribution : UsageAttribution}
    (hadmits : self.Admits attribution) (hkind : attribution.kind = .retry) :
    ∃ parentId parent, attribution.parentAttemptId = some parentId ∧
      self.attempts.get? parentId = some parent ∧ parent.Failed := by
  cases hparent : attribution.parentAttemptId with
  | none =>
    have hroot := hadmits.shape.mpr hparent
    cases hkind.symm.trans hroot
  | some parentId =>
    obtain ⟨parent,hget,-,hretry⟩ := hadmits.parent parentId hparent
    obtain ⟨hsettled,hunsuccessful⟩ := hretry hkind
    obtain ⟨outcome,houtcome⟩ :=
      Option.isSome_iff_exists.mp ((h.shaped parentId parent hget).outcome.mpr hsettled)
    refine ⟨parentId,parent,rfl,hget,hsettled,outcome,?_,houtcome⟩
    rintro rfl
    exact hunsuccessful houtcome

theorem Lawful.forest_step (h : self.Lawful) (heffect : Effect self next) :
    Acyclic (IsParent next.parentOf) := by
  have hsame : self.SameAttempts next → Acyclic (IsParent next.parentOf) := by
    intro hsame
    have hparent : next.parentOf = self.parentOf := by
      funext attemptId
      rw [parentOf, hsame attemptId, parentOf]
    rw [hparent]
    exact h.forest
  cases heffect with
  | same hattempts =>
    apply hsame
    intro attemptId
    rw [attributionOf, hattempts, attributionOf]
  | @create attribution plan hadmits =>
    have hold : ∀ attemptId, attemptId ≠ attribution.attemptId →
        (self.put attribution.attemptId
          ⟨attribution,plan,.planned,none,none,none,none,none⟩).parentOf attemptId =
            self.parentOf attemptId := by
      intro attemptId hne
      rw [parentOf, attributionOf_put, if_neg hne, parentOf]
    have hknown : ∀ {parentId parent}, self.attempts.get? parentId = some parent →
        parentId ≠ attribution.attemptId := by
      rintro parentId parent hget rfl
      have hfresh := hadmits.fresh
      rw [attributionOf, hget] at hfresh
      cases hfresh
    apply h.forest.of_fresh attribution.attemptId
    · intro attemptId parentId hparent hne
      unfold IsParent at hparent ⊢
      rwa [hold attemptId hne] at hparent
    · intro attemptId parentId hparent
      by_cases hne : attemptId = attribution.attemptId
      · unfold IsParent at hparent
        rw [hne, parentOf, attributionOf_put, if_pos rfl] at hparent
        obtain ⟨parent,hget,-⟩ := hadmits.parent parentId hparent
        exact hknown hget
      · unfold IsParent at hparent
        rw [hold attemptId hne] at hparent
        obtain ⟨record,hget,hparent⟩ := parentOf_eq_some.mp hparent
        obtain ⟨parent,hget,-⟩ := h.parents attemptId record parentId hget hparent
        exact hknown hget
  | advance hfound hadvances =>
    apply hsame
    exact sameAttempts_put hfound hadvances.attribution

theorem Lawful.step (h : self.Lawful) (heffect : Effect self next) : next.Lawful := by
  have hlater : ∀ {parentId parent}, self.attempts.get? parentId = some parent →
      ∃ later, next.attempts.get? parentId = some later ∧ later.Shaped ∧ parent.Continues later := by
    intro parentId parent hget
    have hshaped := h.shaped parentId parent hget
    obtain ⟨later,hlater,rfl | hadvances⟩ := heffect.later hget
    · exact ⟨later,hlater,hshaped,.refl later⟩
    · exact ⟨later,hlater,hshaped.advance hadvances,hshaped.continues hadvances⟩
  have horigin : ∀ {attemptId record}, next.attempts.get? attemptId = some record →
      (∃ before, self.attempts.get? attemptId = some before ∧
        before.attribution = record.attribution ∧ record.Shaped) ∨
      self.Admits record.attribution ∧ record.Shaped := by
    intro attemptId record hget
    rcases heffect.origin hget with ⟨before,hbefore,rfl | hadvances⟩ | ⟨plan,hadmits,hnew⟩
    · exact .inl ⟨record,hbefore,rfl,h.shaped attemptId record hbefore⟩
    · exact .inl ⟨before,hbefore,hadvances.attribution.symm,
        (h.shaped attemptId before hbefore).advance hadvances⟩
    · exact .inr ⟨hadmits,hnew ▸ shaped_new _ _⟩
  constructor
  · exact h.forest_step heffect
  · intro attemptId record parentId hget hparent
    obtain ⟨parent,hfound,hroot⟩ : ∃ parent, self.attempts.get? parentId = some parent ∧
        parent.attribution.rootExecutionId = record.attribution.rootExecutionId := by
      rcases horigin hget with ⟨before,hbefore,hsame,-⟩ | ⟨hadmits,-⟩
      · rw [← hsame] at hparent ⊢
        exact h.parents attemptId before parentId hbefore hparent
      · obtain ⟨parent,hfound,hroot,-⟩ := hadmits.parent parentId hparent
        exact ⟨parent,hfound,hroot⟩
    obtain ⟨later,hlater,-,hcontinues⟩ := hlater hfound
    exact ⟨later,hlater,by rw [hcontinues.attribution, hroot]⟩
  · intro attemptId record hget
    rcases horigin hget with ⟨before,hbefore,hsame,-⟩ | ⟨hadmits,-⟩
    · exact hsame ▸ h.roots attemptId before hbefore
    · exact hadmits.shape
  · intro attemptId record hget hkind
    obtain ⟨parentId,parent,hparent,hfound,hfailed⟩ : ∃ parentId parent,
        record.attribution.parentAttemptId = some parentId ∧
          self.attempts.get? parentId = some parent ∧ parent.Failed := by
      rcases horigin hget with ⟨before,hbefore,hsame,-⟩ | ⟨hadmits,-⟩
      · rw [← hsame] at hkind ⊢
        exact h.retries attemptId before hbefore hkind
      · exact h.failed_parent hadmits hkind
    obtain ⟨later,hlater,hshaped,hcontinues⟩ := hlater hfound
    exact ⟨parentId,later,hparent,hlater,hfailed.continues hshaped hcontinues⟩
  · intro attemptId record hget
    rcases horigin hget with ⟨-,-,-,hshaped⟩ | ⟨-,hshaped⟩ <;> exact hshaped

/-! ## Identities that are given out -/

/-- A name determines its number. -/
theorem candidate_injective : Function.Injective candidate := by
  intro first second h
  have hlist := congrArg String.toList h
  simp only [candidate, String.toList_append] at hlist
  exact (append_repr_inj (a := "attempt".toList) (b := "attempt".toList) (c := '-') (by decide)
    hlist).2

/-- The number that is found is a later one, and its name is free. -/
theorem nextFree_eq_ok {sequence : ℕ} (h : self.nextFree = .ok sequence) :
    self.nextSequence < sequence ∧ candidate sequence ∉ self.attempts.keys := by
  unfold nextFree at h
  cases hfind : (List.range (self.attempts.keys.length + 1)).find? fun i =>
      candidate (self.nextSequence + 1 + i) ∉ self.attempts.keys with
  | none =>
    rw [hfind] at h
    cases h
  | some i =>
    have hfree := List.find?_some hfind
    rw [hfind] at h
    dsimp only at h
    split_ifs at h
    cases h
    exact ⟨by omega,of_decide_eq_true hfree⟩

theorem allocated_sequence {rootExecutionId executionId policyRevision : String}
    {parentAttemptId : Option String} {kind : UsageAttemptKind}
    {changed : UsageAttribution × AttemptLedger StepPlan Route}
    (h : self.allocated rootExecutionId executionId parentAttemptId policyRevision kind =
      .ok changed) :
    self.nextFree = .ok changed.2.nextSequence ∧
      changed.1.attemptId = candidate changed.2.nextSequence := by
  simp only [allocated, seq_eq_ok] at h
  obtain ⟨sequence,hsequence,hallocated⟩ := bind_eq_ok.mp h.2.2.2.2.2.2
  cases hallocated
  exact ⟨hsequence,rfl⟩

theorem nextSequence_mutation {text : String}
    (h : self.mutation attemptId text change = .ok (response,next)) :
    (∀ attribution, response ≠ .attribution attribution) ∧
      next.nextSequence = self.nextSequence := by
  obtain ⟨attempt,record,-,-,rfl,rfl⟩ := mutation_eq_ok.mp h
  exact ⟨by simp,rfl⟩

/-- An identity that is given out has the number up to which names are used up, and no attempt
has its name; no other answer uses up a name. -/
theorem sequence_answer (h : self.answer command = .ok (response,next)) :
    (∃ attribution, response = .attribution attribution ∧
      attribution.attemptId = candidate next.nextSequence ∧
      self.nextSequence < next.nextSequence ∧
      attribution.attemptId ∉ self.attempts.keys) ∨
    (∀ attribution, response ≠ .attribution attribution) ∧
      next.nextSequence = self.nextSequence := by
  cases command with
  | allocateIdentity rootExecutionId executionId parentAttemptId policyRevision kind =>
    rw [answer, map_eq_ok] at h
    obtain ⟨changed,hchanged,hanswer⟩ := h
    cases hanswer
    obtain ⟨hfree,hid⟩ := allocated_sequence hchanged
    obtain ⟨hlt,hunused⟩ := nextFree_eq_ok hfree
    exact .inl ⟨changed.1,rfl,hid,hlt,hid ▸ hunused⟩
  | create attribution plan =>
    obtain ⟨-,rfl,rfl⟩ := answer_create h
    exact .inr ⟨by simp,rfl⟩
  | get attemptId =>
    cases h
    exact .inr ⟨by simp,rfl⟩
  | listRoot rootExecutionId =>
    cases h
    exact .inr ⟨by simp,rfl⟩
  | bindReservation => exact .inr (nextSequence_mutation h)
  | bindRoute => exact .inr (nextSequence_mutation h)
  | bindProjection => exact .inr (nextSequence_mutation h)
  | markDispatched => exact .inr (nextSequence_mutation h)
  | abort => exact .inr (nextSequence_mutation h)
  | settle => exact .inr (nextSequence_mutation h)

end AttemptLedger

/-! ## Runs -/

/-- A command, and what becomes of its read, its encoding and its commit. -/
abbrev AttemptCall (Route : Type) := AttemptStore Route × StepAttemptCommand Route

namespace AttemptLedger
variable {self next : AttemptLedger StepPlan Route} {call : AttemptCall Route}

def step (self : AttemptLedger StepPlan Route) (call : AttemptCall Route) :
    AttemptLedger StepPlan Route :=
  after (invokeAttempts call.1 call.2) self

/-- The identity that a call gives out. -/
def allocations (self : AttemptLedger StepPlan Route) (call : AttemptCall Route) : List String :=
  match answer? (invokeAttempts call.1 call.2 self) with
  | some (.attribution attribution) => [attribution.attemptId]
  | _ => []

def run (calls : List (AttemptCall Route)) : AttemptLedger StepPlan Route :=
  runAll step empty calls

theorem run_concat (calls : List (AttemptCall Route)) (call : AttemptCall Route) :
    run (calls ++ [call]) = (run calls).step call :=
  runAll_append step empty calls [call]

/-- A call does what the answer to its command does, or nothing. -/
theorem step_cases (self : AttemptLedger StepPlan Route) (call : AttemptCall Route) :
    (∃ response next, self.answer call.2 = .ok (response,next) ∧ self.step call = next ∧
      answer? (invokeAttempts call.1 call.2 self) = some response) ∨
    self.step call = self ∧ answer? (invokeAttempts call.1 call.2 self) = none := by
  cases hanswer : attemptAnswer call.1 call.2 self with
  | ok changed =>
    have hinvoke : invokeAttempts call.1 call.2 self = .ok changed.1 changed.2 := by
      rw [invokeAttempts_eq, hanswer]
    refine .inl ⟨changed.1,changed.2,(attemptAnswer_eq_ok hanswer).1,after_ok hinvoke,?_⟩
    rw [hinvoke, answer?]
  | error failure =>
    have hinvoke : invokeAttempts call.1 call.2 self = .error failure self := by
      rw [invokeAttempts_eq, hanswer]
    refine .inr ⟨after_error hinvoke,?_⟩
    rw [hinvoke, answer?]

theorem effect_of_step (self : AttemptLedger StepPlan Route) (call : AttemptCall Route) :
    Effect self (self.step call) := by
  obtain ⟨response,next,hanswer,rfl,-⟩ | ⟨hsame,-⟩ := step_cases self call
  · exact effect_answer hanswer
  · exact .same (by rw [hsame])

/-- What a call gives out, it uses up. -/
theorem allocations_step {attemptId : String} (h : attemptId ∈ self.allocations call) :
    attemptId = candidate (self.step call).nextSequence ∧
      self.nextSequence < (self.step call).nextSequence ∧ attemptId ∉ self.attempts.keys := by
  unfold allocations at h
  obtain ⟨response,next,hanswer,rfl,hresponse⟩ | ⟨-,hresponse⟩ := step_cases self call
  · rw [hresponse] at h
    obtain ⟨attribution,rfl,hid,hlt,hunused⟩ | ⟨hother,-⟩ := sequence_answer hanswer
    · obtain rfl := List.mem_singleton.mp h
      exact ⟨hid,hlt,hunused⟩
    · split at h
      · next hsome => exact absurd (Option.some.inj hsome) (hother _)
      · simp at h
  · simp [hresponse] at h

theorem nextSequence_step (self : AttemptLedger StepPlan Route) (call : AttemptCall Route) :
    self.nextSequence ≤ (self.step call).nextSequence := by
  obtain ⟨response,next,hanswer,rfl,-⟩ | ⟨hsame,-⟩ := step_cases self call
  · obtain ⟨-,-,-,hlt,-⟩ | ⟨-,hsame⟩ := sequence_answer hanswer
    · exact hlt.le
    · exact hsame.ge
  · rw [hsame]

theorem nodup_allocations (self : AttemptLedger StepPlan Route) (call : AttemptCall Route) :
    (self.allocations call).Nodup := by
  unfold allocations
  split
  · exact List.nodup_singleton _
  · exact List.nodup_nil

/-- The names that are used up. -/
def Spent (attemptId : String) (now : AttemptLedger StepPlan Route) : Prop :=
  ∃ sequence ≤ now.nextSequence, attemptId = candidate sequence

theorem nodup_run (calls : List (AttemptCall Route)) :
    (outputs step allocations empty calls).Nodup := by
  have hall : Along step (fun _ _ => True) (empty : AttemptLedger StepPlan Route) calls :=
    along_of_forall step (fun _ _ _ => trivial) _
  have h : ((outputs step allocations empty calls).map id).Nodup ∧ _ :=
    hall.nodup_outputs (I := fun _ => True) (U := Spent) (fun _ _ _ _ => trivial) ?_ ?_ ?_ ?_ trivial
  · rw [List.map_id] at h
    exact h.1
  · intro ledger call _ _
    rw [List.map_id]
    exact nodup_allocations ledger call
  · rintro ledger call - - attemptId hgiven ⟨sequence,hspent,hname⟩
    obtain ⟨hid,hlt,-⟩ := allocations_step hgiven
    have hsame := candidate_injective (hid.symm.trans hname)
    omega
  · intro ledger call _ _ attemptId hgiven
    exact ⟨_,le_rfl,(allocations_step hgiven).1⟩
  · rintro ledger call attemptId - - ⟨sequence,hspent,hname⟩
    exact ⟨sequence,hspent.trans (nextSequence_step ledger call),hname⟩

theorem lawful_run (calls : List (AttemptCall Route)) : (run calls).Lawful :=
  runAll_invariant (fun ledger call h => h.step (effect_of_step ledger call)) calls lawful_empty

/-- An attempt is there for the rest of the run, and keeps what it has. -/
theorem Lawful.continues_runAll (h : self.Lawful) (later : List (AttemptCall Route))
    {attemptId : String} {record : StepAttemptRecord StepPlan Route}
    (hget : self.attempts.get? attemptId = some record) :
    ∃ last, (runAll AttemptLedger.step self later).attempts.get? attemptId = some last ∧
      record.Continues last := by
  induction later generalizing self record with
  | nil => exact ⟨record,hget,.refl record⟩
  | cons call later ih =>
    have heffect := effect_of_step self call
    obtain ⟨new,hnew,hcontinues⟩ : ∃ new, (self.step call).attempts.get? attemptId = some new ∧
        record.Continues new := by
      obtain ⟨new,hnew,rfl | hadvances⟩ := heffect.later hget
      · exact ⟨new,hnew,.refl new⟩
      · exact ⟨new,hnew,(h.shaped attemptId record hget).continues hadvances⟩
    obtain ⟨last,hlast,hrest⟩ := ih (h.step heffect) hnew
    exact ⟨last,hlast,hcontinues.trans hrest⟩

end AttemptLedger

open AttemptLedger in
/-- What holds of the attempts after a run, and of every run that goes on from there. -/
structure AttemptsHold (calls : List (AttemptCall Route)) : Prop where
  lawful : (run calls).Lawful
  retried : ∀ call attemptId record, (run calls).attempts.get? attemptId = none →
    (run (calls ++ [call])).attempts.get? attemptId = some record →
    record.attribution.kind = .retry →
    ∃ parentId parent, record.attribution.parentAttemptId = some parentId ∧
      (run calls).attempts.get? parentId = some parent ∧ parent.Failed
  created : ∀ call attemptId record, (run calls).attempts.get? attemptId = none →
    (run (calls ++ [call])).attempts.get? attemptId = some record → record.phase = .planned
  advanced : ∀ call attemptId record later, (run calls).attempts.get? attemptId = some record →
    (run (calls ++ [call])).attempts.get? attemptId = some later →
    later.phase = record.phase ∨ record.phase.Follows later.phase
  kept : ∀ later attemptId record, (run calls).attempts.get? attemptId = some record →
    ∃ last, (run (calls ++ later)).attempts.get? attemptId = some last ∧ record.Continues last
  distinct : (outputs step allocations empty calls).Nodup
  unused : ∀ call, ∀ attemptId ∈ (run calls).allocations call,
    attemptId ∉ (run calls).attempts.keys

open AttemptLedger in
theorem attempts_hold (calls : List (AttemptCall Route)) : AttemptsHold calls := by
  have hlawful := lawful_run calls
  have hnew : ∀ {call attemptId record}, (run calls).attempts.get? attemptId = none →
      (run (calls ++ [call])).attempts.get? attemptId = some record → ∃ plan,
        (run calls).Admits record.attribution ∧
          record = ⟨record.attribution,plan,.planned,none,none,none,none,none⟩ := by
    intro call attemptId record hnone hget
    rw [run_concat] at hget
    rcases (effect_of_step _ call).origin hget with ⟨before,hbefore,-⟩ | hcreated
    · cases hnone.symm.trans hbefore
    · exact hcreated
  constructor
  · exact hlawful
  · intro call attemptId record hnone hget hkind
    obtain ⟨-,hadmits,-⟩ := hnew hnone hget
    exact hlawful.failed_parent hadmits hkind
  · intro call attemptId record hnone hget
    obtain ⟨plan,-,hrecord⟩ := hnew hnone hget
    rw [hrecord]
  · intro call attemptId record later hget hlater
    rw [run_concat] at hlater
    obtain ⟨found,hfound,hsame | hadvances⟩ := (effect_of_step _ call).later hget
    · cases hlater.symm.trans hfound
      exact .inl (by rw [hsame])
    · cases hlater.symm.trans hfound
      exact .inr hadvances.follows
  · intro later attemptId record hget
    rw [run, runAll_append]
    exact hlawful.continues_runAll later hget
  · exact nodup_run calls
  · intro call attemptId hgiven
    exact (allocations_step hgiven).2.2

end PhenixConductor.Execution
