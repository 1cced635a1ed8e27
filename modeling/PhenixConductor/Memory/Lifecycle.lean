import PhenixConductor.Memory.Recall

/-! # The life of a memory

A stored memory never changes, and its freshness ends when it is historical.
-/
namespace PhenixConductor.Memory
open Collections
open Execution (U64)

def MemoryCommand.Revalidates (id : String) (command : MemoryCommand) : Prop :=
  ∃ executionId parentAttemptId profileId time,
    command = .revalidate id executionId parentAttemptId profileId time

/-- The freshness that a memory may have later, if it is revalidated or not. -/
structure MemoryFreshness.Follows (revalidated : Prop) (old new : MemoryFreshness) : Prop where
  historical : old = .historical → new = .historical
  current : new = .current → old = .current ∨ revalidated

theorem MemoryFreshness.Follows.refl {revalidated : Prop} (freshness : MemoryFreshness) :
    freshness.Follows revalidated freshness :=
  ⟨id,.inl⟩

variable {library : MemoryLibrary} {allowed : StoreTurn MemoryCall.Reply → Prop}
  {command : MemoryCommand} {s t : MemoryStore} {revalidated : String → Prop}

theorem follows_questioned {validated : Prop} (state : MemoryFreshnessRecord) (time : U64) :
    state.freshness.Follows validated (state.questioned time).freshness := by
  unfold MemoryFreshnessRecord.questioned
  split_ifs with hcurrent
  · exact ⟨fun h => absurd (hcurrent.symm.trans h) (by decide),nofun⟩
  · exact .refl _

theorem Renewal.follows {id : String} {record : MemoryRecord} {old state : MemoryFreshnessRecord}
    {entry : Option DependencyKey} (h : Renewal library allowed id record old command state entry)
    (hcommand : command.Revalidates id → revalidated id) :
    old.freshness.Follows (revalidated id) state.freshness := by
  cases h with
  | expired | ended => exact ⟨fun _ => rfl,nofun⟩
  | bound => exact .refl _
  | validated hopen =>
    exact ⟨fun h => absurd (hopen.symm.trans h) (by decide),fun _ => .inr (hcommand ⟨_,_,_,_,rfl⟩)⟩
  | observed haffected =>
    rw [MemoryFreshnessRecord.observeRevisionChange, if_pos haffected]
    exact follows_questioned (old.recorded _ _ _) _
  | conflicted =>
    have hsame : ∀ dependency, (old.withDependency dependency).freshness = old.freshness := by
      intro dependency
      unfold MemoryFreshnessRecord.withDependency
      split_ifs <;> rfl
    rw [← hsame]
    exact follows_questioned _ _

/-- The memories of a store are stored in a later one, with a later freshness. -/
def MemoriesFollow (revalidated : String → Prop) (s t : MemoryStore) : Prop :=
  ∀ id record, s (.entry .record id) = some record → t (.entry .record id) = some record ∧
    (stateOf s id record).freshness.Follows (revalidated id) (stateOf t id record).freshness

theorem MemoriesFollow.refl (s : MemoryStore) : MemoriesFollow revalidated s s :=
  fun _ _ h => ⟨h,.refl _⟩

theorem MemoriesFollow.trans {u : MemoryStore} (h : MemoriesFollow revalidated s t)
    (h' : MemoriesFollow revalidated t u) : MemoriesFollow revalidated s u := by
  intro id record hrecord
  obtain ⟨hkept,hfollows⟩ := h id record hrecord
  obtain ⟨hkept',hfollows'⟩ := h' id record hkept
  exact ⟨hkept',hfollows'.historical ∘ hfollows.historical,
    fun hnew => (hfollows'.current hnew).elim hfollows.current .inr⟩

theorem stateOf_add_superseded {added record : MemoryRecord} {id : String}
    (hrecord : s (.entry .record id) = some record) (hid : id ∈ added.supersedes) :
    (stateOf (MemoryStore.add s added) id record).freshness = .historical := by
  simp [stateOf, add_freshness, hid, supersededState, hrecord, MemoryFreshnessRecord.superseded,
    MemoryFreshnessRecord.changed]

theorem MemoryStep.follows (h : MemoryStep library allowed command s t)
    (hcommand : ∀ id, command.Revalidates id → revalidated id) : MemoriesFollow revalidated s t := by
  intro k record hrecord
  cases h with
  | stay => exact ⟨hrecord,.refl _⟩
  | @renewed id other _ _ _ hother h =>
    refine ⟨by rw [renew_entry, hrecord],?_⟩
    by_cases hk : k = id
    · subst k
      cases hrecord.symm.trans hother
      rw [stateOf_renew_self]
      exact h.follows (hcommand _)
    · rw [stateOf_renew_of_ne hk]
      exact .refl _
  | @added added _ h =>
    have hk : k ≠ added.id := by
      rintro rfl
      cases hrecord.symm.trans h.absent
    refine ⟨by rw [add_entry, if_neg hk, hrecord],?_⟩
    by_cases hprior : k ∈ added.supersedes
    · rw [stateOf_add_superseded hrecord hprior]
      exact ⟨fun _ => rfl,nofun⟩
    · simp only [stateOf, add_freshness, if_neg hprior, if_neg hk]
      exact .refl _

/-- What a stored memory supersedes is stored and historical. -/
def SupersededHistorical (s : MemoryStore) : Prop :=
  ∀ id other, s (.entry .record id) = some other → ∀ prior ∈ other.supersedes,
    ∃ record, s (.entry .record prior) = some record ∧
      (stateOf s prior record).freshness = .historical

theorem SupersededHistorical.step (h : SupersededHistorical s)
    (hstep : MemoryStep library allowed command s t) : SupersededHistorical t := by
  intro id other hother prior hprior
  by_cases hold : s (.entry .record id) = some other
  · obtain ⟨record,hrecord,hhistorical⟩ := h id other hold prior hprior
    obtain ⟨hkept,hfollows⟩ := hstep.follows (fun _ h => h) prior record hrecord
    exact ⟨record,hkept,hfollows.historical hhistorical⟩
  · cases hstep with
    | stay => exact absurd hother hold
    | renewed => exact absurd ((renew_entry .record id).symm.trans hother) hold
    | added _ hnew =>
      rw [add_entry] at hother
      split_ifs at hother
      · cases hother
        obtain ⟨hne,hstored⟩ := hnew.priors prior hprior
        obtain ⟨record,hrecord⟩ := Option.isSome_iff_exists.mp hstored
        exact ⟨record,by rw [add_entry, if_neg hne, hrecord],stateOf_add_superseded hrecord hprior⟩
      · exact absurd hother hold

section Histories
variable (library)

theorem afterCommand_follows (hs : Sound s) {call : MemoryCommand × MemoryCall.Turns}
    (hcall : ∀ id, call.1.Revalidates id → revalidated id) :
    MemoriesFollow revalidated s (afterCommand library s call) := by
  have hsteps : Steps library (fun _ => True) call.1 (call.1.handle library) s :=
    steps_handle hs.named call.1
  exact hsteps.ensures.run_induct (fun _ => trivial)
    (fun _ _ hstep h => h.trans (hstep.follows hcall)) (.refl s)

theorem runAll_follows (hs : Sound s) {calls : List (MemoryCommand × MemoryCall.Turns)}
    (h : ∀ call ∈ calls, ∀ id, call.1.Revalidates id → revalidated id) :
    MemoriesFollow revalidated s (runAll (afterCommand library) s calls) := by
  induction calls generalizing s with
  | nil => exact .refl s
  | cons call calls ih =>
    obtain ⟨hcall,hcalls⟩ := List.forall_mem_cons.mp h
    exact (afterCommand_follows library hs hcall).trans (ih (hs.afterCommand library call) hcalls)

theorem supersededHistorical_afterHistory (history : List (MemoryCommand × MemoryCall.Turns)) :
    SupersededHistorical (afterHistory library history) := by
  have hstep : ∀ s call, Sound s ∧ SupersededHistorical s →
      Sound (afterCommand library s call) ∧ SupersededHistorical (afterCommand library s call) := by
    rintro s call ⟨hs,hsuperseded⟩
    have hsteps : Steps library (fun _ => True) call.1 (call.1.handle library) s :=
      steps_handle hs.named call.1
    exact ⟨hs.afterCommand library call,hsteps.ensures.run_induct (fun _ => trivial)
      (fun _ _ hstep h => h.step hstep) hsuperseded⟩
  exact (runAll_invariant hstep history ⟨sound_empty,nofun⟩).2

/-- A stored memory stays as it is. It stays historical, and is made current again by its own
revalidation only. What another memory supersedes is historical, and a recall that returns it asks
for a time before its last change. -/
theorem memories_follow (history more : List (MemoryCommand × MemoryCall.Turns)) :
    MemoriesFollow (fun id => ∃ call ∈ more, call.1.Revalidates id) (afterHistory library history)
      (afterHistory library (history ++ more)) ∧
    SupersededHistorical (afterHistory library history) ∧
    ∀ query failures providers found, recallOutcome library (afterHistory library history) query
      failures providers = .ok found → ∀ record ∈ found, ∀ id other,
        afterHistory library history (.entry .record id) = some other → record.id ∈ other.supersedes →
          query.time < (stateOf (afterHistory library history) record.id record).changedAt := by
  have hs := sound_afterHistory library history
  have hsuperseded := supersededHistorical_afterHistory library history
  refine ⟨?_,hsuperseded,fun query failures providers found hfound record hrecord id other hother
    hprior => ?_⟩
  · rw [afterHistory, afterHistory, runAll_append]
    exact runAll_follows library hs fun call hmem _ h => ⟨call,hmem,h⟩
  · have hsteps : Changes (fun _ => True) _ _ (recallMemory library query) _ :=
      steps_recallMemory hs.named
    have heligible := hsteps.ensures.run (fun _ => trivial) found hfound record hrecord
    rw [eligible, List.mem_filter, currentAt, List.mem_filter] at heligible
    obtain ⟨⟨hstored,hcounts⟩,-⟩ := heligible
    obtain ⟨same,hsame,hhistorical⟩ := hsuperseded id other hother record.id hprior
    cases hsame.symm.trans (hs.named.of_mem_storedRecords hstored)
    exact (countsAt_of_not_current (by simp [hhistorical])).mp (of_decide_eq_true hcounts)

end Histories

end PhenixConductor.Memory
