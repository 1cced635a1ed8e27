import PhenixConductor.Memory.Guarantees

/-! # What every store of the plugin keeps

A record is listed, has a freshness and is stored under a valid key of its own.
-/
namespace PhenixConductor.Memory
open Collections Contract DependencyIndex
open Execution (U64)

namespace MemoryFreshnessRecord

/-- The resource is among the dependencies or is the canonical reference. -/
def Uses (self : MemoryFreshnessRecord) (service : ServiceId) (resource : String) : Prop :=
  (∃ dependency ∈ self.dependencies, dependency.On service resource) ∨
    ∃ reference ∈ self.canonicalReference, reference.On service resource

instance decidableUses (self : MemoryFreshnessRecord) (service : ServiceId) (resource : String) :
    Decidable (self.Uses service resource) :=
  inferInstanceAs (Decidable ((∃ dependency ∈ self.dependencies, _) ∨
    ∃ reference ∈ self.canonicalReference, _))

variable {self : MemoryFreshnessRecord} {service : ServiceId} {resource : String}

@[simp] theorem uses_changed {freshness : MemoryFreshness} {time : U64} :
    (self.changed freshness time).Uses service resource ↔ self.Uses service resource := Iff.rfl

@[simp] theorem uses_superseded {time : U64} :
    (self.superseded time).Uses service resource ↔ self.Uses service resource := Iff.rfl

@[simp] theorem uses_questioned {time : U64} :
    (self.questioned time).Uses service resource ↔ self.Uses service resource := by
  unfold questioned
  split_ifs
  · rfl
  · rfl

end MemoryFreshnessRecord

variable {service : ServiceId} {resource : String}

@[simp] theorem dependency_observe_on {dependency : MemoryDependencyRevision} {service' : ServiceId}
    {resource' revision : String} :
    (dependency.observe service' resource' revision).On service resource ↔
      dependency.On service resource := by
  unfold MemoryDependencyRevision.observe
  split_ifs
  · rfl
  · rfl

@[simp] theorem reference_observe_on {reference : MemoryCanonicalReference} {service' : ServiceId}
    {resource' revision : String} :
    (reference.observe service' resource' revision).On service resource ↔
      reference.On service resource := by
  unfold MemoryCanonicalReference.observe
  split_ifs
  · rfl
  · rfl

namespace MemoryFreshnessRecord
variable {self : MemoryFreshnessRecord} {service : ServiceId} {resource : String}

@[simp] theorem uses_recorded {service' : ServiceId} {resource' revision : String} :
    (self.recorded service' resource' revision).Uses service resource ↔
      self.Uses service resource := by
  simp [recorded,Uses]

@[simp] theorem uses_observeRevisionChange {service' : ServiceId} {resource' revision : String}
    {time : U64} : (self.observeRevisionChange service' resource' revision time).Uses service
      resource ↔ self.Uses service resource := by
  unfold observeRevisionChange
  split_ifs <;> simp

theorem uses_withDependency {dependency : MemoryDependencyRevision} :
    (self.withDependency dependency).Uses service resource ↔
      self.Uses service resource ∨ dependency.On service resource := by
  unfold withDependency
  split_ifs with h
  · exact ⟨.inl,fun hor => hor.elim id fun hon => .inl ⟨dependency,h,hon⟩⟩
  · simp [Uses,or_and_right,exists_or,or_right_comm]

end MemoryFreshnessRecord

/-- A source that a renewed freshness names is one that it named before, or that of the entry that
the memory is added to. -/
theorem Renewal.uses {library : MemoryLibrary} {allowed : StoreTurn MemoryCall.Reply → Prop}
    {id : String} {record : MemoryRecord} {old state : MemoryFreshnessRecord}
    {command : MemoryCommand} {entry : Option DependencyKey}
    (h : Renewal library allowed id record old command state entry)
    (huses : state.Uses service resource) :
    old.Uses service resource ∨ entry = some (dependencyKey service resource) := by
  cases h with
  | expired | ended | validated => exact .inl huses
  | observed => exact .inl (MemoryFreshnessRecord.uses_observeRevisionChange.mp huses)
  | conflicted =>
    rw [MemoryFreshnessRecord.uses_questioned,MemoryFreshnessRecord.uses_withDependency] at huses
    refine huses.imp_right ?_
    rintro ⟨hservice,hresource⟩
    exact congrArg some (congrArg₂ dependencyKey hservice hresource)
  | bound =>
    rcases huses with huses | ⟨reference,⟨⟩,hservice,hresource⟩
    · exact .inl (.inl huses)
    · exact .inr (congrArg some (congrArg₂ dependencyKey hservice hresource))

namespace DependencyIndex

theorem mem_ids_addEntry {index : DependencyIndex} {id k : String} {entry e : DependencyKey} :
    k ∈ (index.addEntry id entry).ids e ↔ k ∈ index.ids e ∨ k = id ∧ e = entry := by
  unfold addEntry
  by_cases he : e = entry
  · subst e
    by_cases hid : id ∈ index.ids entry
    · rw [if_pos hid]
      simp only [ids,BTreeMap.get?_insert_self,Option.getD_some,and_true]
      exact ⟨.inl,fun h => h.elim (fun hk => hk) fun hk => hk ▸ hid⟩
    · rw [if_neg hid]
      simp [ids,addId]
  · split_ifs <;> simp [ids,BTreeMap.get?_insert_of_ne _ _ he,he]

theorem mem_ids_addEntries {index : DependencyIndex} {id k : String}
    {entries : List DependencyKey} {e : DependencyKey} :
    k ∈ (entries.foldl (addEntry id) index).ids e ↔ k ∈ index.ids e ∨ k = id ∧ e ∈ entries := by
  induction entries generalizing index with
  | nil => simp
  | cons entry entries ih =>
    rw [List.foldl_cons,ih,mem_ids_addEntry,List.mem_cons]
    tauto

end DependencyIndex

/-- What holds of every store that commands lead to. -/
structure Sound (s : MemoryStore) : Prop where
  named : Named s
  keyed : ∀ id, (s (.entry .record id)).isSome → validateKey id = .ok ()
  listed : ∀ id, id ∈ (s (.index .record)).getD [] ↔ (s (.entry .record id)).isSome
  fresh : ∀ id, (s (.freshness id)).isSome ↔ (s (.entry .record id)).isSome
  covered : ∀ id state, s (.freshness id) = some state → ∀ service resource,
    state.Uses service resource → id ∈ (dependenciesOf s).ids (dependencyKey service resource)
  indexed : ∀ entry, ∀ id ∈ (dependenciesOf s).ids entry, (s (.entry .record id)).isSome

theorem sound_empty : Sound fun _ => none where
  named := nofun
  keyed := nofun
  listed := by simp
  fresh := by simp
  covered := nofun
  indexed := by simp [dependenciesOf,ids]

namespace Sound
variable {s : MemoryStore}

variable {record : MemoryRecord}

theorem stateOf_eq (h : Sound s) {id : String} (hrecord : s (.entry .record id) = some record) :
    s (.freshness id) = some (stateOf s id record) := by
  have hsome : (s (.freshness id)).isSome := (h.fresh id).mpr (by simp [hrecord])
  obtain ⟨state,hstate⟩ := Option.isSome_iff_exists.mp hsome
  simp [stateOf,hstate]

variable {allowed : StoreTurn MemoryCall.Reply → Prop}

theorem renew {library : MemoryLibrary} {id : String} {command : MemoryCommand}
    {state : MemoryFreshnessRecord} {entry : Option DependencyKey} (h : Sound s)
    (hrecord : s (.entry .record id) = some record)
    (hrenewal : Renewal library allowed id record (stateOf s id record) command state entry) :
    Sound (MemoryStore.renew s id state entry) where
  named k other hk := h.named k other (by simpa using hk)
  keyed k hk := h.keyed k (by simpa using hk)
  listed k := by simpa using h.listed k
  fresh k := by
    by_cases hk : k = id
    · subst k
      simp [hrecord]
    · simpa [renew_freshness_of_ne hk] using h.fresh k
  covered k other hother service resource huses := by
    have hkeep : k ∈ (dependenciesOf s).ids (dependencyKey service resource) ∨
        k = id ∧ entry = some (dependencyKey service resource) := by
      by_cases hk : k = id
      · subst k
        rw [renew_freshness_self] at hother
        cases hother
        exact (hrenewal.uses huses).imp (h.covered id _ (h.stateOf_eq hrecord) service resource)
          fun he => ⟨rfl,he⟩
      · rw [renew_freshness_of_ne hk] at hother
        exact .inl (h.covered k other hother service resource huses)
    cases entry with
    | none => exact hkeep.resolve_right fun he => nomatch he.2
    | some e =>
      refine mem_ids_addEntry.mpr (hkeep.imp_right fun he => ⟨he.1,?_⟩)
      exact (Option.some.inj he.2).symm
  indexed e k hk := by
    rw [dependenciesOf_renew] at hk
    cases entry with
    | none => exact h.indexed e k hk
    | some other =>
      rcases mem_ids_addEntry.mp hk with hk | ⟨rfl,-⟩
      · exact h.indexed e k hk
      · simp [hrecord]

/-- A superseded memory has a next freshness. -/
theorem supersededState_eq (h : Sound s) {id : String} (hid : (s (.entry .record id)).isSome) :
    ∃ state, s (.freshness id) = some state ∧
      ∀ time, supersededState s time id = some (state.superseded time) := by
  obtain ⟨prior,hprior⟩ := Option.isSome_iff_exists.mp hid
  exact ⟨_,h.stateOf_eq hprior,fun time => by simp [supersededState,hprior]⟩

theorem add (h : Sound s) (hnew : record.Insertable s) : Sound (MemoryStore.add s record) where
  named k other hk := by
    rw [add_entry] at hk
    split_ifs at hk with hid
    · cases hk
      exact hid.symm
    · exact h.named k other hk
  keyed k hk := by
    rw [add_entry] at hk
    split_ifs at hk with hid
    · exact hid ▸ hnew.keyed
    · exact h.keyed k hk
  listed k := by
    rw [mem_index_add,h.listed,add_entry]
    by_cases hid : k = record.id
    · simp [hid]
    · simp [hid]
  fresh k := by
    rw [add_freshness,add_entry]
    by_cases hprior : k ∈ record.supersedes
    · obtain ⟨hne,hstored⟩ := hnew.priors k hprior
      obtain ⟨state,-,hstate⟩ := h.supersededState_eq hstored
      simp [hprior,hne,hstate,hstored]
    · by_cases hid : k = record.id
      · subst k
        simp [hprior]
      · simpa [hprior,hid] using h.fresh k
  covered k other hother service resource huses := by
    rw [dependenciesOf_add]
    refine mem_ids_addEntries.mpr ?_
    rw [add_freshness] at hother
    split_ifs at hother with hprior hid
    · obtain ⟨state,hstate,hnext⟩ := h.supersededState_eq (hnew.priors k hprior).2
      cases Option.some.inj ((hnext _).symm.trans hother)
      exact .inl (h.covered k state hstate service resource huses)
    · cases hother
      rcases huses with ⟨dependency,hmem,hservice,hresource⟩ | ⟨reference,⟨⟩,-⟩
      refine .inr ⟨hid,List.mem_map.mpr ⟨dependency,hmem,?_⟩⟩
      exact congrArg₂ dependencyKey hservice hresource
    · exact .inl (h.covered k other hother service resource huses)
  indexed e k hk := by
    rw [add_entry]
    split_ifs with hid
    · rfl
    · exact h.indexed e k ((mem_ids_addEntries.mp hk).resolve_right
        fun he => hid he.1)

theorem step {library : MemoryLibrary} {command : MemoryCommand} {t : MemoryStore} (h : Sound s)
    (hstep : MemoryStep library allowed command s t) : Sound t := by
  cases hstep with
  | stay => exact h
  | renewed _ hrecord hrenewal => exact h.renew hrecord hrenewal
  | added _ hnew => exact h.add hnew

end Sound

section Histories
variable (library : MemoryLibrary)

/-- A command with what its surroundings do at each of its requests. -/
abbrev MemoryCall.Turns := ℕ → StoreTurn MemoryCall.Reply

def afterCommand (s : MemoryStore) (call : MemoryCommand × MemoryCall.Turns) : MemoryStore :=
  ((call.1.handle library).run serveStore call.2 s).2

/-- The store after commands, one after the other. -/
def afterHistory (history : List (MemoryCommand × MemoryCall.Turns)) : MemoryStore :=
  runAll (afterCommand library) (fun _ => none) history

theorem Sound.afterCommand {s : MemoryStore} (h : Sound s)
    (call : MemoryCommand × MemoryCall.Turns) : Sound (Memory.afterCommand library s call) := by
  have hsteps : Steps library (fun _ => True) call.1 (call.1.handle library) s :=
    steps_handle h.named call.1
  exact hsteps.ensures.run_induct (fun _ => trivial) (fun _ _ hstep hs => hs.step hstep) h

theorem sound_afterHistory (history : List (MemoryCommand × MemoryCall.Turns)) :
    Sound (afterHistory library history) :=
  runAll_invariant (fun _ call h => h.afterCommand library call) history sound_empty

end Histories

end PhenixConductor.Memory
