import PhenixConductor.Collections.Runs
import PhenixConductor.Collections.Totals
import PhenixConductor.Configuration.Contribution

/-! # Language providers

A manager keeps the active provider of every workspace and service, with an epoch that counts
the changes.
-/
namespace PhenixConductor.Language
open Collections List
open Configuration (DomainId)

abbrev WorkspaceId := DomainId
abbrev LanguageServiceKind := DomainId
abbrev LanguageProviderId := DomainId

structure LanguageProviderCapabilities where
  requests : Bool := false
  notifications : Bool := false
  sharedDiagnostics : Bool := false
  backgroundDocuments : Bool := false
  dirtyBuffers : Bool := false
deriving DecidableEq

def LanguageProviderCapabilities.satisfies (self required : LanguageProviderCapabilities) : Bool :=
  (!required.requests || self.requests) && (!required.notifications || self.notifications) &&
    (!required.sharedDiagnostics || self.sharedDiagnostics) &&
    (!required.backgroundDocuments || self.backgroundDocuments) &&
    (!required.dirtyBuffers || self.dirtyBuffers)

/-- The command and its arguments are not read here. -/
structure ManagedLanguageProviderDefinition where
  service : LanguageServiceKind
  provider : LanguageProviderId
  capabilities : LanguageProviderCapabilities

structure LanguageServiceRequirement where
  service : LanguageServiceKind
  requiredCapabilities : LanguageProviderCapabilities := {}
  preferredProvider : Option LanguageProviderId := none

structure LanguageServiceConfiguration where
  managed : BTreeMap (LanguageServiceKind ×ₗ LanguageProviderId) ManagedLanguageProviderDefinition :=
    .empty
  requirements : BTreeMap LanguageServiceKind LanguageServiceRequirement := .empty

namespace LanguageServiceConfiguration

def managedFor (self : LanguageServiceConfiguration) (service : LanguageServiceKind) :
    List ManagedLanguageProviderDefinition :=
  (self.managed.toList.filter fun entry => (ofLex entry.1).1 = service).map (·.2)

def requirementFor (self : LanguageServiceConfiguration) (service : LanguageServiceKind) :
    LanguageServiceRequirement :=
  (self.requirements.get? service).getD { service }

end LanguageServiceConfiguration

/-- The numbers are `u64`s that are only compared. -/
inductive LanguageProviderSource
  | frontend (connection : ℕ)
  | managed (generation : ℕ)
deriving DecidableEq

def sourceRank : LanguageProviderSource → ℕ
  | .frontend _ => 0
  | .managed _ => 1

/-- The derived order: constructors first, then their contents. -/
def LanguageProviderSource.order (source : LanguageProviderSource) : ℕ ×ₗ ℕ :=
  toLex (sourceRank source,match source with | .frontend n | .managed n => n)

structure LanguageProviderCandidate where
  service : LanguageServiceKind
  provider : LanguageProviderId
  capabilities : LanguageProviderCapabilities
  source : LanguageProviderSource

structure ActiveLanguageProvider where
  workspace : WorkspaceId
  service : LanguageServiceKind
  provider : LanguageProviderId
  capabilities : LanguageProviderCapabilities
  source : LanguageProviderSource
  epoch : Fin (2 ^ 64)
deriving DecidableEq

/-- The same provider, in whatever epoch. -/
def ActiveLanguageProvider.Same (active other : ActiveLanguageProvider) : Prop :=
  active.provider = other.provider ∧ active.source = other.source ∧
    active.capabilities = other.capabilities

structure LanguageProviderLease where
  workspace : WorkspaceId
  service : LanguageServiceKind
  provider : LanguageProviderId
  epoch : Fin (2 ^ 64)

inductive LanguageServiceError
  | unavailable
  | providerChanged

def sameProvider (active : ActiveLanguageProvider) (candidate : LanguageProviderCandidate) : Bool :=
  active.provider = candidate.provider && active.source = candidate.source &&
    active.capabilities = candidate.capabilities

/-- The comparison of candidates: the preferred provider, then the rank of the source, then the
provider, then the source. -/
def sortKey (requirement : LanguageServiceRequirement) (candidate : LanguageProviderCandidate) :
    Bool ×ₗ ℕ ×ₗ LanguageProviderId ×ₗ ℕ ×ₗ ℕ :=
  toLex (requirement.preferredProvider ≠ some candidate.provider,
    toLex (sourceRank candidate.source,toLex (candidate.provider,candidate.source.order)))

/-- What a call of `reconcile` is given. -/
structure Reconcile where
  workspace : WorkspaceId
  service : LanguageServiceKind
  configuration : LanguageServiceConfiguration
  frontend : List LanguageProviderCandidate
  liveManaged : BTreeMap LanguageProviderId ℕ

namespace Reconcile
variable (call : Reconcile)

def key : WorkspaceId ×ₗ LanguageServiceKind := toLex (call.workspace,call.service)

def requirement : LanguageServiceRequirement := call.configuration.requirementFor call.service

def managedCandidates : List LanguageProviderCandidate :=
  (call.configuration.managedFor call.service).filterMap fun definition =>
    (call.liveManaged.get? definition.provider).bind fun generation =>
      if definition.capabilities.satisfies call.requirement.requiredCapabilities then
        some ⟨definition.service,definition.provider,definition.capabilities,.managed generation⟩
      else none

def candidates : List LanguageProviderCandidate :=
  sortByKey (sortKey call.requirement)
    (((call.frontend.filter fun candidate => candidate.service = call.service).filter
      fun candidate => candidate.capabilities.satisfies call.requirement.requiredCapabilities) ++
        call.managedCandidates)

end Reconcile

structure LanguageServiceManager where
  active : BTreeMap (WorkspaceId ×ₗ LanguageServiceKind) ActiveLanguageProvider := .empty
  nextEpoch : BTreeMap (WorkspaceId ×ₗ LanguageServiceKind) (Fin (2 ^ 64)) := .empty

namespace LanguageServiceManager
variable (self : LanguageServiceManager)

def reconcile (call : Reconcile) : Option ActiveLanguageProvider × LanguageServiceManager :=
  let current := self.active.get? call.key
  let selected := (current.bind fun current => call.candidates.find? (sameProvider current)).or
    call.candidates.head?
  match selected with
  | none => (none,{ self with active := self.active.erase call.key })
  | some candidate =>
    if current.any fun active => sameProvider active candidate then (current,self)
    else
      let epoch := (self.nextEpoch.get? call.key).elim 1 fun epoch => saturatingAdd epoch 1
      let active : ActiveLanguageProvider :=
        ⟨call.workspace,call.service,candidate.provider,candidate.capabilities,candidate.source,
          epoch⟩
      (some active,
        { active := self.active.insert call.key active
          nextEpoch := self.nextEpoch.insert call.key epoch })

def lease (workspace : WorkspaceId) (service : LanguageServiceKind) :
    Except LanguageServiceError LanguageProviderLease :=
  match self.active.get? (toLex (workspace,service)) with
  | none => .error .unavailable
  | some active => .ok ⟨workspace,service,active.provider,active.epoch⟩

def validateLease (lease : LanguageProviderLease) : Except LanguageServiceError Unit :=
  match self.active.get? (toLex (lease.workspace,lease.service)) with
  | none => .error .providerChanged
  | some active =>
    if active.provider = lease.provider ∧ active.epoch = lease.epoch then .ok ()
    else .error .providerChanged

def step (call : Reconcile) : LanguageServiceManager := (self.reconcile call).2

/-- The provider that a call changes to. -/
def changes (call : Reconcile) : List ActiveLanguageProvider :=
  ((self.step call).active.get? call.key).toList.filter fun active =>
    self.active.get? call.key ≠ some active

/-! ## Steps -/

variable {self} {call : Reconcile} {key : WorkspaceId ×ₗ LanguageServiceKind}
  {current : ActiveLanguageProvider} {candidate : LanguageProviderCandidate}

/-- How often the provider has changed to another one. -/
def epochOf (self : LanguageServiceManager) (key : WorkspaceId ×ₗ LanguageServiceKind) : ℕ :=
  (self.nextEpoch.get? key).elim 0 (·.val)

theorem step_of_ne (h : key ≠ call.key) : (self.step call).active.get? key = self.active.get? key ∧
    (self.step call).epochOf key = self.epochOf key := by
  unfold step reconcile epochOf
  dsimp only
  split
  · exact ⟨BTreeMap.get?_erase_of_ne _ h,rfl⟩
  · split_ifs
    · exact ⟨rfl,rfl⟩
    · exact ⟨BTreeMap.get?_insert_of_ne _ _ h,by rw [BTreeMap.get?_insert_of_ne _ _ h]⟩

/-- The active provider stays as long as it is a candidate. -/
theorem reconcile_kept (hcurrent : self.active.get? call.key = some current)
    (hmem : candidate ∈ call.candidates) (hsame : sameProvider current candidate) :
    self.reconcile call = (some current,self) := by
  unfold reconcile
  rw [hcurrent]
  cases hfind : call.candidates.find? (sameProvider current) with
  | none =>
    rw [find?_eq_none] at hfind
    exact absurd hsame (hfind candidate hmem)
  | some found =>
    simp [hfind, find?_some hfind]

/-- The counter of the key does not run out in the step. -/
def Room (self : LanguageServiceManager) (call : Reconcile) : Prop :=
  self.epochOf call.key + 1 < 2 ^ 64

/-- A call keeps the provider, ends it, or changes to another one in a new epoch. -/
theorem step_cases (self : LanguageServiceManager) (call : Reconcile) :
    (∃ current, self.active.get? call.key = some current ∧
      (∃ candidate ∈ call.candidates, sameProvider current candidate) ∧ self.step call = self) ∨
    ((self.step call).active.get? call.key = none ∧
      (self.step call).epochOf call.key = self.epochOf call.key) ∨
    ∃ next, (self.step call).active.get? call.key = some next ∧
      (∃ candidate ∈ call.candidates, sameProvider next candidate) ∧
      (self.step call).nextEpoch.get? call.key = some next.epoch ∧
      (self.Room call → next.epoch.val = self.epochOf call.key + 1) ∧
      ∀ current, self.active.get? call.key = some current → ¬ next.Same current := by
  by_cases hkept : ∃ current, self.active.get? call.key = some current ∧
      ∃ candidate ∈ call.candidates, sameProvider current candidate
  · obtain ⟨current,hcurrent,candidate,hmem,hsame⟩ := hkept
    refine .inl ⟨current,hcurrent,⟨candidate,hmem,hsame⟩,?_⟩
    rw [step, reconcile_kept hcurrent hmem hsame]
  · right
    push Not at hkept
    have hfind : ((self.active.get? call.key).bind fun current =>
        call.candidates.find? (sameProvider current)) = none := by
      rw [Option.bind_eq_none_iff]
      intro current hcurrent
      exact find?_eq_none.mpr (hkept current hcurrent)
    unfold step reconcile
    dsimp only
    rw [hfind, Option.none_or]
    cases hhead : call.candidates.head? with
    | none => exact .inl ⟨BTreeMap.get?_erase_self _ _,rfl⟩
    | some candidate =>
      have hmem := mem_of_head? hhead
      have hchange : ¬ (self.active.get? call.key).any (sameProvider · candidate) := by
        rw [Option.any_eq_true]
        rintro ⟨current,hcurrent,hsame⟩
        exact hkept current hcurrent candidate hmem hsame
      right
      dsimp only
      rw [if_neg hchange]
      refine ⟨_,BTreeMap.get?_insert_self _ _ _,⟨candidate,hmem,?_⟩,BTreeMap.get?_insert_self _ _ _,
        ?_,?_⟩
      · simp [sameProvider]
      · intro hroom
        unfold Room epochOf at hroom
        unfold epochOf
        cases hnext : self.nextEpoch.get? call.key with
        | none => rfl
        | some epoch =>
          rw [hnext, Option.elim_some] at hroom
          exact min_eq_left (by simp; omega)
      · rintro current hcurrent ⟨hprovider,hsource,hcapabilities⟩
        apply hkept current hcurrent candidate hmem
        simp [sameProvider, ← hprovider, ← hsource, ← hcapabilities]

theorem epochOf_step (hroom : self.Room call) :
    (self.step call).epochOf key ≤ self.epochOf key + (self.changes call).length := by
  by_cases hkey : key = call.key
  · subst hkey
    rcases self.step_cases call with
      ⟨_,_,_,heq⟩ | ⟨_,hepoch⟩ | ⟨next,hactive,_,hnext,hval,hchange⟩
    · rw [heq]
      exact Nat.le_add_right _ _
    · rw [hepoch]
      exact Nat.le_add_right _ _
    · have hnew : self.active.get? call.key ≠ some next :=
        fun hsame => hchange next hsame ⟨rfl,rfl,rfl⟩
      have hchanges : self.changes call = [next] := by simp [changes, hactive, hnew]
      rw [epochOf, hnext, hchanges]
      exact (hval hroom).le
  · rw [(step_of_ne hkey).2]
    exact Nat.le_add_right _ _

variable {calls : List Reconcile}

theorem along_room {n : ℕ} (h : ∀ key, self.epochOf key ≤ n)
    (hcount : n + (outputs step changes self calls).length < 2 ^ 64 - 1) :
    Along step Room self calls := by
  induction calls generalizing self n with
  | nil => trivial
  | cons call calls ih =>
    rw [outputs, length_append] at hcount
    have hroom : self.Room call := by
      have hfirst := h call.key
      unfold Room
      omega
    refine ⟨hroom,ih (n := n + (self.changes call).length) (fun key => ?_) (by omega)⟩
    exact (epochOf_step hroom).trans (Nat.add_le_add_right (h key) _)

/-- The active provider carries the last epoch of its key. -/
def Stamped (self : LanguageServiceManager) : Prop :=
  ∀ key active, self.active.get? key = some active → active.epoch.val = self.epochOf key

theorem stamped_step (h : self.Stamped) : (self.step call).Stamped := by
  intro key active hactive
  by_cases hkey : key = call.key
  · subst hkey
    rcases self.step_cases call with ⟨_,_,_,heq⟩ | ⟨hnone,_⟩ | ⟨next,hsome,_,hnext,-⟩
    · rw [heq] at hactive ⊢
      exact h _ _ hactive
    · rw [hnone] at hactive
      cases hactive
    · rw [hsome] at hactive
      cases hactive
      rw [epochOf, hnext]
      rfl
  · rw [(step_of_ne hkey).1] at hactive
    rw [(step_of_ne hkey).2]
    exact h key active hactive

/-- The epoch is over for the key. -/
def Past (key : WorkspaceId ×ₗ LanguageServiceKind) (epoch : ℕ) (self : LanguageServiceManager) :
    Prop :=
  epoch ≤ self.epochOf key ∧
    ∀ active, self.active.get? key = some active → epoch < active.epoch.val

theorem past_step {epoch : ℕ} (h : self.Past key epoch) (hroom : self.Room call) :
    (self.step call).Past key epoch := by
  by_cases hkey : key = call.key
  · subst hkey
    rcases self.step_cases call with ⟨_,_,_,heq⟩ | ⟨hnone,hepoch⟩ | ⟨next,hsome,_,hnext,hval,-⟩
    · rwa [heq]
    · exact ⟨hepoch.symm ▸ h.1,by simp [hnone]⟩
    · have hlater := hval hroom
      have hbefore := h.1
      refine ⟨?_,fun active hactive => ?_⟩
      · rw [epochOf, hnext, Option.elim_some]
        omega
      · rw [hsome] at hactive
        cases hactive
        omega
  · unfold Past
    rw [(step_of_ne hkey).1, (step_of_ne hkey).2]
    exact h

/-- Either the provider stays active all the time, or its epoch ends for good. -/
theorem held_or_past (hstamped : self.Stamped) (hroom : Along step Room self calls)
    (hcurrent : self.active.get? key = some current) :
    (∀ before, before <+: calls → (runAll step self before).active.get? key = some current) ∨
    ((runAll step self calls).Past key current.epoch.val ∧
      ∃ before, before <+: calls ∧
        ∀ active, (runAll step self before).active.get? key = some active →
          ¬ active.Same current) := by
  induction calls generalizing self with
  | nil =>
    refine .inl fun before hbefore => ?_
    rw [prefix_nil.mp hbefore]
    exact hcurrent
  | cons call calls ih =>
    by_cases hkept : (self.step call).active.get? key = some current
    · rcases ih (stamped_step hstamped) hroom.2 hkept with hheld | ⟨hpast,before,hbefore,hother⟩
      · refine .inl fun before hbefore => ?_
        cases before with
        | nil => exact hcurrent
        | cons first before =>
          obtain ⟨rfl,hrest⟩ := cons_prefix_cons.mp hbefore
          exact hheld before hrest
      · exact .inr ⟨hpast,call :: before,cons_prefix_cons.mpr ⟨rfl,hbefore⟩,hother⟩
    · right
      have hkey : key = call.key := by
        by_contra hne
        exact hkept ((step_of_ne hne).1.trans hcurrent)
      subst hkey
      have hepoch := hstamped _ _ hcurrent
      have hstep : (self.step call).Past call.key current.epoch.val ∧
          ∀ active, (self.step call).active.get? call.key = some active → ¬ active.Same current := by
        rcases self.step_cases call with
          ⟨_,_,_,heq⟩ | ⟨hnone,hsame⟩ | ⟨next,hsome,_,hnext,hval,hchange⟩
        · rw [heq] at hkept
          exact absurd hcurrent hkept
        · exact ⟨⟨by rw [hsame]; exact hepoch.le,by simp [hnone]⟩,by simp [hnone]⟩
        · have hlater := hval hroom.1
          rw [hsome]
          refine ⟨⟨?_,?_⟩,?_⟩
          · rw [epochOf, hnext, Option.elim_some]
            omega
          · rintro active hactive
            rw [hsome] at hactive
            cases hactive
            omega
          · rintro active hactive
            cases hactive
            exact hchange current hcurrent
      refine ⟨hroom.2.invariant (fun _ _ => past_step) hstep.1,[call],?_,hstep.2⟩
      exact cons_prefix_cons.mpr ⟨rfl, nil_prefix⟩

/-! ## Candidates -/

theorem satisfies_of_mem (h : candidate ∈ call.candidates) :
    candidate.capabilities.satisfies call.requirement.requiredCapabilities := by
  rw [Reconcile.candidates, (sortByKey_perm _ _).mem_iff, mem_append] at h
  rcases h with hfrontend | hmanaged
  · exact (mem_filter.mp hfrontend).2
  · obtain ⟨definition,-,hdefinition⟩ := mem_filterMap.mp hmanaged
    obtain ⟨generation,-,hgeneration⟩ := Option.bind_eq_some_iff.mp hdefinition
    split_ifs at hgeneration with hsatisfies
    cases hgeneration
    exact hsatisfies

theorem step_satisfies (h : (self.step call).active.get? call.key = some current) :
    current.capabilities.satisfies call.requirement.requiredCapabilities := by
  have hsame : ∀ active, (∃ candidate ∈ call.candidates, sameProvider active candidate) →
      active.capabilities.satisfies call.requirement.requiredCapabilities := by
    rintro active ⟨candidate,hmem,hsame⟩
    simp only [sameProvider, Bool.and_eq_true, decide_eq_true_eq] at hsame
    exact hsame.2 ▸ satisfies_of_mem hmem
  rcases self.step_cases call with ⟨_,hactive,hmem,heq⟩ | ⟨hnone,_⟩ | ⟨_,hactive,hmem,-⟩
  · rw [heq, hactive] at h
    cases h
    exact hsame _ hmem
  · rw [hnone] at h
    cases h
  · rw [hactive] at h
    cases h
    exact hsame _ hmem

theorem candidates_congr {frontend : List LanguageProviderCandidate}
    (h : frontend.Perm call.frontend)
    (hdistinct : (call.frontend.map fun candidate => (candidate.provider,candidate.source)).Nodup) :
    Reconcile.candidates { call with frontend } = call.candidates := by
  refine (sortByKey_append_congr ((h.symm.filter _).filter _) ?_ _).symm
  have hkeys : (call.frontend.map (sortKey call.requirement)).Nodup := by
    rw [List.Nodup, pairwise_map] at hdistinct ⊢
    refine hdistinct.imp fun {a b} hne heq => hne ?_
    simp only [sortKey, LanguageProviderSource.order, toLex_inj, Prod.mk.injEq] at heq
    obtain ⟨-,-,hprovider,hrank,hnumber⟩ := heq
    rw [Prod.mk.injEq]
    cases hsource : a.source <;> cases hsource' : b.source <;>
      simp_all [sourceRank]
  exact hkeys.sublist ((filter_sublist.trans filter_sublist).map _)

/-! ## Runs -/

theorem lease_eq_ok {workspace : WorkspaceId} {service : LanguageServiceKind}
    {lease : LanguageProviderLease} : self.lease workspace service = .ok lease ↔
      ∃ active, self.active.get? (toLex (workspace,service)) = some active ∧
        lease = ⟨workspace,service,active.provider,active.epoch⟩ := by
  unfold LanguageServiceManager.lease
  cases self.active.get? (toLex (workspace,service)) <;> simp [eq_comm]

theorem validateLease_eq_ok {lease : LanguageProviderLease} : self.validateLease lease = .ok () ↔
      ∃ active, self.active.get? (toLex (lease.workspace,lease.service)) = some active ∧
        active.provider = lease.provider ∧ active.epoch = lease.epoch := by
  unfold validateLease
  cases self.active.get? (toLex (lease.workspace,lease.service)) <;> simp

theorem active_runAll (h : ∀ call ∈ calls, call.key ≠ key) :
    (runAll step self calls).active.get? key = self.active.get? key := by
  induction calls generalizing self with
  | nil => rfl
  | cons call calls ih =>
    rw [runAll_cons, ih fun later hlater => h later (mem_cons_of_mem _ hlater)]
    exact (step_of_ne (h call mem_cons_self).symm).1

theorem held_or_past_run {before after : List Reconcile} (hroom : Along step Room {} calls)
    (hsplit : before ++ after = calls)
    (hcurrent : (runAll step {} before).active.get? key = some current) :
    (∀ mid, mid <+: after → (runAll step {} (before ++ mid)).active.get? key = some current) ∨
    ((runAll step {} calls).Past key current.epoch.val ∧ ∃ mid, mid <+: after ∧
      ∀ active, (runAll step {} (before ++ mid)).active.get? key = some active →
        ¬ active.Same current) := by
  subst hsplit
  have hempty : Stamped {} := fun key active hactive => by simp at hactive
  have hstamped : (runAll step {} before).Stamped :=
    runAll_invariant (I := Stamped) (fun _ _ => stamped_step) before hempty
  simp only [runAll_append]
  exact held_or_past hstamped (along_append.mp hroom).2 hcurrent

/-- In every run, with fewer than `2^64 - 1` changes. -/
theorem leases_detect_changes {calls : List Reconcile}
    (hcount : (outputs step changes {} calls).length < 2 ^ 64 - 1) :
    let self := runAll step {} calls
    (∀ before after, before ++ after = calls →
      ∀ key current, (runAll step {} before).active.get? key = some current →
        ∀ active, self.active.get? key = some active →
          (∀ mid, mid <+: after →
            (runAll step {} (before ++ mid)).active.get? key = some current) ∨
          current.epoch < active.epoch) ∧
    (∀ before after, before ++ after = calls →
      ∀ workspace service lease, (runAll step {} before).lease workspace service = .ok lease →
        (self.validateLease lease = .ok () ↔ ∃ current,
          (runAll step {} before).active.get? (toLex (workspace,service)) = some current ∧
          ∀ mid, mid <+: after → ∃ active,
            (runAll step {} (before ++ mid)).active.get? (toLex (workspace,service)) = some active ∧
              active.Same current)) ∧
    (∀ call current candidate, self.active.get? call.key = some current →
      candidate ∈ call.candidates → sameProvider current candidate →
        self.reconcile call = (some current,self)) ∧
    (∀ call frontend, frontend.Perm call.frontend →
      (call.frontend.map fun candidate => (candidate.provider,candidate.source)).Nodup →
        self.reconcile { call with frontend } = self.reconcile call) ∧
    ∀ before call after, before ++ call :: after = calls →
      (∀ later ∈ after, later.key ≠ call.key) → ∀ active, self.active.get? call.key = some active →
        active.capabilities.satisfies call.requirement.requiredCapabilities := by
  intro self
  have hroom : Along step Room {} calls :=
    along_room (n := 0) (fun key => by simp [epochOf]) (by simpa using hcount)
  refine ⟨?_,?_,fun call current candidate hcurrent => reconcile_kept hcurrent,?_,?_⟩
  · intro before after hsplit key current hcurrent active hactive
    rcases held_or_past_run hroom hsplit hcurrent with hheld | ⟨hpast,-⟩
    · exact .inl hheld
    · exact .inr (hpast.2 active hactive)
  · intro before after hsplit workspace service lease hlease
    obtain ⟨current,hcurrent,rfl⟩ := lease_eq_ok.mp hlease
    rw [validateLease_eq_ok]
    rcases held_or_past_run hroom hsplit hcurrent with hheld | ⟨hpast,mid,hmid,hother⟩
    · refine iff_of_true ⟨current,?_,rfl,rfl⟩
        ⟨current,hcurrent,fun mid hmid => ⟨current,hheld mid hmid,rfl,rfl,rfl⟩⟩
      have hend := hheld after (prefix_refl after)
      rwa [hsplit] at hend
    · refine iff_of_false ?_ ?_
      · rintro ⟨active,hactive,-,hepoch⟩
        exact (hpast.2 active hactive).ne (congrArg Fin.val hepoch).symm
      · rintro ⟨other,hsame,hall⟩
        rw [hcurrent] at hsame
        cases hsame
        obtain ⟨active,hactive,hsame⟩ := hall mid hmid
        exact hother active hactive hsame
  · intro call frontend hperm hdistinct
    have hcandidates := candidates_congr hperm hdistinct
    unfold reconcile
    rw [hcandidates]
    rfl
  · rintro before call after rfl hlater active hactive
    have hrun : self.active.get? call.key =
        ((runAll step {} before).step call).active.get? call.key := by
      rw [show self = _ from runAll_append _ _ _ _, runAll_cons]
      exact active_runAll hlater
    exact step_satisfies (hrun ▸ hactive)

/-- A call with one frontend provider, or with none. -/
def offer (connections : List ℕ) : Reconcile where
  workspace := ⟨"workspace",by decide⟩
  service := ⟨"rust",by decide⟩
  configuration := {}
  frontend := connections.map fun n => ⟨⟨"rust",by decide⟩,⟨"editor",by decide⟩,{},.frontend n⟩
  liveManaged := .empty

/-- A lease of a provider that goes away and comes back. -/
theorem leases_detect_changes_return :
    (outputs step changes {} [offer [1],offer [],offer [1]]).length = 2 ∧
      ∀ lease, (runAll step {} [offer [1]]).lease (offer []).workspace (offer []).service =
          .ok lease →
        (runAll step {} [offer [1],offer [],offer [1]]).validateLease lease ≠ .ok () := by
  have hcount : (outputs step changes {} [offer [1],offer [],offer [1]]).length = 2 := by
    decide +kernel
  refine ⟨hcount,fun lease hlease hvalid => ?_⟩
  obtain ⟨current,-,hall⟩ := ((leases_detect_changes (hcount.trans_lt (by decide))).2.1
    [offer [1]] [offer [],offer [1]] rfl _ _ lease hlease).mp hvalid
  obtain ⟨active,hactive,-⟩ := hall [offer []] ⟨[offer [1]],rfl⟩
  have hnone : (runAll step {} [offer [1],offer []]).active.get? (offer []).key = none := by
    decide +kernel
  cases hnone.symm.trans hactive

end LanguageServiceManager
end PhenixConductor.Language
