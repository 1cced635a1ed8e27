import PhenixConductor.Component.OrderIndependence
import PhenixConductor.Collections.SortKey

/-! # Provider resolution is exact

An import is bound to the first of its eligible providers in the order of preference, and may
fall back to the others where the contract and the product both allow it.
-/
namespace PhenixConductor.Component
open Collections Contract OrderDual ProviderCompositionPolicy BTreeMap List

section Policy
variable {policy : Option ProviderCompositionPolicy} {interface : InterfaceId}
  {provider : ComponentId}

/-- The product's entry for an interface. -/
def policyEntry (policy : Option ProviderCompositionPolicy) (interface : InterfaceId) :
    Option InterfaceProviderPolicy :=
  policy.bind fun policy => policy.interfaces.get? interface

/-- Product policy disables the provider for the interface. -/
def Disabled (policy : Option ProviderCompositionPolicy) (interface : InterfaceId)
    (provider : ComponentId) : Prop :=
  ∃ entry, policyEntry policy interface = some entry ∧ provider ∈ entry.disabled.keys

/-- The interface contract and the product both allow fallback. -/
def FallbackAllowed (policy : Option ProviderCompositionPolicy) (interface : InterfaceId) : Prop :=
  ∃ entry, policyEntry policy interface = some entry ∧
    entry.interfaceAllowsFallback = true ∧ entry.fallbackEnabled = true

theorem disabled_iff : (policy.any fun policy => !policy.providerEnabled interface provider) =
    true ↔ Disabled policy interface provider := by
  cases policy with
  | none => simp [Disabled, policyEntry]
  | some policy =>
    cases h : policy.interfaces.get? interface <;>
      simp [Disabled, policyEntry, providerEnabled, h]

theorem fallbackAllowed_iff : (policy.any fun policy => policy.fallbackEnabled interface) = true ↔
    FallbackAllowed policy interface := by
  cases policy with
  | none => simp [FallbackAllowed, policyEntry]
  | some policy =>
    cases h : policy.interfaces.get? interface <;>
      simp [FallbackAllowed, policyEntry, fallbackEnabled, h]

end Policy

/-- The consumer's requests fit the provider, the provider's answers the consumer. -/
def InterfaceSchema.Accepts (self provider : InterfaceSchema) : Prop :=
  Refines self.request provider.request ∧ Refines provider.response self.response ∧
    Refines provider.error self.error

theorem mismatchOf_eq_none {compatibility : SchemaCompatibility} :
    mismatchOf compatibility = none ↔ ∀ mismatch, compatibility ≠ .incompatible mismatch := by
  cases compatibility <;> simp [mismatchOf]

theorem InterfaceSchema.acceptsProvider_iff (self provider : InterfaceSchema) :
    (∀ mismatch, self.acceptsProvider provider ≠ .incompatible mismatch) ↔
      self.Accepts provider := by
  unfold Accepts
  rw [← PhenixSchema.accepts_iff, ← PhenixSchema.accepts_iff, ← PhenixSchema.accepts_iff,
    ← mismatchOf_eq_none, ← mismatchOf_eq_none, ← mismatchOf_eq_none]
  unfold acceptsProvider
  dsimp only
  split_ifs with hmismatch hexact
  · simp only [Bool.or_eq_true, Option.isSome_iff_ne_none] at hmismatch
    tauto
  · simp_all
  · simp_all

namespace Composition
variable {composition : Composition}

/-- The product binds the interface to the provider. -/
def Explicit (policy : Option ProviderCompositionPolicy) (interface : InterfaceId)
    (provider : ComponentId) : Prop :=
  ∃ entry, policyEntry policy interface = some entry ∧ entry.explicit = some provider

/-- The priority of the product's policy, or of the export where there is no policy. -/
def preference (policy : Option ProviderCompositionPolicy) (candidate : composition.Candidate) : ℤ :=
  match policy with
  | none => candidate.2.priority
  | some _ => ((policyEntry policy candidate.2.interface).bind
      (·.priorities.get? candidate.1.1.id)).getD 0

/-- The explicit provider first, then the greater priority, then the smaller id. -/
def Preferred (policy : Option ProviderCompositionPolicy) (a b : composition.Candidate) : Prop :=
  Explicit policy a.2.interface a.1.1.id ∧ ¬ Explicit policy b.2.interface b.1.1.id ∨
    (Explicit policy a.2.interface a.1.1.id ↔ Explicit policy b.2.interface b.1.1.id) ∧
      (preference policy b < preference policy a ∨
        preference policy a = preference policy b ∧ a.1.1.id < b.1.1.id)

/-- The capability is within the ceilings of the harness, of the importer's plugin
and component, of the import, and of the exporter's plugin and component. -/
def Granted (harnessAuthority : Authority) (importer : composition.Member)
    (imported : ComponentImport) (exporter : composition.Member) (capability : CapabilityId) :
    Prop :=
  harnessAuthority.permits capability = true ∧
    (owner importer).maximumAuthority.permits capability = true ∧
    importer.1.maximumAuthority.permits capability = true ∧
    imported.authority.permits capability = true ∧
    (owner exporter).maximumAuthority.permits capability = true ∧
    exporter.1.maximumAuthority.permits capability = true

/-- An export that may provide an import. -/
structure Eligible (harnessAuthority : Authority) (policy : Option ProviderCompositionPolicy)
    (importer : composition.Member) (imported : ComponentImport)
    (candidate : composition.Candidate) : Prop where
  exported : candidate.2 ∈ candidate.1.1.exports
  interface : candidate.2.interface = imported.interface
  enabled : ¬ Disabled policy imported.interface candidate.1.1.id
  schema : imported.schema.Accepts candidate.2.schema
  authority : ∀ capability, candidate.2.requiredAuthority.permits capability = true →
    Granted harnessAuthority importer imported candidate.1 capability

/-- The handle of an import on one of its providers. -/
structure HandleOf (harnessAuthority : Authority) (manifest : composition.Member)
    (imported : ComponentImport) (candidate : composition.Candidate)
    (handle : ResolvedImportHandle) : Prop where
  importer : handle.importer = manifest.1.id
  interface : handle.interface = imported.interface
  exporter : handle.exporter = candidate.1.1.id
  owningPlugin : handle.owningPlugin = candidate.1.1.owner
  execution : handle.execution = (owner candidate.1).execution
  authority : ∀ capability, handle.effectiveAuthority.permits capability = true ↔
    Granted harnessAuthority manifest imported candidate.1 capability

/-- What an import is resolved to. -/
structure Resolves (harnessAuthority : Authority) (policy : Option ProviderCompositionPolicy)
    (importer : composition.Member) (imported : ComponentImport) (resolved : ResolvedImport) :
    Prop where
  interface : resolved.interface = imported.interface
  required : resolved.required = imported.required
  providers : ∃ (providers : List composition.Candidate) (handles : List ResolvedImportHandle),
    (∀ candidate, candidate ∈ providers ↔
      Eligible harnessAuthority policy importer imported candidate) ∧
    (providers.map (·.1.1.id)).Nodup ∧ providers.Pairwise (Preferred policy) ∧
    List.Forall₂ (HandleOf harnessAuthority importer imported) providers handles ∧
    resolved.binding = handles.head? ∧
    (FallbackAllowed policy imported.interface → resolved.fallbacks = handles.tail) ∧
    (¬ FallbackAllowed policy imported.interface → resolved.fallbacks = [])
  bound : imported.required = true → resolved.binding ≠ none
  unbound : resolved.binding = none →
    ∀ candidate, ¬ Eligible harnessAuthority policy importer imported candidate

section Exporters

theorem get?_pushExporter (l : List composition.Candidate)
    (exporters : BTreeMap InterfaceId (List composition.Candidate)) (interface : InterfaceId) :
    ((l.foldl pushExporter exporters).get? interface).getD [] =
      (exporters.get? interface).getD [] ++ l.filter (·.2.interface = interface) := by
  induction l generalizing exporters with
  | nil => simp
  | cons candidate l ih =>
    rw [foldl_cons, ih, pushExporter, get?_insert]
    by_cases h : interface = candidate.2.interface
    · subst h
      simp
    · simp [h, Ne.symm h]

/-- Every export of every component. -/
def candidates (composition : Composition) : List composition.Candidate :=
  composition.members.flatMap fun manifest =>
    manifest.1.exports.map fun exported => (manifest,exported)

variable {candidate : composition.Candidate}

theorem mem_candidates :
    candidate ∈ composition.candidates ↔ candidate.2 ∈ candidate.1.1.exports := by
  simp only [candidates, members, mem_flatMap, mem_attach, true_and, mem_map]
  constructor
  · rintro ⟨manifest,exported,hexported,rfl⟩
    exact hexported
  · intro h
    exact ⟨candidate.1,candidate.2,h,rfl⟩

theorem exporters_perm (composition : Composition) (interface : InterfaceId) :
    ((composition.exporters.get? interface).getD []).Perm
      (composition.candidates.filter (·.2.interface = interface)) := by
  have hget := get?_pushExporter composition.candidates .empty interface
  have hsort : (composition.exporters.get? interface).getD [] =
      (((composition.candidates.foldl pushExporter .empty).get? interface).getD []).insertionSort
        fun left right => left.1.1.id ≤ right.1.1.id := by
    unfold exporters candidates
    rw [get?_mapVal]
    cases (List.foldl pushExporter .empty _).get? interface <;> rfl
  rw [hsort, hget]
  exact perm_insertionSort _ _

theorem mem_exporters {interface : InterfaceId} :
    candidate ∈ (composition.exporters.get? interface).getD [] ↔
      candidate.2 ∈ candidate.1.1.exports ∧ candidate.2.interface = interface := by
  rw [(composition.exporters_perm interface).mem_iff, mem_filter, mem_candidates,
    decide_eq_true_iff]

theorem members_ids (composition : Composition) :
    composition.members.map (·.1.id) = composition.components.keys := by
  have hvalues : composition.members.map (·.1.id) = composition.components.values.map (·.id) := by
    exact attach_map_val
  rw [hvalues, values, map_map]
  conv_rhs => rw [← attach_map_subtype_val composition.components.keys]
  apply map_congr_left
  intro key _
  exact composition.componentIds _ _ (composition.components.get?_of_mem key.2)

theorem exports_nodup (manifest : composition.Member) :
    (manifest.1.exports.map (·.interface)).Nodup := by
  have hvalid := (validateOwned_eq_ok.mp (composition.owned _ manifest.2)).1
  obtain ⟨_,-,hrest⟩ := bind_eq_ok.mp hvalid
  obtain ⟨_,hexports,-⟩ := bind_eq_ok.mp hrest
  exact (register_eq_ok.mp hexports).2.1

/-- A component exports an interface once. -/
theorem exporters_nodup (composition : Composition) (interface : InterfaceId) :
    (((composition.exporters.get? interface).getD []).map (·.1.1.id)).Nodup := by
  apply ((composition.exporters_perm interface).map _).nodup_iff.mpr
  apply pairwise_map.mpr
  rw [pairwise_filter, candidates, pairwise_flatMap]
  constructor
  · intro manifest _
    apply pairwise_map.mpr
    apply (pairwise_map.mp (exports_nodup manifest)).imp
    intro a b hne ha hb
    simp only [decide_eq_true_eq] at ha hb
    exact absurd (ha.trans hb.symm) hne
  · have hids : (composition.members.map (·.1.id)).Nodup :=
      composition.members_ids ▸ composition.components.nodup_keys
    apply (pairwise_map.mp hids).imp
    intro a b hne x hx y hy _ _
    obtain ⟨_,-,rfl⟩ := mem_map.mp hx
    obtain ⟨_,-,rfl⟩ := mem_map.mp hy
    exact hne

end Exporters

section Consideration
variable {policy : Option ProviderCompositionPolicy} {harnessAuthority : Authority}
  {manifest : composition.Member} {imported : ComponentImport}

/-- What the ceilings of the exporter leave of the importer's authority. -/
def effectiveAuthority (authority : Authority) (imported : ComponentImport)
    (candidate : composition.Member) : Authority :=
  ((authority.attenuate imported.authority).attenuate (owner candidate).maximumAuthority).attenuate
    candidate.1.maximumAuthority

theorem permits_effectiveAuthority {candidate : composition.Member} {capability : CapabilityId} :
    (effectiveAuthority (componentAuthority harnessAuthority manifest) imported
      candidate).permits capability = true ↔
        Granted harnessAuthority manifest imported candidate capability := by
  simp [effectiveAuthority, componentAuthority, Authority.permits_attenuate, Granted, and_assoc]

theorem permitsAll_iff {self required : Authority} : self.permitsAll required = true ↔
    ∀ capability, required.permits capability = true → self.permits capability = true := by
  simp [Authority.permitsAll, Authority.permits]

/-- The entry that an eligible candidate gets. -/
def providerOf (policy : Option ProviderCompositionPolicy) (authority : Authority)
    (imported : ComponentImport) (candidate : composition.Candidate) :
    EligibleProvider composition where
  component := candidate.1
  effectiveAuthority := effectiveAuthority authority imported candidate.1
  priority := match policy with
    | none => candidate.2.priority
    | some policy => policy.effectivePriority imported.interface candidate.1.1.id
  explicit := policy.bind (·.explicitBinding imported.interface) = some candidate.1.1.id

/-- The three checks of the loop over the candidates. -/
def usable (policy : Option ProviderCompositionPolicy) (authority : Authority)
    (imported : ComponentImport) (candidate : composition.Candidate) : Bool :=
  !(policy.any fun policy => !policy.providerEnabled imported.interface candidate.1.1.id) &&
    (effectiveAuthority authority imported candidate.1).permitsAll candidate.2.requiredAuthority &&
    match imported.schema.acceptsProvider candidate.2.schema with
    | .exact | .compatible => true
    | .incompatible _ => false

theorem consider_eligible (authority : Authority) (considered : Considered composition)
    (candidate : composition.Candidate) :
    (consider policy authority imported considered candidate).eligible =
      considered.eligible ++ if usable policy authority imported candidate then
        [providerOf policy authority imported candidate] else [] := by
  unfold consider usable
  cases hdisabled : policy.any fun policy =>
      !policy.providerEnabled imported.interface candidate.1.1.id with
  | true => simp
  | false =>
    change (if !(effectiveAuthority authority imported candidate.1).permitsAll
      candidate.2.requiredAuthority then _ else _ : Considered composition).eligible = _
    cases hpermits : (effectiveAuthority authority imported candidate.1).permitsAll
        candidate.2.requiredAuthority with
    | false => simp
    | true => cases imported.schema.acceptsProvider candidate.2.schema <;> simp <;> rfl

theorem foldl_consider_eligible (authority : Authority) (l : List composition.Candidate)
    (considered : Considered composition) :
    (l.foldl (consider policy authority imported) considered).eligible =
      considered.eligible ++ (l.filter (usable policy authority imported)).map
        (providerOf policy authority imported) := by
  induction l generalizing considered with
  | nil => simp
  | cons candidate l ih =>
    rw [foldl_cons, ih, consider_eligible, filter_cons]
    split_ifs <;> simp

variable {candidate : composition.Candidate}

theorem usable_iff :
    usable policy (componentAuthority harnessAuthority manifest) imported candidate = true ↔
      ¬ Disabled policy imported.interface candidate.1.1.id ∧
      (∀ capability, candidate.2.requiredAuthority.permits capability = true →
        Granted harnessAuthority manifest imported candidate.1 capability) ∧
      imported.schema.Accepts candidate.2.schema := by
  unfold usable
  rw [Bool.and_eq_true, Bool.and_eq_true, Bool.not_eq_true', ← Bool.not_eq_true, disabled_iff,
    permitsAll_iff, and_assoc, ← InterfaceSchema.acceptsProvider_iff]
  simp only [permits_effectiveAuthority]
  cases imported.schema.acceptsProvider candidate.2.schema <;> simp

theorem eligible_iff : Eligible harnessAuthority policy manifest imported candidate ↔
      candidate ∈ (composition.exporters.get? imported.interface).getD [] ∧
        usable policy (componentAuthority harnessAuthority manifest) imported candidate = true := by
  rw [usable_iff, mem_exporters]
  constructor
  · intro h
    exact ⟨⟨h.exported,h.interface⟩,h.enabled,h.authority,h.schema⟩
  · rintro ⟨⟨hexported,hinterface⟩,henabled,hauthority,hschema⟩
    exact ⟨hexported,hinterface,henabled,hschema,hauthority⟩

/-- The fields that `eligible.sort_by` compares, as one key. -/
def providerKey (provider : EligibleProvider composition) : Boolᵒᵈ ×ₗ ℤᵒᵈ ×ₗ ComponentId :=
  toLex (toDual provider.explicit,
    toLex (toDual provider.priority,provider.component.1.id))

theorem compareProviders_isLE (a b : EligibleProvider composition) :
    (compareProviders a b).isLE = true ↔ providerKey a ≤ providerKey b := by
  unfold compareProviders providerKey
  rw [isLE_then_iff, isLE_then_iff, isLE_compare_iff, Prod.Lex.toLex_le_toLex,
    Prod.Lex.toLex_le_toLex, toDual_lt_toDual, toDual_lt_toDual, toDual_inj, toDual_inj]
  simp only [eq_comm]

theorem preferred_of_key {a b : composition.Candidate} (authority : Authority)
    (ha : a.2.interface = imported.interface) (hb : b.2.interface = imported.interface)
    (h : providerKey (providerOf policy authority imported a) <
      providerKey (providerOf policy authority imported b)) : Preferred policy a b := by
  have hexplicit : ∀ c : composition.Candidate, c.2.interface = imported.interface →
      ((providerOf policy authority imported c).explicit = true ↔
        Explicit policy c.2.interface c.1.1.id) := by
    intro c hc
    rw [hc]
    cases policy with
    | none => simp [providerOf, Explicit, policyEntry]
    | some policy =>
      simp [providerOf, Explicit, policyEntry, explicitBinding,
        Option.bind_eq_some_iff]
  have hpriority : ∀ c : composition.Candidate, c.2.interface = imported.interface →
      (providerOf policy authority imported c).priority = preference policy c := by
    intro c hc
    cases policy with
    | none => rfl
    | some policy => simp [providerOf, preference, policyEntry, hc,
        effectivePriority]
  unfold providerKey at h
  rw [Prod.Lex.toLex_lt_toLex, Prod.Lex.toLex_lt_toLex, toDual_lt_toDual, toDual_lt_toDual,
    toDual_inj, toDual_inj, hpriority a ha, hpriority b hb] at h
  unfold Preferred
  rw [← hexplicit a ha, ← hexplicit b hb]
  rcases h with h | ⟨heq,h⟩
  · have hbool := Bool.lt_iff.mp h
    exact .inl ⟨hbool.2,by simp [hbool.1]⟩
  · exact .inr ⟨by rw [heq],h⟩

/-- The candidates of an import end in the order of preference. -/
theorem exists_providers (harnessAuthority : Authority)
    (policy : Option ProviderCompositionPolicy) (manifest : composition.Member)
    (imported : ComponentImport) : ∃ providers : List composition.Candidate,
    (∀ candidate, candidate ∈ providers ↔
      Eligible harnessAuthority policy manifest imported candidate) ∧
    (providers.map (·.1.1.id)).Nodup ∧ providers.Pairwise (Preferred policy) ∧
    (considerAll policy (componentAuthority harnessAuthority manifest) imported
        composition).eligible =
      providers.map (providerOf policy (componentAuthority harnessAuthority manifest) imported) := by
  let authority := componentAuthority harnessAuthority manifest
  let listed := ((composition.exporters.get? imported.interface).getD []).filter
    (usable policy authority imported)
  let key := fun candidate : composition.Candidate =>
    providerKey (providerOf policy authority imported candidate)
  have hperm : (sortByKey key listed).Perm listed := sortByKey_perm key listed
  have hmem : ∀ candidate, candidate ∈ sortByKey key listed ↔
      Eligible harnessAuthority policy manifest imported candidate := by
    intro candidate
    rw [hperm.mem_iff, mem_filter, eligible_iff]
  have hids : (listed.map (·.1.1.id)).Nodup :=
    (composition.exporters_nodup imported.interface).sublist
      (filter_sublist.map _)
  have hkeys : (listed.map key).Nodup := by
    apply pairwise_map.mpr
    apply (pairwise_map.mp hids).imp
    intro a b hne heq
    apply hne
    exact congrArg (fun k : Boolᵒᵈ ×ₗ ℤᵒᵈ ×ₗ ComponentId => (ofLex (ofLex k).2).2) heq
  refine ⟨sortByKey key listed,hmem,(hperm.map _).nodup_iff.mpr hids,?_,?_⟩
  · have hstrict := sortByKey_strict hkeys
    apply List.Pairwise.imp_of_mem _ hstrict
    intro a b ha hb hlt
    exact preferred_of_key authority ((hmem a).mp ha).interface ((hmem b).mp hb).interface hlt
  · have hcompare : ∀ left right : EligibleProvider composition,
        (compareProviders left right).isLE = true ↔ providerKey left ≤ providerKey right :=
      compareProviders_isLE
    have hsort := insertionSort_eq_sortByKey hcompare
    rw [considerAll, foldl_consider_eligible, nil_append]
    rw [map_sortByKey providerKey, ← hsort]

end Consideration

section Resolution
variable {policy : Option ProviderCompositionPolicy} {harnessAuthority : Authority}
  {manifest : composition.Member}

variable {imported : ComponentImport}

theorem bindImport_eq_ok {handles : List ResolvedImportHandle}
    {incompatible : Option (ComponentId × InterfaceSchemaMismatch)}
    {binding : Option ResolvedImportHandle} :
    bindImport imported manifest handles incompatible = .ok binding ↔
      binding = handles.head? ∧ (imported.required = true → handles ≠ []) := by
  unfold bindImport
  cases handles with
  | cons primary rest =>
    simp only [Except.ok.injEq, head?_cons, ne_eq, reduceCtorEq, not_false_eq_true,
      implies_true, and_true]
    exact eq_comm
  | nil =>
    cases hrequired : imported.required with
    | true => cases incompatible <;> simp
    | false =>
      constructor
      · intro h
        cases h
        simp
      · rintro ⟨rfl,-⟩
        rfl

theorem resolveImport_resolves {resolved : ResolvedImport}
    (h : resolveImport policy (componentAuthority harnessAuthority manifest) imported manifest = .ok resolved) :
    Resolves harnessAuthority policy manifest imported resolved := by
  obtain ⟨binding,hbinding,hresolved⟩ := bind_eq_ok.mp h
  cases hresolved
  obtain ⟨providers,hmem,hnodup,hpreferred,heligible⟩ :=
    exists_providers harnessAuthority policy manifest imported
  rw [heligible, map_map, bindImport_eq_ok] at hbinding
  rcases hbinding with ⟨rfl,hrequired⟩
  have hhandles : List.Forall₂ (HandleOf harnessAuthority manifest imported) providers
      (providers.map (importHandle imported manifest ∘
        providerOf policy (componentAuthority harnessAuthority manifest) imported)) := by
    rw [forall₂_map_right_iff, forall₂_same]
    intro candidate _
    exact ⟨rfl,rfl,rfl,rfl,rfl,fun _ => permits_effectiveAuthority⟩
  constructor
  case interface => rfl
  case required => rfl
  case providers =>
    refine ⟨providers,_,hmem,hnodup,hpreferred,hhandles,rfl,?_,?_⟩
    · intro hallowed
      simp only [heligible, map_map, fallbackAllowed_iff.mpr hallowed, if_true]
    · intro hdenied
      exact if_neg (fallbackAllowed_iff.not.mpr hdenied)
  case bound =>
    intro himported hnone
    exact hrequired himported (head?_eq_none_iff.mp hnone)
  case unbound =>
    intro hnone candidate hcandidate
    have hempty := map_eq_nil_iff.mp (head?_eq_none_iff.mp hnone)
    have hlisted := (hmem candidate).mpr hcandidate
    rw [hempty] at hlisted
    cases hlisted

theorem resolveComponent_imports {resolved : ResolvedComponent}
    (h : resolveComponent harnessAuthority policy manifest = .ok resolved) :
    List.Forall₂ (Resolves harnessAuthority policy manifest) manifest.1.imports
      resolved.imports := by
  obtain ⟨imports,himports,hresolved⟩ := bind_eq_ok.mp h
  cases hresolved
  exact (mapM_eq_ok.mp himports).imp fun _ _ himport => resolveImport_resolves himport

theorem foldlM_resolveTurn {members : List composition.Member}
    {graph graph' : ResolvedComponentGraph} (hnodup : (members.map (·.1.id)).Nodup)
    (h : members.foldlM (resolveTurn harnessAuthority policy) graph = .ok graph') :
    (∀ id, id ∉ members.map (·.1.id) →
      graph'.components.get? id = graph.components.get? id) ∧
    (∀ manifest ∈ members, ∃ resolved,
      resolveComponent harnessAuthority policy manifest = .ok resolved ∧
        graph'.components.get? manifest.1.id = some resolved) ∧
    graph'.listeners =
      graph.listeners ++ members.flatMap (resolveListeners harnessAuthority) := by
  induction members generalizing graph with
  | nil =>
    cases h
    simp
  | cons manifest members ih =>
    obtain ⟨next,hturn,hrest⟩ := bind_eq_ok.mp h
    obtain ⟨resolved,hresolved,hnext⟩ := bind_eq_ok.mp hturn
    cases hnext
    rw [map_cons, nodup_cons] at hnodup
    obtain ⟨hother,hall,hlisteners⟩ := ih hnodup.2 hrest
    refine ⟨?_,?_,?_⟩
    · intro id hid
      rw [map_cons, mem_cons, not_or] at hid
      rw [hother id hid.2, get?_insert_of_ne _ _ hid.1]
    · intro other hmem
      rcases mem_cons.mp hmem with rfl | hmem
      · refine ⟨resolved,hresolved,?_⟩
        rw [hother _ hnodup.1, get?_insert_self]
      · exact hall other hmem
    · rw [hlisteners, flatMap_cons, append_assoc]

/-- What the loop over the components leaves: the resolution of every component
under its id and nothing else, and the listeners in the order of the ids. -/
theorem resolveAll_spec {graph : ResolvedComponentGraph}
    (h : composition.resolveAll harnessAuthority policy = .ok graph) :
    graph.components.keys = composition.components.keys ∧
    (∀ manifest : composition.Member, ∃ resolved,
      resolveComponent harnessAuthority policy manifest = .ok resolved ∧
        graph.components.get? manifest.1.id = some resolved) ∧
    graph.listeners = composition.members.flatMap (resolveListeners harnessAuthority) := by
  have hids : (composition.members.map (·.1.id)).Nodup :=
    composition.members_ids ▸ composition.components.nodup_keys
  obtain ⟨hother,hall,hlisteners⟩ := foldlM_resolveTurn hids h
  have hmember : ∀ manifest : composition.Member, manifest ∈ composition.members :=
    fun manifest => mem_attach _ _
  refine ⟨?_,fun manifest => hall manifest (hmember manifest),hlisteners⟩
  apply List.Pairwise.eq_of_mem_iff graph.components.sorted composition.components.sorted
  intro id
  rw [← composition.members_ids]
  constructor
  · intro hid
    by_contra hnot
    rw [mem_keys_iff, hother id hnot] at hid
    cases hid
  · intro hid
    obtain ⟨manifest,hmem,rfl⟩ := mem_map.mp hid
    obtain ⟨resolved,-,hget⟩ := hall manifest hmem
    rw [mem_keys_iff, hget]
    rfl

end Resolution
end Composition

/-- In a compiled graph every import of every component is resolved to exactly its
eligible providers, in the order of preference and with the authority that all six
ceilings leave. -/
theorem providers_exact (plugins : List PluginManifest) (components : List ComponentManifest)
    (harnessAuthority : Authority) (policy : Option ProviderCompositionPolicy)
    (graph : ResolvedComponentGraph)
    (h : ResolvedComponentGraph.compileInner plugins components harnessAuthority policy =
      .ok graph) :
    ∃ composition, Composition.of plugins components = .ok composition ∧
      graph.components.keys = composition.components.keys ∧
      ∀ manifest : composition.Member, ∃ resolved,
        graph.components.get? manifest.1.id = some resolved ∧
        List.Forall₂ (Composition.Resolves harnessAuthority policy manifest) manifest.1.imports
          resolved.imports := by
  obtain ⟨composition,hof,hresolve,-,-⟩ := ResolvedComponentGraph.compileInner_eq_ok.mp h
  obtain ⟨hkeys,hall,-⟩ := Composition.resolveAll_spec hresolve
  refine ⟨composition,hof,hkeys,?_⟩
  intro manifest
  obtain ⟨resolved,hresolved,hget⟩ := hall manifest
  exact ⟨resolved,hget,Composition.resolveComponent_imports hresolved⟩

theorem providers_exact_two : ∃ (graph : ResolvedComponentGraph) (composition : Composition),
    Composition.of [demoPlugin] [exporter zProvider 10,importer,exporter aProvider 10] =
      .ok composition ∧
    graph.components.keys = composition.components.keys ∧
    ∀ manifest : composition.Member, ∃ resolved,
      graph.components.get? manifest.1.id = some resolved ∧
      List.Forall₂ (Composition.Resolves (Authority.new []) (some demoPolicy) manifest)
        manifest.1.imports resolved.imports := by
  obtain ⟨graph,hgraph⟩ := exists_compiled
  exact ⟨graph,providers_exact _ _ _ _ graph hgraph⟩

end PhenixConductor.Component
