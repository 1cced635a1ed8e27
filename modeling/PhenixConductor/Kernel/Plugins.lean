import PhenixConductor.Component.Composition

/-! # Plugins of a kernel configuration

What `KernelConfig::new` checks about the manifests of the plugins and derives from
them: the owners of the namespaces, the providers of the runtimes, and the binding
of every guest to the plugin that provides its runtime.
-/
namespace PhenixConductor.Kernel
open Collections Contract Component Events

inductive KernelError where
  | duplicatePlugin (plugin : PluginId)
  | unknownDependency (plugin dependency : PluginId)
  | dependencyCycle (plugin : PluginId)
  | duplicateResourceNamespace (namespc : ResourceNamespace)
  | duplicateServiceContribution (plugin : PluginId) (service : ServiceId)
  | resourceOnlyService (plugin : PluginId)
  | unknownPlugin (plugin : PluginId)
  | noEligibleProvider (service : ServiceId)
  | boundProviderUnavailable (service : ServiceId) (plugin : PluginId)
  | duplicateLayerPolicy (service : ServiceId) (plugin : PluginId)
  | requiredLayerUnavailable (service : ServiceId) (plugin : PluginId)
  | continuationUnavailable
  | continuationAlreadyUsed (service : ServiceId)
  | causalServiceReentry (service : ServiceId)
  | serviceDenied (plugin : PluginId) (service : ServiceId) (message : String)
  | serviceCancelled (plugin : PluginId) (service : ServiceId)
  | pluginNotActive (plugin : PluginId)
  | hostOperationDenied (plugin : PluginId) (operation : String)
  | embeddedFactoryMissing (plugin : PluginId)
  | wrongExecutionKind (plugin : PluginId)
  | componentGraph (error : ComponentGraphError)
  | runtimeProviderUnavailable (runtime : RuntimeId)
  | duplicateRuntimeProvider (runtime : RuntimeId) (first second : PluginId)
  | reservedRuntimeProvider (plugin : PluginId)
  | runtimeProviderNotExecutable (runtime : RuntimeId) (provider : PluginId)
  | runtimeProviderContractUnavailable (runtime : RuntimeId) (provider : PluginId)
  | runtimePrepare (plugin : PluginId) (runtime : RuntimeId) (message : String)
  | pluginStart (plugin : PluginId) (message : String)
  | listenerBinding (plugin : PluginId) (component : ComponentId) (method message : String)
  | eventTopology (error : EventError)
  | partiallyActiveRuntime
  | resolvedGenerationMissing
  | pluginStop (plugin : PluginId) (message : String)
  | serviceInvoke (plugin : PluginId) (service : ServiceId) (message : String)
  | persistence (plugin : PluginId) (message : String)

structure RuntimeBinding where
  guest : PluginId
  runtime : RuntimeId
  provider : PluginId
  artifactRevision : ArtifactRevision
  deriving DecidableEq

def embeddedRuntime : String := "embedded"

def runtimeProviderServicePrefix : String := "phenix.kernel.runtime-provider/"

def runtimeProviderServiceVersion : String := "@1"

/-- The runtime that a service is the provider contract of. -/
def runtimeProviderRuntime (service : ServiceId) : Option RuntimeId := do
  let rest ← service.text.toList.dropPrefix? runtimeProviderServicePrefix.toList
  let runtime ← rest.dropSuffix? runtimeProviderServiceVersion.toList
  Identifier.parse (String.ofList runtime)

abbrev Manifests := BTreeMap PluginId PluginManifest

def indexManifests (manifests : List PluginManifest) : Except KernelError Manifests :=
  register (·.id) (fun _ => .ok ()) (fun manifest => .duplicatePlugin manifest.id) manifests

section Validation
variable (manifests : Manifests)

/-- One turn of the loop of `validate_namespaces`. -/
def addNamespace (owners : BTreeMap ResourceNamespace PluginId)
    (claim : ResourceNamespace × PluginId) :
    Except KernelError (BTreeMap ResourceNamespace PluginId) :=
  if claim.1 ∈ owners.keys then .error (.duplicateResourceNamespace claim.1)
  else .ok (owners.insert claim.1 claim.2)

def validateNamespaces : Except KernelError (BTreeMap ResourceNamespace PluginId) :=
  (manifests.values.flatMap fun manifest =>
    manifest.resourceNamespaces.map fun namespc => (namespc,manifest.id)).foldlM addNamespace .empty

def validateContributions : Except KernelError Unit :=
  manifests.values.forM fun manifest => do
    if manifest.execution.isResourceOnly && !manifest.services.isEmpty then
      throw (.resourceOnlyService manifest.id)
    let _ ← register (·.service) (fun _ => .ok ())
      (fun contribution => .duplicateServiceContribution manifest.id contribution.service)
      manifest.services

/-- One turn of the loop of `resolve_runtime_providers`. -/
def addRuntimeProvider (providers : BTreeMap RuntimeId PluginId)
    (offer : PluginManifest × ServiceContribution) :
    Except KernelError (BTreeMap RuntimeId PluginId) :=
  match runtimeProviderRuntime offer.2.service with
  | none => .ok providers
  | some runtime =>
    if runtime.text = embeddedRuntime then .error (.reservedRuntimeProvider offer.1.id)
    else if offer.2.role ≠ .terminal || offer.1.execution.isResourceOnly then
      .error (.runtimeProviderNotExecutable runtime offer.1.id)
    else match providers.get? runtime with
      | some first => .error (.duplicateRuntimeProvider runtime first offer.1.id)
      | none => .ok (providers.insert runtime offer.1.id)

def resolveRuntimeProviders : Except KernelError (BTreeMap RuntimeId PluginId) :=
  (manifests.values.flatMap fun manifest =>
    manifest.services.map fun contribution => (manifest,contribution)).foldlM
      addRuntimeProvider .empty

abbrev RuntimeBindings := BTreeMap PluginId RuntimeBinding

/-- One turn of the loop of `resolve_runtime_bindings`. -/
def addRuntimeBinding (providers : BTreeMap RuntimeId PluginId) (bindings : RuntimeBindings)
    (manifest : PluginManifest) : Except KernelError RuntimeBindings :=
  match manifest.execution with
  | .embedded | .resourceOnly => .ok bindings
  | .runtime runtime artifact =>
    if runtime.text = embeddedRuntime then .error (.runtimeProviderUnavailable runtime)
    else match providers.get? runtime with
      | none => .error (.runtimeProviderUnavailable runtime)
      | some provider => .ok (bindings.insert manifest.id
          ⟨manifest.id,runtime,provider,artifact.revision⟩)

def resolveRuntimeBindings (providers : BTreeMap RuntimeId PluginId) :
    Except KernelError RuntimeBindings :=
  manifests.values.foldlM (addRuntimeBinding providers) .empty

end Validation

/-- Every provider of a runtime is one of the plugins, and not a resource. -/
theorem resolveRuntimeProviders_mem {manifests : Manifests}
    {providers : BTreeMap RuntimeId PluginId} (h : resolveRuntimeProviders manifests = .ok providers)
    (runtime : RuntimeId) (provider : PluginId) (hget : providers.get? runtime = some provider) :
    ∃ manifest ∈ manifests.values, manifest.id = provider ∧
      manifest.execution.isResourceOnly = false := by
  refine foldlM_invariant (I := fun providers : BTreeMap RuntimeId PluginId =>
    ∀ runtime provider, providers.get? runtime = some provider →
      ∃ manifest ∈ manifests.values, manifest.id = provider ∧
        manifest.execution.isResourceOnly = false) ?_ (by simp) h runtime provider hget
  intro offer hoffer first next hfirst hnext runtime provider hget
  simp only [List.mem_flatMap, List.mem_map] at hoffer
  obtain ⟨manifest,hmanifest,contribution,-,rfl⟩ := hoffer
  unfold addRuntimeProvider at hnext
  split at hnext
  · cases hnext
    exact hfirst runtime provider hget
  · split_ifs at hnext with _ hexecutable
    split at hnext
    · cases hnext
    · cases hnext
      rw [BTreeMap.get?_insert] at hget
      split_ifs at hget
      · cases hget
        rw [Bool.or_eq_true, not_or] at hexecutable
        exact ⟨manifest,hmanifest,rfl,Bool.eq_false_iff.mpr hexecutable.2⟩
      · exact hfirst runtime provider hget

/-- A plugin offers the contract of a runtime's provider. -/
def Provides (manifest : PluginManifest) (runtime : RuntimeId) : Prop :=
  ∃ contribution ∈ manifest.services, runtimeProviderRuntime contribution.service = some runtime

theorem addRuntimeProvider_eq_ok {first next : BTreeMap RuntimeId PluginId}
    {offer : PluginManifest × ServiceContribution} (h : addRuntimeProvider first offer = .ok next) :
    runtimeProviderRuntime offer.2.service = none ∧ next = first ∨
      ∃ runtime, runtimeProviderRuntime offer.2.service = some runtime ∧ first.get? runtime = none ∧
        next = first.insert runtime offer.1.id := by
  unfold addRuntimeProvider at h
  split at h
  · next hnone =>
    cases h
    exact .inl ⟨hnone,rfl⟩
  · next runtime hruntime =>
    split_ifs at h
    split at h
    · cases h
    · next hfree =>
      cases h
      exact .inr ⟨runtime,hruntime,hfree,rfl⟩

/-- The offers of a list are added to the providers. -/
theorem foldlM_addRuntimeProvider {offers : List (PluginManifest × ServiceContribution)}
    {first last : BTreeMap RuntimeId PluginId}
    (h : offers.foldlM addRuntimeProvider first = .ok last) (runtime : RuntimeId) (provider : PluginId) :
    last.get? runtime = some provider ↔ first.get? runtime = some provider ∨
      ∃ offer ∈ offers, runtimeProviderRuntime offer.2.service = some runtime ∧
        offer.1.id = provider := by
  induction offers generalizing first with
  | nil =>
    cases h
    simp
  | cons offer rest ih =>
    rw [List.foldlM_cons, bind_eq_ok] at h
    obtain ⟨next,hnext,hrest⟩ := h
    rw [ih hrest]
    rcases addRuntimeProvider_eq_ok hnext with ⟨hnone,rfl⟩ | ⟨offered,hoffered,hfree,rfl⟩
    · simp [hnone]
    · by_cases hsame : runtime = offered
      · subst hsame
        simp [hoffered, hfree]
      · have hother : offered ≠ runtime := Ne.symm hsame
        simp [hoffered, BTreeMap.get?_insert_of_ne _ _ hsame, hother]

theorem get?_resolveRuntimeProviders {manifests : Manifests} {providers : BTreeMap RuntimeId PluginId}
    (h : resolveRuntimeProviders manifests = .ok providers) (runtime : RuntimeId)
    (provider : PluginId) : providers.get? runtime = some provider ↔
      ∃ manifest ∈ manifests.values, Provides manifest runtime ∧ manifest.id = provider := by
  rw [foldlM_addRuntimeProvider h]
  simp only [BTreeMap.get?_empty, reduceCtorEq, false_or, List.mem_flatMap, List.mem_map, Provides]
  constructor
  · rintro ⟨_,⟨manifest,hmem,contribution,hcontribution,rfl⟩,hruntime,hid⟩
    exact ⟨manifest,hmem,⟨contribution,hcontribution,hruntime⟩,hid⟩
  · rintro ⟨manifest,hmem,⟨contribution,hcontribution,hruntime⟩,hid⟩
    exact ⟨(manifest,contribution),⟨manifest,hmem,contribution,hcontribution,rfl⟩,hruntime,hid⟩

/-- What a binding says: its guest runs in the runtime, and another plugin provides that. -/
structure Binds (manifests : Manifests) (plugin : PluginId) (binding : RuntimeBinding) :
    Prop where
  guest : binding.guest = plugin
  runs : ∃ manifest artifact, manifests.get? plugin = some manifest ∧
    manifest.execution = .runtime binding.runtime artifact
  provided : ∃ manifest, manifests.get? binding.provider = some manifest ∧
    manifest.execution.isResourceOnly = false

section Bindings
variable {manifests : Manifests} {providers : BTreeMap RuntimeId PluginId} {bindings : RuntimeBindings}

/-- One turn leaves the bindings alone or binds a plugin that runs in a runtime. -/
theorem addRuntimeBinding_eq_ok {first next : RuntimeBindings} {manifest : PluginManifest}
    (h : addRuntimeBinding providers first manifest = .ok next) :
    (∀ runtime artifact, manifest.execution ≠ .runtime runtime artifact) ∧ next = first ∨
      ∃ runtime artifact provider, manifest.execution = .runtime runtime artifact ∧
        providers.get? runtime = some provider ∧
        next = first.insert manifest.id ⟨manifest.id,runtime,provider,artifact.revision⟩ := by
  unfold addRuntimeBinding at h
  split at h
  · next hembedded =>
    cases h
    exact .inl ⟨by simp [hembedded],rfl⟩
  · next hresource =>
    cases h
    exact .inl ⟨by simp [hresource],rfl⟩
  · next runtime artifact hruntime =>
    split_ifs at h
    split at h
    · cases h
    · next provider hprovider =>
      cases h
      exact .inr ⟨runtime,artifact,provider,hruntime,hprovider,rfl⟩

/-- A binding names the provider that is registered for the runtime of its guest. -/
theorem get?_resolveRuntimeBindings
    (hids : ∀ id manifest, manifests.get? id = some manifest → manifest.id = id)
    (h : resolveRuntimeBindings manifests providers = .ok bindings)
    (plugin : PluginId) (binding : RuntimeBinding) (hget : bindings.get? plugin = some binding) :
    binding.guest = plugin ∧ ∃ manifest artifact, manifests.get? plugin = some manifest ∧
      manifest.execution = .runtime binding.runtime artifact ∧
      providers.get? binding.runtime = some binding.provider := by
  refine foldlM_invariant (I := fun bindings : RuntimeBindings => ∀ plugin binding,
    bindings.get? plugin = some binding → binding.guest = plugin ∧ ∃ manifest artifact,
      manifests.get? plugin = some manifest ∧ manifest.execution = .runtime binding.runtime artifact ∧
      providers.get? binding.runtime = some binding.provider) ?_ (by simp) h plugin binding hget
  intro manifest hmanifest first next hfirst hnext plugin binding hget
  rcases addRuntimeBinding_eq_ok hnext with ⟨-,rfl⟩ |
    ⟨runtime,artifact,provider,hruntime,hprovider,rfl⟩
  · exact hfirst plugin binding hget
  · rw [BTreeMap.get?_insert] at hget
    split_ifs at hget with hsame
    · cases hget
      subst hsame
      obtain ⟨id,hid⟩ := manifests.mem_values.mp hmanifest
      exact ⟨rfl,manifest,artifact,hids id manifest hid ▸ hid,hruntime,hprovider⟩
    · exact hfirst plugin binding hget

theorem resolveRuntimeBindings_binds
    (hids : ∀ id manifest, manifests.get? id = some manifest → manifest.id = id)
    (hproviders : resolveRuntimeProviders manifests = .ok providers)
    (h : resolveRuntimeBindings manifests providers = .ok bindings)
    (plugin : PluginId) (binding : RuntimeBinding) (hget : bindings.get? plugin = some binding) :
    Binds manifests plugin binding := by
  obtain ⟨hguest,manifest,artifact,hmanifest,hruntime,hprovider⟩ :=
    get?_resolveRuntimeBindings hids h plugin binding hget
  obtain ⟨owner,howner,hid,hexecutable⟩ := resolveRuntimeProviders_mem hproviders _ _ hprovider
  obtain ⟨id,hget'⟩ := manifests.mem_values.mp howner
  refine ⟨hguest,⟨manifest,artifact,hmanifest,hruntime⟩,owner,?_,hexecutable⟩
  rw [← hid, hids id owner hget', hget']

/-- Every plugin that runs in a runtime is bound. -/
theorem resolveRuntimeBindings_complete
    (hids : ∀ id manifest, manifests.get? id = some manifest → manifest.id = id)
    (h : resolveRuntimeBindings manifests providers = .ok bindings)
    (plugin : PluginId) (manifest : PluginManifest) (runtime : RuntimeId) (artifact : PluginArtifact)
    (hget : manifests.get? plugin = some manifest)
    (hruntime : manifest.execution = .runtime runtime artifact) : plugin ∈ bindings.keys := by
  have hbound : ∀ (l : List PluginManifest) (first last : RuntimeBindings),
      l.foldlM (addRuntimeBinding providers) first = .ok last →
      (∀ plugin ∈ first.keys, plugin ∈ last.keys) ∧ (manifest ∈ l → manifest.id ∈ last.keys) := by
    intro l
    induction l with
    | nil =>
      rintro first last ⟨⟩
      exact ⟨fun _ hplugin => hplugin,fun hmem => nomatch hmem⟩
    | cons other l ih =>
      intro first last hfold
      rw [List.foldlM_cons, bind_eq_ok] at hfold
      obtain ⟨next,hnext,hfold⟩ := hfold
      obtain ⟨hkeep,hrest⟩ := ih next last hfold
      rcases addRuntimeBinding_eq_ok hnext with ⟨hnone,rfl⟩ | ⟨_,_,_,-,-,rfl⟩
      · refine ⟨hkeep,fun hmem => ?_⟩
        rcases List.mem_cons.mp hmem with rfl | hmem
        · exact absurd hruntime (hnone runtime artifact)
        · exact hrest hmem
      · refine ⟨fun plugin hplugin => hkeep plugin (by simp [hplugin]),fun hmem => ?_⟩
        rcases List.mem_cons.mp hmem with rfl | hmem
        · exact hkeep _ (by simp)
        · exact hrest hmem
  have hmem : manifest ∈ manifests.values := manifests.mem_values.mpr ⟨plugin,hget⟩
  exact hids plugin manifest hget ▸ (hbound _ _ _ h).2 hmem

end Bindings

theorem indexManifests_ne_cycle {manifests : List PluginManifest} (plugin : PluginId) :
    indexManifests manifests ≠ .error (.dependencyCycle plugin) := by
  intro h
  obtain ⟨manifest,-,hcheck | hcheck⟩ := register_eq_error h <;> cases hcheck

section Errors
variable {manifests : Manifests} {providers : BTreeMap RuntimeId PluginId} (plugin : PluginId)

theorem validateNamespaces_ne_cycle : validateNamespaces manifests ≠ .error (.dependencyCycle plugin) := by
  intro h
  obtain ⟨claim,-,owners,hclaim⟩ := foldlM_eq_error h
  unfold addNamespace at hclaim
  split_ifs at hclaim
  cases hclaim

theorem validateContributions_ne_cycle :
    validateContributions manifests ≠ .error (.dependencyCycle plugin) := by
  intro h
  obtain ⟨manifest,-,hmanifest⟩ := forM_eq_error h
  split_ifs at hmanifest
  · cases hmanifest
  · rcases bind_eq_error.mp hmanifest with hmanifest | ⟨_,-,hmanifest⟩
    · obtain ⟨contribution,-,hcheck | hcheck⟩ := register_eq_error hmanifest <;> cases hcheck
    · cases hmanifest

theorem resolveRuntimeProviders_ne_cycle :
    resolveRuntimeProviders manifests ≠ .error (.dependencyCycle plugin) := by
  intro h
  obtain ⟨offer,-,providers,hoffer⟩ := foldlM_eq_error h
  unfold addRuntimeProvider at hoffer
  split at hoffer
  · cases hoffer
  · split_ifs at hoffer
    · cases hoffer
    · cases hoffer
    · split at hoffer <;> cases hoffer

theorem resolveRuntimeBindings_ne_cycle :
    resolveRuntimeBindings manifests providers ≠ .error (.dependencyCycle plugin) := by
  intro h
  obtain ⟨manifest,-,bindings,hmanifest⟩ := foldlM_eq_error h
  unfold addRuntimeBinding at hmanifest
  split at hmanifest
  · cases hmanifest
  · cases hmanifest
  · split_ifs at hmanifest
    · cases hmanifest
    · split at hmanifest <;> cases hmanifest

end Errors
end PhenixConductor.Kernel
