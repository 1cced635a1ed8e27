import PhenixConductor.Kernel.ActivationOrder
import PhenixConductor.Collections.SortKey

/-! # Kernel configurations

A configuration cannot be built without the checks of `KernelConfig::new`.
-/
namespace PhenixConductor.Kernel
open Collections Contract Component Relation List

structure LayerPolicy where
  plugin : PluginId
  priority : ℤ
  required : Bool
  enabled : Bool
  deriving DecidableEq

structure ProviderBinding where
  service : ServiceId
  plugin : PluginId
  priority : ℤ

structure ResolvedServiceChain where
  policyIdentity : ℕ
  service : ServiceId
  layers : List ProviderBinding
  terminal : ProviderBinding

def ResolvedServiceChain.providers (self : ResolvedServiceChain) : List ProviderBinding :=
  self.layers ++ [self.terminal]

structure KernelConfig where
  manifests : Manifests
  activationOrder : List PluginId
  namespaceOwners : BTreeMap ResourceNamespace PluginId
  layerPolicies : BTreeMap ServiceId (List LayerPolicy)
  runtimeProviders : BTreeMap RuntimeId PluginId
  runtimeBindings : RuntimeBindings
  policyIdentity : ℕ
  manifestIds : ∀ id manifest, manifests.get? id = some manifest → manifest.id = id
  ordered : activationOrder.Nodup ∧ ∀ plugin, plugin ∈ activationOrder ↔ plugin ∈ manifests.keys
  bound : ∀ plugin binding, runtimeBindings.get? plugin = some binding →
    Binds manifests plugin binding
  complete : ∀ plugin manifest runtime artifact, manifests.get? plugin = some manifest →
    manifest.execution = .runtime runtime artifact → plugin ∈ runtimeBindings.keys

theorem indexManifests_ids {manifests : List PluginManifest} {indexed : Manifests}
    (h : indexManifests manifests = .ok indexed) (id : PluginId) (manifest : PluginManifest)
    (hid : indexed.get? id = some manifest) : manifest.id = id :=
  ((register_eq_ok.mp h).2.2 id manifest).mp hid |>.2

/-- The plugins that a plugin is activated after. -/
inductive Awaits (manifests : List PluginManifest) : PluginId → PluginId → Prop
  | dependency {manifest : PluginManifest} {other : PluginId} (hmem : manifest ∈ manifests)
      (hother : other ∈ manifest.dependencies) : Awaits manifests manifest.id other
  | runtime {guest provider : PluginManifest} {runtime : RuntimeId} {artifact : PluginArtifact}
      (hguest : guest ∈ manifests) (hruns : guest.execution = .runtime runtime artifact)
      (hprovider : provider ∈ manifests) (hprovides : Provides provider runtime) :
      Awaits manifests guest.id provider.id

/-- The checks of `KernelConfig::new` before the one of the order. -/
structure Checked (manifests : List PluginManifest) (indexed : Manifests)
    (owners : BTreeMap ResourceNamespace PluginId) (providers : BTreeMap RuntimeId PluginId)
    (bindings : RuntimeBindings) : Prop where
  plugins : indexManifests manifests = .ok indexed
  namespaces : validateNamespaces indexed = .ok owners
  contributions : validateContributions indexed = .ok ()
  offers : resolveRuntimeProviders indexed = .ok providers
  guests : resolveRuntimeBindings indexed providers = .ok bindings

section Checked
variable {manifests : List PluginManifest} {indexed : Manifests}
  {owners : BTreeMap ResourceNamespace PluginId} {providers : BTreeMap RuntimeId PluginId}
  {bindings : RuntimeBindings} (h : Checked manifests indexed owners providers bindings)
include h

theorem Checked.get? (id : PluginId) (manifest : PluginManifest) :
    indexed.get? id = some manifest ↔ manifest ∈ manifests ∧ manifest.id = id :=
  (register_eq_ok.mp h.plugins).2.2 id manifest

theorem Checked.mem_keys (id : PluginId) : id ∈ indexed.keys ↔ id ∈ manifests.map (·.id) := by
  rw [indexed.mem_keys_iff, Option.isSome_iff_exists, mem_map]
  exact exists_congr (h.get? id)

theorem Checked.mem_values (manifest : PluginManifest) :
    manifest ∈ indexed.values ↔ manifest ∈ manifests := by
  rw [indexed.mem_values]
  simp [h.get?]

theorem Checked.requires_iff (plugin other : PluginId) :
    Requires indexed bindings plugin other ↔ Awaits manifests plugin other := by
  have hids := indexManifests_ids h.plugins
  constructor
  · rintro ⟨manifest,hget,hother⟩
    obtain ⟨hmem,rfl⟩ := (h.get? plugin manifest).mp hget
    rcases mem_append.mp hother with hother | hother
    · exact .dependency hmem hother
    · simp only [Option.mem_toList, Option.map_eq_some_iff] at hother
      obtain ⟨binding,hbinding,rfl⟩ := hother
      obtain ⟨-,guest,artifact,hguest,hruns,hprovider⟩ :=
        get?_resolveRuntimeBindings hids h.guests _ binding hbinding
      cases hget.symm.trans hguest
      obtain ⟨provider,hprovider,hprovides,hid⟩ :=
        (get?_resolveRuntimeProviders h.offers _ _).mp hprovider
      exact hid ▸ .runtime hmem hruns ((h.mem_values provider).mp hprovider) hprovides
  · intro hawaits
    cases hawaits with
    | dependency hmem hother =>
      exact ⟨_,(h.get? _ _).mpr ⟨hmem,rfl⟩,mem_append_left _ hother⟩
    | @runtime guest provider runtime artifact hguest hruns hprovider hprovides =>
      have hget := (h.get? guest.id guest).mpr ⟨hguest,rfl⟩
      refine ⟨guest,hget,mem_append_right _ ?_⟩
      have hbound := resolveRuntimeBindings_complete hids h.guests _ guest runtime artifact hget hruns
      rw [bindings.mem_keys_iff, Option.isSome_iff_exists] at hbound
      obtain ⟨binding,hbinding⟩ := hbound
      obtain ⟨-,same,artifact',hsame,hruns',hregistered⟩ :=
        get?_resolveRuntimeBindings hids h.guests _ binding hbinding
      cases hget.symm.trans hsame
      cases hruns.symm.trans hruns'
      have hprovider := (get?_resolveRuntimeProviders h.offers _ _).mpr
        ⟨provider,(h.mem_values provider).mpr hprovider,hprovides,rfl⟩
      simp [hbinding, Option.some.inj (hregistered.symm.trans hprovider)]

theorem Checked.requires_eq : Requires indexed bindings = Awaits manifests := by
  ext plugin other
  exact h.requires_iff plugin other

/-- Where the dependencies are known, no edge leads out of the plugins. -/
theorem Checked.closed (hids : validateDependencyIds indexed = .ok ()) (plugin other : PluginId)
    (hrequires : Requires indexed bindings plugin other) : other ∈ indexed.keys := by
  rw [h.requires_eq] at hrequires
  cases hrequires with
  | @dependency manifest _ hmem hother =>
    have hall := forM_eq_ok.mp (forM_eq_ok.mp hids manifest ((h.mem_values manifest).mpr hmem)) other hother
    rw [indexed.mem_keys_iff]
    split_ifs at hall with hsome
    exact hsome
  | @runtime _ provider _ _ _ _ hprovider _ =>
    exact (h.mem_keys _).mpr (mem_map_of_mem hprovider)

theorem Checked.order_perm {order : List PluginId} (horder : dependencyOrder indexed bindings = .ok order) :
    order.Perm (manifests.map (·.id)) := by
  obtain ⟨hnodup,hmem⟩ := dependencyOrder_perm horder
  rw [perm_ext_iff_of_nodup hnodup (register_eq_ok.mp h.plugins).2.1]
  intro plugin
  rw [hmem, h.mem_keys]

end Checked

/-- The comparison of `terminals.sort_by` and `layers.sort_by`: the higher priority
first, then the smaller id. -/
def compareBindings (left right : ProviderBinding) : Ordering :=
  (compare right.priority left.priority).then (compare left.plugin right.plugin)

namespace KernelConfig

/-- `freshIdentity` is the number that the process-wide counter gives. -/
def new (freshIdentity : ℕ) (manifests : List PluginManifest) : Except KernelError KernelConfig :=
  match hindexed : indexManifests manifests with
  | .error error => .error error
  | .ok indexed =>
    let checked := do
      let namespaceOwners ← validateNamespaces indexed
      validateContributions indexed
      .ok namespaceOwners
    match checked,hproviders : resolveRuntimeProviders indexed with
    | .error error,_ => .error error
    | .ok _,.error error => .error error
    | .ok namespaceOwners,.ok runtimeProviders =>
      match hbindings : resolveRuntimeBindings indexed runtimeProviders with
      | .error error => .error error
      | .ok runtimeBindings =>
        match horder : dependencyOrder indexed runtimeBindings with
        | .error error => .error error
        | .ok activationOrder => .ok
          { manifests := indexed
            activationOrder := activationOrder
            namespaceOwners := namespaceOwners
            layerPolicies := .empty
            runtimeProviders := runtimeProviders
            runtimeBindings := runtimeBindings
            policyIdentity := freshIdentity
            manifestIds := indexManifests_ids hindexed
            ordered := dependencyOrder_perm horder
            bound := resolveRuntimeBindings_binds (indexManifests_ids hindexed) hproviders
              hbindings
            complete := resolveRuntimeBindings_complete (indexManifests_ids hindexed) hbindings }

section Order
variable {manifests : List PluginManifest} {n : ℕ}

theorem new_of_checked {indexed : Manifests} {owners : BTreeMap ResourceNamespace PluginId}
    {providers : BTreeMap RuntimeId PluginId} {bindings : RuntimeBindings}
    (h : Checked manifests indexed owners providers bindings) :
    (new n manifests).map (·.activationOrder) = dependencyOrder indexed bindings := by
  unfold new
  split
  · next hindexed => cases hindexed.symm.trans h.plugins
  · next found hindexed =>
    cases hindexed.symm.trans h.plugins
    simp only [h.namespaces, h.contributions, ok_bind]
    split
    · next herror => cases herror
    · next hproviders => cases hproviders.symm.trans h.offers
    · next hproviders =>
      cases hproviders.symm.trans h.offers
      split
      · next hbindings => cases hbindings.symm.trans h.guests
      · next hbindings =>
        cases hbindings.symm.trans h.guests
        split
        · next horder => exact horder.symm
        · next horder => exact horder.symm

theorem checked_of_new {config : KernelConfig} (h : new n manifests = .ok config) :
    ∃ owners providers, Checked manifests config.manifests owners providers config.runtimeBindings ∧
      dependencyOrder config.manifests config.runtimeBindings = .ok config.activationOrder := by
  unfold new at h
  split at h
  · cases h
  · next indexed hindexed =>
    dsimp only at h
    split at h
    · cases h
    · cases h
    · next owners providers hchecked hproviders =>
      obtain ⟨owned,howners,hchecked⟩ := bind_eq_ok.mp hchecked
      obtain ⟨hcontributions,hsame⟩ := seq_eq_ok.mp hchecked
      cases hsame
      split at h
      · cases h
      · next bindings hbindings =>
        split at h
        · cases h
        · next order horder =>
          cases h
          exact ⟨owners,providers,⟨hindexed,howners,hcontributions,hproviders,hbindings⟩,horder⟩

/-- A cycle is reported after all other checks. -/
theorem checked_of_cycle {plugin : PluginId} (h : new n manifests = .error (.dependencyCycle plugin)) :
    ∃ indexed owners providers bindings, Checked manifests indexed owners providers bindings ∧
      dependencyOrder indexed bindings = .error (.dependencyCycle plugin) := by
  unfold new at h
  split at h
  · next hindexed => exact absurd (Except.error.inj h ▸ hindexed) (indexManifests_ne_cycle plugin)
  · next indexed hindexed =>
    dsimp only at h
    split at h
    · next hchecked =>
      rw [Except.error.inj h] at hchecked
      rcases bind_eq_error.mp hchecked with hnamespaces | ⟨owners,-,hrest⟩
      · exact absurd hnamespaces (validateNamespaces_ne_cycle plugin)
      · rcases bind_eq_error.mp hrest with hcontributions | ⟨_,-,hok⟩
        · exact absurd hcontributions (validateContributions_ne_cycle plugin)
        · cases hok
    · next hproviders =>
      exact absurd (Except.error.inj h ▸ hproviders) (resolveRuntimeProviders_ne_cycle plugin)
    · next owners providers hchecked hproviders =>
      obtain ⟨owned,howners,hchecked⟩ := bind_eq_ok.mp hchecked
      obtain ⟨hcontributions,hsame⟩ := seq_eq_ok.mp hchecked
      split at h
      · next hbindings =>
        exact absurd (Except.error.inj h ▸ hbindings) (resolveRuntimeBindings_ne_cycle plugin)
      · next bindings hbindings =>
        split at h
        · next horder =>
          exact ⟨indexed,owned,providers,bindings,
            ⟨hindexed,howners,hcontributions,hproviders,hbindings⟩,Except.error.inj h ▸ horder⟩
        · cases h

/-- Everything that `KernelConfig::new` checks but the absence of cycles. -/
def OtherwiseValid (manifests : List PluginManifest) : Prop :=
  ∃ indexed owners providers bindings, Checked manifests indexed owners providers bindings ∧
    validateDependencyIds indexed = .ok ()

/-- A configuration activates every plugin once, behind the plugins that it awaits. It is refused
for a cycle exactly when there is one, and names a plugin on a cycle. -/
theorem new_activates_in_order (n : ℕ) (manifests : List PluginManifest) :
    (∀ config, new n manifests = .ok config →
      config.activationOrder.Perm (manifests.map (·.id)) ∧
        Topological (Awaits manifests) config.activationOrder) ∧
    (∀ plugin, new n manifests = .error (.dependencyCycle plugin) →
      OtherwiseValid manifests ∧ TransGen (Awaits manifests) plugin plugin) ∧
    (OtherwiseValid manifests →
      ((∃ plugin, new n manifests = .error (.dependencyCycle plugin)) ↔
        ¬ Acyclic (Awaits manifests))) := by
  refine ⟨?_,?_,?_⟩
  · intro config h
    obtain ⟨owners,providers,hchecked,horder⟩ := checked_of_new h
    have hids := (seq_eq_ok.mp horder).1
    refine ⟨hchecked.order_perm horder,?_⟩
    rw [← hchecked.requires_eq]
    exact dependencyOrder_topological (hchecked.closed hids) horder
  · intro plugin h
    obtain ⟨indexed,owners,providers,bindings,hchecked,horder⟩ := checked_of_cycle h
    have hids : validateDependencyIds indexed = .ok () := by
      rcases bind_eq_error.mp horder with hids | ⟨_,hids,-⟩
      · exact absurd hids (validateDependencyIds_ne_cycle plugin)
      · exact hids
    refine ⟨⟨indexed,owners,providers,bindings,hchecked,hids⟩,?_⟩
    obtain ⟨found,hfound,hcycle⟩ := dependencyOrder_eq_error hids horder
    cases hfound
    rwa [← hchecked.requires_eq]
  · rintro ⟨indexed,owners,providers,bindings,hchecked,hids⟩
    have hnew := new_of_checked (n := n) hchecked
    rw [← hchecked.requires_eq]
    cases hresult : new n manifests with
    | ok config =>
      rw [hresult] at hnew
      have hacyclic := dependencyOrder_acyclic (hchecked.closed hids) hnew.symm
      exact iff_of_false (fun ⟨_,h⟩ => nomatch h) (not_not_intro hacyclic)
    | error error =>
      rw [hresult] at hnew
      obtain ⟨found,rfl,hcycle⟩ := dependencyOrder_eq_error hids hnew.symm
      exact iff_of_true ⟨found,rfl⟩ fun hacyclic => hacyclic found hcycle

end Order
variable (self : KernelConfig)

def manifest (plugin : PluginId) : Option PluginManifest := self.manifests.get? plugin

def runtimeBinding (plugin : PluginId) : Option RuntimeBinding := self.runtimeBindings.get? plugin

def resourceOwner (namespc : ResourceNamespace) : Option PluginId :=
  self.namespaceOwners.get? namespc

def withLayerPolicy (freshIdentity : ℕ) (service : ServiceId) (layers : List LayerPolicy) :
    Except KernelError KernelConfig := do
  let _ ← register (·.plugin) (fun _ => .ok ())
    (fun layer => .duplicateLayerPolicy service layer.plugin) layers
  .ok
    { self with
      layerPolicies := self.layerPolicies.insert service layers
      policyIdentity := freshIdentity }

/-- The loop of the resolver over its layer policies. All of its fresh identities but
the last are overwritten. -/
def withLayerPolicies (freshIdentity : ℕ) (policies : BTreeMap ServiceId (List LayerPolicy)) :
    Except KernelError KernelConfig :=
  policies.toList.foldlM (fun config (service,layers) =>
    config.withLayerPolicy freshIdentity service layers) self

def layerPolicy (service : ServiceId) : List LayerPolicy :=
  (self.layerPolicies.get? service).getD []

section Chain
variable (service : ServiceId) (callerAuthority : Authority)

/-- One turn of the loop of `resolve_layers`. -/
def addLayer (layers : List ProviderBinding) (policy : LayerPolicy) :
    Except KernelError (List ProviderBinding) :=
  if !policy.enabled then
    if policy.required then .error (.requiredLayerUnavailable service policy.plugin)
    else .ok layers
  else
    let contribution := (self.manifests.get? policy.plugin).bind fun manifest =>
      manifest.services.find? fun contribution =>
        contribution.role = .layer && contribution.service = service
    if contribution.any fun contribution =>
        callerAuthority.permitsAll contribution.requiredAuthority then
      .ok (layers ++ [⟨service,policy.plugin,policy.priority⟩])
    else if policy.required then .error (.requiredLayerUnavailable service policy.plugin)
    else .ok layers

def resolveLayers : Except KernelError (List ProviderBinding) := do
  let layers ← (self.layerPolicy service).foldlM (self.addLayer service callerAuthority) []
  .ok (layers.insertionSort fun left right => (compareBindings left right).isLE)

/-- The terminals that `resolve_chain` chooses from. -/
def eligibleTerminals (binding : Option PluginId) : List ProviderBinding :=
  self.manifests.values.flatMap fun manifest =>
    (manifest.services.filter fun contribution =>
      contribution.role = .terminal && contribution.service = service &&
        callerAuthority.permitsAll contribution.requiredAuthority &&
          binding.all (· = manifest.id)).map fun contribution =>
            ⟨service,manifest.id,contribution.priority⟩

def resolveChain (binding : Option PluginId) : Except KernelError ResolvedServiceChain := do
  let layers ← self.resolveLayers service callerAuthority
  let terminals := (self.eligibleTerminals service callerAuthority binding).insertionSort
    fun left right => (compareBindings left right).isLE
  match terminals,binding with
  | terminal :: _,_ => .ok ⟨self.policyIdentity,service,layers,terminal⟩
  | [],some plugin => .error (.boundProviderUnavailable service plugin)
  | [],none => .error (.noEligibleProvider service)

/-- The component graph has selected the terminal. -/
def resolveComponentChain (terminalPlugin : PluginId) :
    Except KernelError ResolvedServiceChain := do
  match self.manifests.get? terminalPlugin with
  | none => .error (.unknownPlugin terminalPlugin)
  | some manifest =>
    if manifest.execution.isResourceOnly then .error (.wrongExecutionKind terminalPlugin)
    else
      let layers ← self.resolveLayers service callerAuthority
      .ok ⟨self.policyIdentity,service,layers,⟨service,terminalPlugin,0⟩⟩

/-- The providers of a chain have manifests. -/
def Registered (chain : ResolvedServiceChain) : Prop :=
  ∀ provider ∈ chain.providers, provider.plugin ∈ self.manifests.keys

variable {self service callerAuthority}

variable {layers : List ProviderBinding}

theorem addLayer_registered {next : List ProviderBinding} {policy : LayerPolicy}
    (hlayers : ∀ layer ∈ layers, layer.plugin ∈ self.manifests.keys)
    (h : self.addLayer service callerAuthority layers policy = .ok next) :
    ∀ layer ∈ next, layer.plugin ∈ self.manifests.keys := by
  unfold addLayer at h
  split at h
  · split at h
    · cases h
    · cases h
      exact hlayers
  · dsimp only at h
    split at h
    · next hcontribution =>
      cases h
      intro layer hlayer
      rcases mem_append.mp hlayer with hlayer | hlayer
      · exact hlayers layer hlayer
      · rw [mem_singleton.mp hlayer, self.manifests.mem_keys_iff]
        cases hget : self.manifests.get? policy.plugin with
        | none => simp [hget] at hcontribution
        | some manifest => rfl
    · split at h
      · cases h
      · cases h
        exact hlayers

theorem addLayer_length {next : List ProviderBinding} {policy : LayerPolicy}
    (h : self.addLayer service callerAuthority layers policy = .ok next) :
    next.length ≤ layers.length + 1 := by
  unfold addLayer at h
  dsimp only at h
  split_ifs at h <;> cases h <;> simp

theorem resolveLayers_registered (h : self.resolveLayers service callerAuthority = .ok layers) :
    ∀ layer ∈ layers, layer.plugin ∈ self.manifests.keys := by
  obtain ⟨unsorted,hfold,hsort⟩ := bind_eq_ok.mp h
  cases hsort
  have hall : ∀ layer ∈ unsorted, layer.plugin ∈ self.manifests.keys :=
    foldlM_invariant (fun _ _ _ _ => addLayer_registered)
      (fun _ hmem => absurd hmem not_mem_nil) hfold
  intro layer hlayer
  exact hall layer ((perm_insertionSort _ _).mem_iff.mp hlayer)

variable {binding : Option PluginId}

theorem eligibleTerminals_registered :
    ∀ terminal ∈ self.eligibleTerminals service callerAuthority binding,
      terminal.plugin ∈ self.manifests.keys := by
  intro terminal hterminal
  obtain ⟨manifest,hmanifest,hmem⟩ := mem_flatMap.mp hterminal
  obtain ⟨contribution,-,rfl⟩ := mem_map.mp hmem
  obtain ⟨id,hget⟩ := self.manifests.mem_values.mp hmanifest
  rw [self.manifestIds id manifest hget, self.manifests.mem_keys_iff, hget]
  rfl

variable {chain : ResolvedServiceChain}

theorem registered_of_layers
    (hlayers : self.resolveLayers service callerAuthority = .ok chain.layers)
    (hterminal : chain.terminal.plugin ∈ self.manifests.keys) : self.Registered chain := by
  intro provider hprovider
  rcases mem_append.mp hprovider with hprovider | hprovider
  · exact resolveLayers_registered hlayers provider hprovider
  · rw [mem_singleton.mp hprovider]
    exact hterminal

theorem resolveChain_eq_ok (h : self.resolveChain service callerAuthority binding = .ok chain) :
    chain.service = service ∧ self.resolveLayers service callerAuthority = .ok chain.layers ∧
      chain.terminal ∈ self.eligibleTerminals service callerAuthority binding := by
  obtain ⟨layers,hlayers,h⟩ := bind_eq_ok.mp h
  have hperm := perm_insertionSort (fun left right => (compareBindings left right).isLE)
    (self.eligibleTerminals service callerAuthority binding)
  generalize (self.eligibleTerminals service callerAuthority binding).insertionSort
    (fun left right => (compareBindings left right).isLE) = terminals at h hperm
  cases terminals with
  | nil => cases binding <;> cases h
  | cons terminal rest =>
    cases h
    exact ⟨rfl,hlayers,hperm.mem_iff.mp mem_cons_self⟩

theorem resolveChain_registered (h : self.resolveChain service callerAuthority binding = .ok chain) :
    self.Registered chain := by
  obtain ⟨-,hlayers,hterminal⟩ := resolveChain_eq_ok h
  exact registered_of_layers hlayers (eligibleTerminals_registered _ hterminal)

variable {terminalPlugin : PluginId}

theorem resolveComponentChain_eq_ok
    (h : self.resolveComponentChain service callerAuthority terminalPlugin = .ok chain) :
    chain.service = service ∧ self.resolveLayers service callerAuthority = .ok chain.layers ∧
      chain.terminal.plugin ∈ self.manifests.keys := by
  unfold resolveComponentChain at h
  split at h
  · cases h
  · next manifest hget =>
    split at h
    · cases h
    · obtain ⟨layers,hlayers,h⟩ := bind_eq_ok.mp h
      cases h
      exact ⟨rfl,hlayers,self.manifests.mem_keys_iff.mpr (hget ▸ rfl)⟩

theorem resolveComponentChain_registered
    (h : self.resolveComponentChain service callerAuthority terminalPlugin = .ok chain) :
    self.Registered chain := by
  obtain ⟨-,hlayers,hterminal⟩ := resolveComponentChain_eq_ok h
  exact registered_of_layers hlayers hterminal

theorem resolveLayers_length (h : self.resolveLayers service callerAuthority = .ok layers) :
    layers.length ≤ (self.layerPolicy service).length := by
  obtain ⟨unsorted,hfold,hsort⟩ := bind_eq_ok.mp h
  cases hsort
  simpa using foldlM_length_le (fun _ _ _ => addLayer_length) hfold

end Chain

/-- No chain of a service has more providers. -/
def chainBound (service : ServiceId) : ℕ := (self.layerPolicy service).length + 1

/-- The services that some plugin is a terminal of. -/
def services : Finset ServiceId :=
  ((self.manifests.values.flatMap (·.services)).filter (·.role = .terminal)).map (·.service)
    |>.toFinset

variable {self} in
theorem mem_services_of_eligible {service : ServiceId} {callerAuthority : Authority}
    {binding : Option PluginId} {terminal : ProviderBinding}
    (h : terminal ∈ self.eligibleTerminals service callerAuthority binding) :
    service ∈ self.services := by
  obtain ⟨manifest,hmanifest,hmem⟩ := mem_flatMap.mp h
  obtain ⟨contribution,hcontribution,-⟩ := mem_map.mp hmem
  obtain ⟨hservices,hfilter⟩ := mem_filter.mp hcontribution
  simp only [Bool.and_eq_true, decide_eq_true_eq] at hfilter
  obtain ⟨⟨⟨hrole,hservice⟩,-⟩,-⟩ := hfilter
  apply mem_toFinset.mpr
  apply mem_map.mpr
  have hlisted := mem_flatMap.mpr ⟨manifest,hmanifest,hservices⟩
  exact ⟨contribution,mem_filter.mpr ⟨hlisted,by simpa using hrole⟩,hservice⟩

/-- The configuration under another number. -/
def renumber (freshIdentity : ℕ) : KernelConfig :=
  { self with policyIdentity := freshIdentity }

theorem new_renumber (n m : ℕ) (manifests : List PluginManifest) :
    new n manifests = (new m manifests).map (renumber · n) := by
  unfold new
  split
  · rfl
  · dsimp only
    split
    · rfl
    · rfl
    · split
      · rfl
      · split <;> rfl

theorem withLayerPolicy_renumber (n m : ℕ) (service : ServiceId) (layers : List LayerPolicy) :
    (self.renumber n).withLayerPolicy n service layers =
      (self.withLayerPolicy m service layers).map (renumber · n) := by
  unfold withLayerPolicy
  cases register (·.plugin) (fun _ => .ok ())
    (fun layer : LayerPolicy => KernelError.duplicateLayerPolicy service layer.plugin) layers
  · rfl
  · rfl

theorem withLayerPolicies_renumber (n m : ℕ) (policies : BTreeMap ServiceId (List LayerPolicy)) :
    (self.renumber n).withLayerPolicies n policies =
      (self.withLayerPolicies m policies).map (renumber · n) := by
  unfold withLayerPolicies
  induction policies.toList generalizing self with
  | nil => rfl
  | cons entry rest ih =>
    rcases entry with ⟨service,layers⟩
    rw [foldlM_cons, foldlM_cons]
    dsimp only
    rw [withLayerPolicy_renumber self n m]
    cases self.withLayerPolicy m service layers with
    | error error => rfl
    | ok config => exact ih config

end KernelConfig
end PhenixConductor.Kernel
