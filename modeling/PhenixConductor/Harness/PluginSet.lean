import PhenixConductor.Harness.Assembly
import PhenixConductor.Harness.Checks
import PhenixConductor.Configuration.Grants

/-! # A change of the plugin set against a full resolution

A change of the plugin set keeps the resources, the layer policies and the configuration of a
resolved harness.
-/
namespace PhenixConductor.Harness
open Collections Contract Component PhenixConductor.Configuration Kernel ResolvedHarness

/-- A harness that was resolved, and later changed, from some contributions under a ceiling.
The generation alone is changed by the metadata of a profile. -/
inductive Resolved (contributions : List ConfigContribution) (settledCeiling : Authority) :
    ResolvedHarness → Prop
  | full {identity freshIdentity plugins components inputs harness} :
    inputs.contributions = contributions →
    resolveWithInputs identity freshIdentity plugins components inputs settledCeiling =
      .ok harness → Resolved contributions settledCeiling harness
  | relabelled {harness} (generation : GraphGenerationId) : Resolved contributions settledCeiling harness →
    Resolved contributions settledCeiling { harness with generation := generation }
  | pluginSet {identity freshIdentity plugins components authorityCeiling previous harness} :
    Resolved contributions settledCeiling previous →
    previous.withPluginSet identity freshIdentity plugins components authorityCeiling = .ok harness →
    Resolved contributions settledCeiling harness

variable {contributions : List ConfigContribution} {settledCeiling authorityCeiling : Authority}
  {identity : SemanticGeneration → GraphGenerationId} {freshIdentity : ℕ}
  {plugins : List PluginManifest} {components : List ComponentManifest}
  {inputs : ResolutionInputs} {configuration : ResolvedConfigContributions}
  {harness harness' : ResolvedHarness}

/-- What holds of a resolved harness for good. -/
structure Settled (contributions : List ConfigContribution) (settledCeiling : Authority)
    (harness : ResolvedHarness) : Prop where
  resources : Selected harness.resources
  sorted : sortLayers harness.layerPolicies = harness.layerPolicies
  layers : ∀ service layers, harness.layerPolicies.get? service = some layers →
    (layers.map (·.plugin)).Nodup
  configuration : ResolvedConfigContributions.tryResolve contributions settledCeiling =
    .ok harness.configuration

/-- The parts that a resolution takes over from its inputs. -/
theorem assemble_keeps (h : assemble identity freshIdentity plugins components inputs configuration
    authorityCeiling = .ok harness) : harness.resources = inputs.resources ∧
      harness.layerPolicies = inputs.layerPolicies ∧ harness.configuration = configuration := by
  obtain ⟨_,_,_,_,-,-,-,-,rfl⟩ := assemble_eq_ok.mp h
  exact ⟨rfl,rfl,rfl⟩

theorem settled_of_resolveWithInputs (h : resolveWithInputs identity freshIdentity
    plugins components inputs settledCeiling = .ok harness) :
    Settled inputs.contributions settledCeiling harness := by
  obtain ⟨resources,configuration,hresources,hlayers,hconfiguration,h⟩ := resolveWithInputs_eq_ok.mp h
  obtain ⟨hresources',hlayers',hconfiguration'⟩ := assemble_keeps h
  constructor
  · rw [hresources']
    exact selected_of_resolveResources hresources
  · rw [hlayers']
    exact sortLayers_idem inputs.layerPolicies
  · intro service layers hget
    rw [hlayers', get?_sortLayers] at hget
    obtain ⟨unsorted,hunsorted,rfl⟩ := Option.map_eq_some_iff.mp hget
    have hnodup := (validateLayerPolicies_eq_ok.mp hlayers service unsorted hunsorted).1
    exact (((sortByKey_perm layerKey unsorted).map _).nodup_iff).mpr hnodup
  · rw [hconfiguration', hconfiguration]

theorem Resolved.settled (h : Resolved contributions settledCeiling harness) :
    Settled contributions settledCeiling harness := by
  induction h with
  | full hcontributions h => exact hcontributions ▸ settled_of_resolveWithInputs h
  | relabelled generation _ ih => exact ⟨ih.resources,ih.sorted,ih.layers,ih.configuration⟩
  | pluginSet _ h ih =>
    rw [withPluginSet_eq _ contributions] at h
    obtain ⟨hresources,hlayers,hconfiguration⟩ := assemble_keeps h
    constructor
    · rw [hresources]
      exact ih.resources
    · rw [hlayers]
      exact ih.sorted
    · rw [hlayers]
      exact ih.layers
    · rw [hconfiguration]
      exact ih.configuration

/-- What a change of the plugin set leaves unchecked. -/
structure StillValid (contributions : List ConfigContribution) (settledCeiling : Authority)
    (harness : ResolvedHarness) (plugins : List PluginManifest)
    (components : List ComponentManifest) (authorityCeiling : Authority) : Prop where
  resources : ∀ resource ∈ harness.resources, RequirementsMet components authorityCeiling resource
  layers : ∀ service layers, harness.layerPolicies.get? service = some layers →
    ∀ layer ∈ layers, LayerMet plugins authorityCeiling service layer
  grants : GrantsKept contributions authorityCeiling settledCeiling

/-- The full resolution makes the same harness, but for the configuration. -/
theorem Settled.resolveWithInputs_eq_ok (h : Settled contributions settledCeiling harness) :
    resolveWithInputs identity freshIdentity plugins components
        (harness.inputs contributions) authorityCeiling = .ok harness' ↔
      (∀ resource ∈ harness.resources, RequirementsMet components authorityCeiling resource) ∧
      (∀ service layers, harness.layerPolicies.get? service = some layers →
        ∀ layer ∈ layers, LayerMet plugins authorityCeiling service layer) ∧
      ∃ configuration,
        ResolvedConfigContributions.tryResolve contributions authorityCeiling = .ok configuration ∧
        assemble identity freshIdentity (sortByKey (·.id) plugins) (sortByKey (·.id) components)
          (harness.inputs contributions) configuration authorityCeiling = .ok harness' := by
  have hplugins := sortByKey_perm (·.id) plugins
  have hcomponents := sortByKey_perm (·.id) components
  rw [Harness.resolveWithInputs_eq_ok]
  constructor
  · rintro ⟨resources,configuration,hresources,hlayers,hconfiguration,hassemble⟩
    obtain ⟨rfl,hrequirements⟩ := h.resources.resolveResources_eq_ok.mp hresources
    refine ⟨fun resource hresource => ?_,fun service layers hget layer hlayer => ?_,configuration,
      hconfiguration,?_⟩
    · exact (requirementsMet_perm hcomponents).mp (hrequirements resource hresource)
    · exact (layerMet_perm hplugins).mp
        ((validateLayerPolicies_eq_ok.mp hlayers service layers hget).2 layer hlayer)
    · have hsorted : sortLayers (harness.inputs contributions).layerPolicies =
          (harness.inputs contributions).layerPolicies := h.sorted
      rw [hsorted] at hassemble
      exact hassemble
  · rintro ⟨hrequirements,hlayers,configuration,hconfiguration,hassemble⟩
    refine ⟨harness.resources,configuration,?_,?_,hconfiguration,?_⟩
    · exact h.resources.resolveResources_eq_ok.mpr ⟨rfl,fun resource hresource =>
        (requirementsMet_perm hcomponents).mpr (hrequirements resource hresource)⟩
    · exact validateLayerPolicies_eq_ok.mpr fun service layers hget => ⟨h.layers service layers hget,
        fun layer hlayer => (layerMet_perm hplugins).mpr (hlayers service layers hget layer hlayer)⟩
    · have hsorted : sortLayers (harness.inputs contributions).layerPolicies =
          (harness.inputs contributions).layerPolicies := h.sorted
      rw [hsorted]
      exact hassemble

/-- What a resolution is assembled to under another digest, another number and another
configuration. -/
theorem exists_assemble (h : assemble identity freshIdentity plugins components inputs configuration
    authorityCeiling = .ok harness) : ∃ payload : List ConfigurationPayload → SemanticGeneration,
      (∀ configuration, (payload configuration).configuration = configuration) ∧
      ∀ digest freshIdentity' configuration', ∃ harness',
        assemble digest freshIdentity' plugins components inputs configuration' authorityCeiling =
          .ok harness' ∧ harness'.generation = digest (payload (semanticPayload configuration')) ∧
            harness'.componentGraph = harness.componentGraph := by
  obtain ⟨kernelConfig,kernelConfig',durableSchemas,graph,hnew,hlayers,hschemas,hgraph,rfl⟩ :=
    assemble_eq_ok.mp h
  refine ⟨fun payload =>
    { plugins := plugins
      components := components
      durableSchemas := durableSchemas
      resources := inputs.resources
      configuration := payload
      layerPolicies := inputs.layerPolicies
      providerPolicy := inputs.providerPolicy
      authorityCeiling := authorityCeiling },fun _ => rfl,?_⟩
  intro digest freshIdentity' configuration'
  have hnew' : KernelConfig.new freshIdentity' plugins = .ok (kernelConfig.renumber freshIdentity') := by
    rw [KernelConfig.new_renumber freshIdentity' freshIdentity, hnew]
    rfl
  have hlayers' : (kernelConfig.renumber freshIdentity').withLayerPolicies freshIdentity'
      inputs.layerPolicies = .ok (kernelConfig'.renumber freshIdentity') := by
    rw [KernelConfig.withLayerPolicies_renumber kernelConfig freshIdentity' freshIdentity, hlayers]
    rfl
  exact ⟨_,assemble_eq_ok.mpr ⟨_,_,durableSchemas,graph,hnew',hlayers',hschemas,hgraph,rfl⟩,rfl,rfl⟩

/-- A change of the plugin set that succeeds is what the full resolution of the same plugins and
components with the inputs of the harness makes. The kernel configurations may be numbered
differently. -/
def AgreesWithResolution (identity : SemanticGeneration → GraphGenerationId)
    (freshIdentity freshIdentity' : ℕ) (contributions : List ConfigContribution)
    (harness : ResolvedHarness) (plugins : List PluginManifest)
    (components : List ComponentManifest) (authorityCeiling : Authority) : Prop :=
  ∀ candidate,
    harness.withPluginSet identity freshIdentity plugins components authorityCeiling = .ok candidate →
    ∃ full, resolveWithInputs identity freshIdentity' plugins components
      (harness.inputs contributions) authorityCeiling = .ok full ∧
      full.generation = candidate.generation ∧ full.componentGraph = candidate.componentGraph

theorem Settled.agrees (h : Settled contributions settledCeiling harness)
    (hvalid : StillValid contributions settledCeiling harness plugins components authorityCeiling)
    (freshIdentity' : ℕ) : AgreesWithResolution identity freshIdentity freshIdentity' contributions
      harness plugins components authorityCeiling := by
  intro candidate hcandidate
  rw [withPluginSet_eq harness contributions] at hcandidate
  obtain ⟨payload,-,hassemble⟩ := exists_assemble hcandidate
  obtain ⟨again,hagain,hgeneration,hgraph⟩ := hassemble identity freshIdentity harness.configuration
  obtain rfl : candidate = again := Except.ok.inj (hcandidate.symm.trans hagain)
  obtain ⟨full,hfull,hgeneration',hgraph'⟩ := hassemble identity freshIdentity' harness.configuration
  refine ⟨full,h.resolveWithInputs_eq_ok.mpr ⟨hvalid.resources,hvalid.layers,harness.configuration,?_,
    hfull⟩,hgeneration'.trans hgeneration.symm,hgraph'.trans hgraph.symm⟩
  rw [tryResolve_of_grantsKept hvalid.grants]
  exact h.configuration

/-- The names and grants that a payload holds. -/
def payloadAuthorities (payload : List ConfigurationPayload) : List (ConfigNamespace × ℕ × Authority) :=
  payload.map fun entry => (entry.namespc,entry.contractVersion,entry.grantedAuthority)

theorem payloadAuthorities_semanticPayload (configuration : ResolvedConfigContributions) :
    payloadAuthorities (semanticPayload configuration) = grantedAuthorities configuration := by
  rw [payloadAuthorities, semanticPayload, List.map_map]
  rfl

theorem Settled.stillValid (h : Settled contributions settledCeiling harness)
    (hok : harness.withPluginSet identity freshIdentity plugins components authorityCeiling =
      .ok harness') {freshIdentity' : ℕ}
    (hagrees : ∀ digest, AgreesWithResolution digest freshIdentity freshIdentity' contributions harness
      plugins components authorityCeiling) :
    StillValid contributions settledCeiling harness plugins components authorityCeiling := by
  rw [withPluginSet_eq harness contributions] at hok
  obtain ⟨payload,hpayload,hassemble⟩ := exists_assemble hok
  -- a digest that tells the grants of the kept configuration from all others
  let digest : SemanticGeneration → GraphGenerationId := fun generation =>
    if payloadAuthorities generation.configuration = grantedAuthorities harness.configuration then
      ⟨"kept"⟩ else ⟨"changed"⟩
  obtain ⟨candidate,hcandidate,hgeneration,-⟩ := hassemble digest freshIdentity harness.configuration
  obtain ⟨full,hfull,hsame,-⟩ := hagrees digest candidate
    ((withPluginSet_eq harness contributions).trans hcandidate)
  obtain ⟨hrequirements,hlayers,configuration,hconfiguration,hfull⟩ := h.resolveWithInputs_eq_ok.mp hfull
  obtain ⟨again,hagain,hgeneration',-⟩ := hassemble digest freshIdentity' configuration
  obtain rfl : full = again := Except.ok.inj (hfull.symm.trans hagain)
  refine ⟨hrequirements,hlayers,(grantsKept_iff h.configuration).mpr ⟨configuration,hconfiguration,?_⟩⟩
  by_contra hchanged
  rw [hgeneration, hgeneration'] at hsame
  simp [digest, hpayload, payloadAuthorities_semanticPayload, hchanged] at hsame

/-- A change of the plugin set agrees with the full resolution, whatever the digest, exactly when
what it leaves unchecked is still valid. -/
theorem withPluginSet_agrees_iff (h : Resolved contributions settledCeiling harness)
    (hok : harness.withPluginSet identity freshIdentity plugins components authorityCeiling =
      .ok harness') (freshIdentity' : ℕ) :
    (∀ digest, AgreesWithResolution digest freshIdentity freshIdentity' contributions harness plugins
      components authorityCeiling) ↔
      StillValid contributions settledCeiling harness plugins components authorityCeiling := by
  constructor
  · exact h.settled.stillValid hok
  · exact fun hvalid digest => h.settled.agrees hvalid freshIdentity'

/-! ### An export that a resource requires is removed -/

def demoDigest (_ : SemanticGeneration) : GraphGenerationId := ⟨"sha256:demo"⟩

/-- A resource that requires the storage. -/
def reader : SkillResourceMetadata where
  identity := "reader"
  version := 1
  contentIdentity := "sha256:reader"
  dependencies := .empty
  conflicts := .empty
  triggers := .empty
  scope := "workspace"
  priority := 0
  requiredTools := .empty
  requiredInterfaces := .insert .empty storage ()
  requiredCapabilities := .empty
  compatibility := ⟨1,none⟩
  invalidationTargets := .empty
  reloadPolicy := .retain

/-- A graph of at most the disk passes the checks. -/
theorem exists_diskGraph (components : List ComponentManifest)
    (h : components = [] ∨ components = [demoComponent disk [] [storage]]) : ∃ graph,
      uncheckedGraph [demoPlugin] components (.new []) ⟨.empty⟩ = some graph ∧
        Descends (fun _ => 0) graph ∧ graph.listeners = [] := by
  have hrun : ∀ components ∈ [[],[demoComponent disk [] [storage]]],
      (match uncheckedGraph [demoPlugin] components (.new []) ⟨.empty⟩ with
      | some graph => decide (Descends (fun _ => 0) graph) && graph.listeners.isEmpty
      | none => false) = true := by decide +kernel
  have hsome := hrun components (by simpa using h)
  split at hsome
  · next graph hgraph =>
    rw [Bool.and_eq_true, decide_eq_true_eq, List.isEmpty_iff] at hsome
    exact ⟨graph,hgraph,hsome⟩
  · cases hsome

theorem resolveResources_reader : resolveResources [demoComponent disk [] [storage]] (.new [])
    [reader] = .ok [reader] := by
  have hsome : (resolveResources [demoComponent disk [] [storage]] (.new []) [reader]).toOption =
      some [reader] := by decide +kernel
  exact toOption_eq_some.mp hsome

/-- Without durable schemas, the inputs of a harness are what it was resolved from. -/
theorem inputs_of_assemble (h : assemble identity freshIdentity plugins components inputs configuration
    authorityCeiling = .ok harness) (hnone : inputs.durableSchemas = []) :
    harness.inputs contributions = { inputs with contributions := contributions } := by
  obtain ⟨_,_,durableSchemas,_,-,-,hschemas,-,rfl⟩ := assemble_eq_ok.mp h
  rw [hnone] at hschemas
  have hempty : [] = durableSchemas := Except.ok.inj hschemas
  rw [ResolvedHarness.inputs, ← hempty, hnone]

theorem sortLayers_empty : sortLayers .empty = .empty := by
  ext service layers
  rw [get?_sortLayers]
  simp

theorem exists_diskHarness : ∃ harness,
    demoResolve [reader] [demoComponent disk [] [storage]] = .ok harness ∧
      harness.inputs [] = demoInputs [reader] := by
  obtain ⟨graph,hgraph,hrank,hlisteners⟩ := exists_diskGraph _ (.inr rfl)
  have hexists : ∃ harness, demoResolve [reader] [demoComponent disk [] [storage]] = .ok harness ∧ _ :=
    exists_demoResolve resolveResources_reader hgraph hrank hlisteners
  obtain ⟨harness,hharness,-⟩ := hexists
  obtain ⟨resources,configuration,hresources,-,-,hassemble⟩ := resolveWithInputs_eq_ok.mp hharness
  have hsame : [reader] = resources := Except.ok.inj (resolveResources_reader.symm.trans hresources)
  subst hsame
  refine ⟨harness,hharness,(inputs_of_assemble hassemble rfl).trans ?_⟩
  rw [demoInputs, sortLayers_empty]

/-- A change to at most the disk succeeds. -/
theorem exists_candidate (hinputs : harness.inputs [] = demoInputs [reader])
    (hcomponents : components = [] ∨ components = [demoComponent disk [] [storage]]) :
    ∃ candidate, harness.withPluginSet demoDigest 0 [demoPlugin] components (.new []) =
      .ok candidate ∧ candidate.resources = [reader] ∧ candidate.components = components := by
  obtain ⟨kernelConfig,hnew⟩ := exists_demoKernelConfig
  obtain ⟨graph,hgraph,hrank,hlisteners⟩ := exists_diskGraph components hcomponents
  have hcompile := compile_of_descends hgraph hrank hlisteners
  have hsorted : sortByKey (·.id) components = components := by
    rcases hcomponents with rfl | rfl <;> rfl
  rw [withPluginSet_eq harness [], hinputs, hsorted]
  exact ⟨_,assemble_eq_ok.mpr ⟨kernelConfig,kernelConfig,[],graph,hnew,rfl,rfl,hcompile,rfl⟩,rfl,rfl⟩

/-- Unloading the disk succeeds and leaves the resource without what it requires, though a full
resolution is refused. -/
theorem removed_export_unchecked : ∃ harness candidate,
    demoResolve [reader] [demoComponent disk [] [storage]] = .ok harness ∧
    harness.withPluginSet demoDigest 0 [demoPlugin] [] (.new []) = .ok candidate ∧
    (∃ resource ∈ candidate.resources, ∃ interface ∈ resource.requiredInterfaces.keys,
      ∀ component ∈ candidate.components, ∀ exported ∈ component.exports,
        exported.interface ≠ interface) ∧
    ∀ freshIdentity full, resolveWithInputs demoDigest freshIdentity [demoPlugin] []
      (harness.inputs []) (.new []) ≠ .ok full := by
  obtain ⟨harness,hharness,hinputs⟩ := exists_diskHarness
  have hresolved : Resolved [] (.new []) harness := .full rfl hharness
  have hresources : harness.resources = [reader] := congrArg ResolutionInputs.resources hinputs
  obtain ⟨candidate,hcandidate,hkept,hcomponents⟩ := exists_candidate hinputs (.inl rfl)
  have hstorage : storage ∈ reader.requiredInterfaces.keys := by decide
  refine ⟨harness,candidate,hharness,hcandidate,⟨reader,by simp [hkept],storage,hstorage,?_⟩,?_⟩
  · simp [hcomponents]
  · intro freshIdentity full hfull
    have hmet := (hresolved.settled.resolveWithInputs_eq_ok.mp hfull).1 reader (by simp [hresources])
    obtain ⟨_,hmem,-⟩ := hmet.1 storage hstorage
    cases hmem

/-- Where the disk stays, the change agrees with the full resolution. -/
theorem kept_export_agrees : ∃ harness,
    demoResolve [reader] [demoComponent disk [] [storage]] = .ok harness ∧
      ∀ digest, AgreesWithResolution digest 0 1 [] harness [demoPlugin]
        [demoComponent disk [] [storage]] (.new []) := by
  obtain ⟨harness,hharness,hinputs⟩ := exists_diskHarness
  have hresolved : Resolved [] (.new []) harness := .full rfl hharness
  have hresources : harness.resources = [reader] := congrArg ResolutionInputs.resources hinputs
  obtain ⟨candidate,hcandidate,-⟩ := exists_candidate hinputs (.inr rfl)
  refine ⟨harness,hharness,(withPluginSet_agrees_iff hresolved hcandidate 1).mpr ⟨?_,?_,?_⟩⟩
  · intro resource hresource
    rw [hresources, List.mem_singleton] at hresource
    subst hresource
    exact checkRequirements_eq_ok.mp rfl
  · intro service layers hget
    have hnone : harness.layerPolicies = .empty := congrArg ResolutionInputs.layerPolicies hinputs
    simp [hnone] at hget
  · rintro c ⟨hc,-⟩
    cases hc

end PhenixConductor.Harness
