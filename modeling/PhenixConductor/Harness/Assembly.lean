import PhenixConductor.Harness.Resolver
import PhenixConductor.Component.OrderIndependence

/-! # The common end of the two resolutions

A full resolution and a change of the plugin set end alike.
-/
namespace PhenixConductor.Harness
open Collections Contract Component PhenixConductor.Configuration Kernel ResolvedComponentGraph

/-- What both resolutions do with sorted manifests. -/
def assemble (identity : SemanticGeneration → GraphGenerationId) (freshIdentity : ℕ)
    (plugins : List PluginManifest) (components : List ComponentManifest)
    (inputs : ResolutionInputs) (configuration : ResolvedConfigContributions)
    (authorityCeiling : Authority) : Except ResolvedHarnessError ResolvedHarness := do
  let kernelConfig ← (KernelConfig.new freshIdentity plugins).mapError .kernel
  let kernelConfig ←
    (kernelConfig.withLayerPolicies freshIdentity inputs.layerPolicies).mapError .kernel
  let durableSchemas ← resolveDurableSchemas inputs.durableSchemas kernelConfig
  let componentGraph ← (compileWithProviderPolicy plugins components
    authorityCeiling inputs.providerPolicy).mapError .componentGraph
  .ok
    { generation := identity
        { plugins := plugins
          components := components
          durableSchemas := durableSchemas
          resources := inputs.resources
          configuration := semanticPayload configuration
          layerPolicies := inputs.layerPolicies
          providerPolicy := inputs.providerPolicy
          authorityCeiling := authorityCeiling }
      plugins := plugins
      components := components
      durableSchemas := durableSchemas
      resources := inputs.resources
      configuration := configuration
      kernelConfig := kernelConfig
      componentGraph := componentGraph
      layerPolicies := inputs.layerPolicies
      providerPolicy := inputs.providerPolicy }

/-- The inputs that a resolved harness would be resolved from again. -/
def ResolvedHarness.inputs (self : ResolvedHarness) (contributions : List ConfigContribution) :
    ResolutionInputs where
  durableSchemas := self.durableSchemas
  resources := self.resources
  contributions := contributions
  layerPolicies := self.layerPolicies
  providerPolicy := self.providerPolicy

section Resolutions
variable {identity : SemanticGeneration → GraphGenerationId} {freshIdentity : ℕ}
  {plugins : List PluginManifest} {components : List ComponentManifest}
  {inputs : ResolutionInputs} {authorityCeiling : Authority} {harness : ResolvedHarness}

theorem resolveWithInputs_eq_ok :
    ResolvedHarness.resolveWithInputs identity freshIdentity plugins components inputs
        authorityCeiling = .ok harness ↔
      ∃ resources configuration,
        resolveResources (sortByKey (·.id) components) authorityCeiling inputs.resources =
          .ok resources ∧
        validateLayerPolicies (sortByKey (·.id) plugins) authorityCeiling inputs.layerPolicies =
          .ok () ∧
        ResolvedConfigContributions.tryResolve inputs.contributions authorityCeiling =
          .ok configuration ∧
        assemble identity freshIdentity (sortByKey (·.id) plugins) (sortByKey (·.id) components)
          { inputs with resources := resources, layerPolicies := sortLayers inputs.layerPolicies }
          configuration authorityCeiling = .ok harness := by
  rw [ResolvedHarness.resolveWithInputs, bind_eq_ok]
  apply exists_congr
  intro resources
  rw [seq_eq_ok, bind_eq_ok]
  simp only [mapError_eq_ok]
  constructor
  · rintro ⟨hresources,hlayers,configuration,hconfiguration,h⟩
    exact ⟨configuration,hresources,hlayers,hconfiguration,h⟩
  · rintro ⟨configuration,hresources,hlayers,hconfiguration,h⟩
    exact ⟨hresources,hlayers,configuration,hconfiguration,h⟩

theorem withPluginSet_eq (self : ResolvedHarness) (contributions : List ConfigContribution) :
    self.withPluginSet identity freshIdentity plugins components authorityCeiling =
      assemble identity freshIdentity (sortByKey (·.id) plugins) (sortByKey (·.id) components)
        (self.inputs contributions) self.configuration authorityCeiling := rfl

theorem assemble_eq_ok {configuration : ResolvedConfigContributions} :
    assemble identity freshIdentity plugins components inputs configuration authorityCeiling =
        .ok harness ↔
      ∃ kernelConfig kernelConfig' durableSchemas componentGraph,
        KernelConfig.new freshIdentity plugins = .ok kernelConfig ∧
        kernelConfig.withLayerPolicies freshIdentity inputs.layerPolicies = .ok kernelConfig' ∧
        resolveDurableSchemas inputs.durableSchemas kernelConfig' = .ok durableSchemas ∧
        compileWithProviderPolicy plugins components authorityCeiling
          inputs.providerPolicy = .ok componentGraph ∧
        harness =
          { generation := identity
              { plugins := plugins
                components := components
                durableSchemas := durableSchemas
                resources := inputs.resources
                configuration := semanticPayload configuration
                layerPolicies := inputs.layerPolicies
                providerPolicy := inputs.providerPolicy
                authorityCeiling := authorityCeiling }
            plugins := plugins
            components := components
            durableSchemas := durableSchemas
            resources := inputs.resources
            configuration := configuration
            kernelConfig := kernelConfig'
            componentGraph := componentGraph
            layerPolicies := inputs.layerPolicies
            providerPolicy := inputs.providerPolicy } := by
  rw [assemble, bind_eq_ok]
  apply exists_congr
  intro kernelConfig
  rw [mapError_eq_ok, bind_eq_ok]
  constructor
  · rintro ⟨hnew,kernelConfig',hlayers,h⟩
    obtain ⟨durableSchemas,hschemas,h⟩ := bind_eq_ok.mp h
    obtain ⟨componentGraph,hgraph,h⟩ := bind_eq_ok.mp h
    cases h
    exact ⟨kernelConfig',durableSchemas,componentGraph,hnew,mapError_eq_ok.mp hlayers,hschemas,
      mapError_eq_ok.mp hgraph,rfl⟩
  · rintro ⟨kernelConfig',durableSchemas,componentGraph,hnew,hlayers,hschemas,hgraph,rfl⟩
    refine ⟨hnew,kernelConfig',mapError_eq_ok.mpr hlayers,bind_eq_ok.mpr ⟨durableSchemas,hschemas,?_⟩⟩
    exact bind_eq_ok.mpr ⟨componentGraph,mapError_eq_ok.mpr hgraph,rfl⟩

end Resolutions

/-- The graph that is compiled if it passes the checks. -/
def uncheckedGraph (plugins : List PluginManifest) (components : List ComponentManifest)
    (authorityCeiling : Authority) (policy : ProviderCompositionPolicy) :
    Option ResolvedComponentGraph := do
  let composition ← (Composition.of plugins components).toOption
  (composition.resolveAll authorityCeiling (some policy)).toOption

/-- The required imports of a graph descend in a rank. -/
def Descends (rank : ComponentId → ℕ) (graph : ResolvedComponentGraph) : Prop :=
  ∀ entry ∈ graph.components.toList, ∀ exporter ∈ entry.2.requiredExporters,
    rank exporter < rank entry.1

instance (rank : ComponentId → ℕ) (graph : ResolvedComponentGraph) :
    Decidable (Descends rank graph) :=
  inferInstanceAs (Decidable (∀ entry ∈ graph.components.toList,
    ∀ exporter ∈ entry.2.requiredExporters, rank exporter < rank entry.1))

variable {components : List ComponentManifest}

/-- A graph with a rank and without listeners passes the checks. -/
theorem compile_of_descends {rank : ComponentId → ℕ} {plugins : List PluginManifest}
    {authorityCeiling : Authority} {policy : ProviderCompositionPolicy}
    {graph : ResolvedComponentGraph}
    (h : uncheckedGraph plugins components authorityCeiling policy = some graph)
    (hrank : Descends rank graph) (hlisteners : graph.listeners = []) :
    compileWithProviderPolicy plugins components authorityCeiling policy =
      .ok graph := by
  obtain ⟨composition,hof,hresolve⟩ := Option.bind_eq_some_iff.mp h
  rw [toOption_eq_some] at hof hresolve
  apply compileInner_eq_ok.mpr
  refine ⟨composition,hof,hresolve,?_,?_⟩
  · apply acyclic_of_rank rank
    intro a b hab
    obtain ⟨resolved,hget,hexporter⟩ := requiredEdge_iff.mp hab
    exact hrank (a,resolved) (graph.components.mem_toList.mpr hget) b hexporter
  · rw [subscriptions, hlisteners]
    rfl

/-! ### Harnesses of one plugin -/

def demoInputs (resources : List SkillResourceMetadata) : ResolutionInputs where
  durableSchemas := []
  resources := resources
  contributions := []
  layerPolicies := .empty
  providerPolicy := ⟨.empty⟩

/-- The resolution of some resources and components of one plugin. -/
def demoResolve (resources : List SkillResourceMetadata) (components : List ComponentManifest) :
    Except ResolvedHarnessError ResolvedHarness :=
  ResolvedHarness.resolveWithInputs (fun _ => ⟨"sha256:demo"⟩) 0 [demoPlugin] components
    (demoInputs resources) (.new [])

/-- A component that requires some interfaces and provides others. -/
def demoComponent (id : ComponentId) (imports exports : List InterfaceId) : ComponentManifest where
  id := id
  owner := demoPlugin.id
  imports := imports.map fun interface => ⟨interface,.default,true,.new []⟩
  exports := exports.map fun interface => ⟨interface,.default,0,.new []⟩
  listeners := []
  maximumAuthority := .new []

def storage : InterfaceId := ⟨"phenix.storage@1",by decide⟩
def disk : ComponentId := ⟨"disk",by decide⟩

theorem exists_demoKernelConfig : ∃ kernelConfig, KernelConfig.new 0 [demoPlugin] = .ok kernelConfig := by
  have hsome : (KernelConfig.new 0 [demoPlugin]).toOption.isSome = true := by decide +kernel
  obtain ⟨kernelConfig,hkernel⟩ := Option.isSome_iff_exists.mp hsome
  exact ⟨kernelConfig,toOption_eq_some.mp hkernel⟩

theorem exists_demoResolve {rank : ComponentId → ℕ} {resources : List SkillResourceMetadata}
    {graph : ResolvedComponentGraph}
    (hresources : resolveResources (sortByKey (·.id) components) (.new []) resources = .ok resources)
    (h : uncheckedGraph [demoPlugin] (sortByKey (·.id) components) (.new []) ⟨.empty⟩ = some graph)
    (hrank : Descends rank graph) (hlisteners : graph.listeners = []) :
    ∃ harness, demoResolve resources components = .ok harness ∧
      harness.components = sortByKey (·.id) components ∧ harness.componentGraph = graph := by
  obtain ⟨kernelConfig,hnew⟩ := exists_demoKernelConfig
  have hcompile := compile_of_descends h hrank hlisteners
  refine ⟨_,resolveWithInputs_eq_ok.mpr ⟨resources,⟨[]⟩,hresources,rfl,rfl,assemble_eq_ok.mpr
    ⟨kernelConfig,kernelConfig,[],graph,hnew,rfl,rfl,hcompile,rfl⟩⟩,?_,?_⟩
  · rfl
  · rfl

end PhenixConductor.Harness
