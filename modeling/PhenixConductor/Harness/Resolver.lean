import PhenixConductor.Kernel.Config
import PhenixConductor.Component.Graph
import PhenixConductor.Configuration.Contribution

/-! # Skill and resource metadata

A resource names the resources that it depends on or conflicts with, the interfaces
and the capabilities that it requires, and what becomes invalid when it changes.
-/
namespace PhenixConductor.Harness
open Collections Contract

/-- The kernel is at version one. -/
def kernelCompatibilityVersion : ℕ := 1

inductive ReloadPolicy where
  | retain | restart | drainAndRestart | migrationRequired
  deriving DecidableEq

structure CompatibilityMetadata where
  minimumKernelVersion : ℕ
  maximumKernelVersion : Option ℕ
  deriving DecidableEq

structure SkillResourceMetadata where
  identity : String
  version : ℕ
  contentIdentity : String
  dependencies : BTreeSet String
  conflicts : BTreeSet String
  triggers : BTreeSet String
  scope : String
  priority : ℤ
  requiredTools : BTreeSet CallableId
  requiredInterfaces : BTreeSet InterfaceId
  requiredCapabilities : BTreeSet CapabilityId
  compatibility : CompatibilityMetadata
  invalidationTargets : BTreeSet String
  reloadPolicy : ReloadPolicy
  deriving DecidableEq

inductive CompositionMetadataError where
  | zeroVersion
  | invalidCompatibilityRange
  | incompatibleKernelVersion (current minimum : ℕ) (maximum : Option ℕ)
  | missingIdentity
  | missingContentIdentity
  | missingScope
  | emptyDependency
  | emptyConflict
  | emptyTrigger
  | emptyInvalidationTarget
  | dependencyConflict (resource : String)

def CompatibilityMetadata.validate (self : CompatibilityMetadata) :
    Except CompositionMetadataError Unit :=
  if self.minimumKernelVersion = 0 then .error .zeroVersion
  else if self.maximumKernelVersion.any (· < self.minimumKernelVersion) then
    .error .invalidCompatibilityRange
  else if kernelCompatibilityVersion < self.minimumKernelVersion ||
      self.maximumKernelVersion.any (kernelCompatibilityVersion > ·) then
    .error (.incompatibleKernelVersion kernelCompatibilityVersion self.minimumKernelVersion
      self.maximumKernelVersion)
  else .ok ()

def SkillResourceMetadata.validatePreActivation (self : SkillResourceMetadata) :
    Except CompositionMetadataError Unit := do
  if self.identity.isEmpty then throw .missingIdentity
  if self.version = 0 then throw .zeroVersion
  self.compatibility.validate
  if self.contentIdentity.isEmpty then throw .missingContentIdentity
  if self.scope.isEmpty then throw .missingScope
  if self.dependencies.keys.any (·.isEmpty) then throw .emptyDependency
  if self.conflicts.keys.any (·.isEmpty) then throw .emptyConflict
  if self.triggers.keys.any (·.isEmpty) then throw .emptyTrigger
  if self.invalidationTargets.keys.any (·.isEmpty) then throw .emptyInvalidationTarget
  match self.dependencies.keys.find? (· ∈ self.conflicts.keys) with
  | some conflict => throw (.dependencyConflict conflict)
  | none => return ()

end PhenixConductor.Harness

/-! ## The resolved harness

A full resolution checks the resources, the layer policies, the configuration and
the durable schemas against the plugins and components, compiles the component
graph, and names the result by a digest of all that it was made from. A change of
the plugin set starts from a resolved harness and repeats a part of this.
-/
namespace PhenixConductor.Harness
open Collections Contract Component PhenixConductor.Configuration Kernel

inductive BackendFeature where
  | transactions | uniqueKeys | foreignKeys | orderedAppend | indexedRange | migrations
  deriving DecidableEq

inductive TransactionOp where
  | put (key : String) (value : List UInt8)
  | delete (key : String)
  | assertValue (key : String) (expected : Option (List UInt8))

structure SchemaMigration where
  fromVersion : ℕ
  toVersion : ℕ
  operations : List TransactionOp

/-- `requiredFeatures` is a set in the order of the features. -/
structure DurableSchema where
  namespc : ResourceNamespace
  version : ℕ
  requiredFeatures : List BackendFeature

structure DurableSchemaRegistration where
  owner : PluginId
  schema : DurableSchema
  migrations : List SchemaMigration

inductive ResolvedHarnessError where
  | componentGraph (error : ComponentGraphError)
  | kernel (error : KernelError)
  | compositionMetadata (resource : String) (error : CompositionMetadataError)
  | configurationMerge (error : ConfigMergeError)
  | duplicateResource (resource : String)
  | duplicateDurableSchema (namespc : ResourceNamespace)
  | undeclaredDurableSchema (plugin : PluginId) (namespc : ResourceNamespace)
  | durableSchemaOwnerMismatch (plugin : PluginId) (namespc : ResourceNamespace) (owner : PluginId)
  | missingResourceDependency (resource dependency : String)
  | resourceConflict (resource conflict : String)
  | resourceInterfaceUnavailable (resource : String) (interface : InterfaceId)
  | resourceAuthorityDenied (resource : String) (capability : CapabilityId)
  | duplicateLayerPolicy (service : ServiceId) (plugin : PluginId)
  | requiredLayerUnavailable (service : ServiceId) (plugin : PluginId)

abbrev LayerPolicies := BTreeMap ServiceId (List LayerPolicy)

structure ResolvedHarness where
  generation : GraphGenerationId
  plugins : List PluginManifest
  components : List ComponentManifest
  durableSchemas : List DurableSchemaRegistration
  resources : List SkillResourceMetadata
  configuration : ResolvedConfigContributions
  kernelConfig : KernelConfig
  componentGraph : ResolvedComponentGraph
  layerPolicies : LayerPolicies
  providerPolicy : ProviderCompositionPolicy

structure ResolutionInputs where
  durableSchemas : List DurableSchemaRegistration
  resources : List SkillResourceMetadata
  contributions : List ConfigContribution
  layerPolicies : LayerPolicies
  providerPolicy : ProviderCompositionPolicy

/-- The `semantic_payload` of an entry, which leaves out who contributed it. -/
structure ConfigurationPayload where
  namespc : ConfigNamespace
  contractVersion : ℕ
  value : PhenixValue
  grantedAuthority : Authority

def semanticPayload (configuration : ResolvedConfigContributions) : List ConfigurationPayload :=
  configuration.entries.map fun entry =>
    ⟨entry.namespc,entry.contractVersion,entry.value,entry.grantedAuthority⟩

/-- All that a generation is named by. -/
structure SemanticGeneration where
  plugins : List PluginManifest
  components : List ComponentManifest
  durableSchemas : List DurableSchemaRegistration
  resources : List SkillResourceMetadata
  configuration : List ConfigurationPayload
  layerPolicies : LayerPolicies
  providerPolicy : ProviderCompositionPolicy
  authorityCeiling : Authority

/-- An error for what a search has found. -/
def refuse {α ε : Type} (error : α → ε) : Option α → Except ε Unit
  | some a => .error (error a)
  | none => .ok ()

section Resources
variable (components : List ComponentManifest) (authorityCeiling : Authority)

def selectResources (resources : List SkillResourceMetadata) :
    Except ResolvedHarnessError (BTreeMap String SkillResourceMetadata) :=
  register (·.identity)
    (fun resource => resource.validatePreActivation.mapError (.compositionMetadata resource.identity))
    (fun resource => .duplicateResource resource.identity) resources

def exportedInterfaces : BTreeSet InterfaceId :=
  BTreeSet.collect (components.flatMap fun component => component.exports.map (·.interface))

/-- What `resolve_resources` asks of the other resources. -/
def checkRelations (selected : BTreeMap String SkillResourceMetadata)
    (resource : SkillResourceMetadata) : Except ResolvedHarnessError Unit := do
  refuse (.missingResourceDependency resource.identity)
    (resource.dependencies.keys.find? (· ∉ selected.keys))
  refuse (.resourceConflict resource.identity) (resource.conflicts.keys.find? (· ∈ selected.keys))

/-- What `resolve_resources` asks of the components and of the ceiling. -/
def checkRequirements (resource : SkillResourceMetadata) : Except ResolvedHarnessError Unit := do
  refuse (.resourceInterfaceUnavailable resource.identity)
    (resource.requiredInterfaces.keys.find? (· ∉ (exportedInterfaces components).keys))
  refuse (.resourceAuthorityDenied resource.identity)
    (resource.requiredCapabilities.keys.find? fun capability => !authorityCeiling.permits capability)

def resolveResources (resources : List SkillResourceMetadata) :
    Except ResolvedHarnessError (List SkillResourceMetadata) := do
  let selected ← selectResources resources
  selected.values.forM fun resource => do
    checkRelations selected resource
    checkRequirements components authorityCeiling resource
  .ok selected.values

end Resources

section Layers
variable (plugins : List PluginManifest) (authorityCeiling : Authority)

/-- A plugin provides a layer of the service that the ceiling allows. -/
def layerAvailable (service : ServiceId) (plugin : PluginId) : Bool :=
  plugins.any fun manifest => manifest.id = plugin && manifest.services.any fun contribution =>
    contribution.service = service && contribution.role = .layer &&
      authorityCeiling.permitsAll contribution.requiredAuthority

/-- One turn of the inner loop of `validate_layer_policies`. -/
def validateLayer (service : ServiceId) (seen : BTreeSet PluginId) (layer : LayerPolicy) :
    Except ResolvedHarnessError (BTreeSet PluginId) :=
  if layer.plugin ∈ seen.keys then .error (.duplicateLayerPolicy service layer.plugin)
  else if !(layer.enabled && layer.required) then .ok (seen.insert layer.plugin ())
  else if layerAvailable plugins authorityCeiling service layer.plugin then
    .ok (seen.insert layer.plugin ())
  else .error (.requiredLayerUnavailable service layer.plugin)

def validateLayerPolicies (layerPolicies : LayerPolicies) : Except ResolvedHarnessError Unit :=
  layerPolicies.toList.forM fun (service,layers) => do
    let _ ← layers.foldlM (validateLayer plugins authorityCeiling service) .empty

/-- The comparison of `layers.sort_by`. -/
def compareLayers (left right : LayerPolicy) : Ordering :=
  (compare right.priority left.priority).then (compare left.plugin right.plugin)

def sortLayers (layerPolicies : LayerPolicies) : LayerPolicies :=
  layerPolicies.mapVal (·.insertionSort fun left right => (compareLayers left right).isLE)

end Layers

section Schemas

def checkOwner (kernelConfig : KernelConfig) (registration : DurableSchemaRegistration) :
    Except ResolvedHarnessError Unit :=
  match kernelConfig.resourceOwner registration.schema.namespc with
  | none => .error (.undeclaredDurableSchema registration.owner registration.schema.namespc)
  | some owner =>
    if owner ≠ registration.owner then
      .error (.durableSchemaOwnerMismatch registration.owner registration.schema.namespc owner)
    else .ok ()

def sortMigrations (registration : DurableSchemaRegistration) : DurableSchemaRegistration :=
  { registration with
    migrations := sortByKey (fun migration => toLex (migration.fromVersion,migration.toVersion))
      registration.migrations }

def resolveDurableSchemas (durableSchemas : List DurableSchemaRegistration)
    (kernelConfig : KernelConfig) : Except ResolvedHarnessError (List DurableSchemaRegistration) := do
  let resolved ← register (·.schema.namespc) (checkOwner kernelConfig)
    (fun registration => .duplicateDurableSchema registration.schema.namespc)
    (durableSchemas.map sortMigrations)
  .ok resolved.values

end Schemas

namespace ResolvedHarness

/-- `identity` is the digest of a payload, and `freshIdentity` the last number that the
process-wide counter gives while the configuration is built. -/
def resolveWithInputs (identity : SemanticGeneration → GraphGenerationId) (freshIdentity : ℕ)
    (pluginManifests : List PluginManifest) (componentManifests : List ComponentManifest)
    (inputs : ResolutionInputs) (authorityCeiling : Authority) :
    Except ResolvedHarnessError ResolvedHarness := do
  let plugins := sortByKey (·.id) pluginManifests
  let components := sortByKey (·.id) componentManifests
  let resources ← resolveResources components authorityCeiling inputs.resources
  validateLayerPolicies plugins authorityCeiling inputs.layerPolicies
  let layerPolicies := sortLayers inputs.layerPolicies
  let configuration ← (ResolvedConfigContributions.tryResolve inputs.contributions
    authorityCeiling).mapError .configurationMerge
  let kernelConfig ← (KernelConfig.new freshIdentity plugins).mapError .kernel
  let kernelConfig ← (kernelConfig.withLayerPolicies freshIdentity layerPolicies).mapError .kernel
  let durableSchemas ← resolveDurableSchemas inputs.durableSchemas kernelConfig
  let componentGraph ← (ResolvedComponentGraph.compileWithProviderPolicy plugins components
    authorityCeiling inputs.providerPolicy).mapError .componentGraph
  .ok
    { generation := identity
        { plugins := plugins
          components := components
          durableSchemas := durableSchemas
          resources := resources
          configuration := semanticPayload configuration
          layerPolicies := layerPolicies
          providerPolicy := inputs.providerPolicy
          authorityCeiling := authorityCeiling }
      plugins := plugins
      components := components
      durableSchemas := durableSchemas
      resources := resources
      configuration := configuration
      kernelConfig := kernelConfig
      componentGraph := componentGraph
      layerPolicies := layerPolicies
      providerPolicy := inputs.providerPolicy }

def withPluginSet (self : ResolvedHarness) (identity : SemanticGeneration → GraphGenerationId)
    (freshIdentity : ℕ) (plugins : List PluginManifest) (components : List ComponentManifest)
    (authorityCeiling : Authority) : Except ResolvedHarnessError ResolvedHarness := do
  let plugins := sortByKey (·.id) plugins
  let components := sortByKey (·.id) components
  let kernelConfig ← (KernelConfig.new freshIdentity plugins).mapError .kernel
  let kernelConfig ←
    (kernelConfig.withLayerPolicies freshIdentity self.layerPolicies).mapError .kernel
  let durableSchemas ← resolveDurableSchemas self.durableSchemas kernelConfig
  let componentGraph ← (ResolvedComponentGraph.compileWithProviderPolicy plugins components
    authorityCeiling self.providerPolicy).mapError .componentGraph
  .ok
    { generation := identity
        { plugins := plugins
          components := components
          durableSchemas := durableSchemas
          resources := self.resources
          configuration := semanticPayload self.configuration
          layerPolicies := self.layerPolicies
          providerPolicy := self.providerPolicy
          authorityCeiling := authorityCeiling }
      plugins := plugins
      components := components
      durableSchemas := durableSchemas
      resources := self.resources
      configuration := self.configuration
      kernelConfig := kernelConfig
      componentGraph := componentGraph
      layerPolicies := self.layerPolicies
      providerPolicy := self.providerPolicy }

end ResolvedHarness
end PhenixConductor.Harness
