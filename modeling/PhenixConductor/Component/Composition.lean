import PhenixConductor.Events.Dependencies

/-! # Provider policy

Product-owned inputs of provider selection.
-/
namespace PhenixConductor.Component
open Collections Contract

/-- Why the kernel selected the primary provider. -/
inductive ProviderSelectionReason where
  | explicitBinding | priority | stableIdentity
  deriving DecidableEq

structure InterfaceProviderPolicy where
  explicit : Option ComponentId
  priorities : BTreeMap ComponentId ℤ
  disabled : BTreeSet ComponentId
  interfaceAllowsFallback : Bool
  fallbackEnabled : Bool

structure ProviderCompositionPolicy where
  interfaces : BTreeMap InterfaceId InterfaceProviderPolicy

namespace ProviderCompositionPolicy
variable (self : ProviderCompositionPolicy) (interface : InterfaceId) (provider : ComponentId)

def explicitBinding : Option ComponentId :=
  (self.interfaces.get? interface).bind (·.explicit)

def providerEnabled : Bool :=
  !(self.interfaces.get? interface).any fun policy => provider ∈ policy.disabled.keys

def effectivePriority : ℤ :=
  ((self.interfaces.get? interface).bind (·.priorities.get? provider)).getD 0

def hasPriority : Bool :=
  (self.interfaces.get? interface).any fun policy => provider ∈ policy.priorities.keys

/-- The contract and the product must both allow fallback. -/
def fallbackEnabled : Bool :=
  (self.interfaces.get? interface).any fun policy =>
    policy.interfaceAllowsFallback && policy.fallbackEnabled

end ProviderCompositionPolicy
end PhenixConductor.Component

/-! ## Compositions

The manifests that a compilation has accepted. A `Composition` cannot hold a
component without a plugin that can run it, so the resolver may look up the owner
of every component it meets.
-/
namespace PhenixConductor.Component
open Collections Contract Events

inductive ComponentGraphError where
  | duplicatePlugin (plugin : PluginId)
  | duplicateComponent (component : ComponentId)
  | unknownOwningPlugin (component : ComponentId) (plugin : PluginId)
  | resourceOnlyComponentOwner (component : ComponentId) (plugin : PluginId)
  | duplicateImport (component : ComponentId) (interface : InterfaceId)
  | duplicateExport (component : ComponentId) (interface : InterfaceId)
  | missingRequiredImport (component : ComponentId) (interface : InterfaceId)
  | incompatibleRequiredImport (component : ComponentId) (interface : InterfaceId)
      (exporter : ComponentId) (mismatch : InterfaceSchemaMismatch)
  | importNotDeclared (component : ComponentId) (interface : InterfaceId)
  | requiredImportCycle (path : List ComponentId)
  | listenerTopology (error : EventError)
  | unknownComponent (component : ComponentId)

def validateComponentManifest (manifest : ComponentManifest) : Except ComponentGraphError Unit := do
  let _ ← register (·.interface) (fun _ => .ok ())
    (fun imported => .duplicateImport manifest.id imported.interface) manifest.imports
  let _ ← register (·.interface) (fun _ => .ok ())
    (fun exported => .duplicateExport manifest.id exported.interface) manifest.exports

/-- What a component manifest must satisfy to be inserted. -/
def validateOwned (plugins : BTreeMap PluginId PluginManifest) (manifest : ComponentManifest) :
    Except ComponentGraphError Unit := do
  validateComponentManifest manifest
  match plugins.get? manifest.owner with
  | none => .error (.unknownOwningPlugin manifest.id manifest.owner)
  | some owner =>
    if owner.execution.isResourceOnly then
      .error (.resourceOnlyComponentOwner manifest.id manifest.owner)
    else .ok ()

variable {plugins : BTreeMap PluginId PluginManifest}

theorem validateOwned_eq_ok {manifest : ComponentManifest} :
    validateOwned plugins manifest = .ok () ↔
      validateComponentManifest manifest = .ok () ∧ ∃ owner,
        plugins.get? manifest.owner = some owner ∧ owner.execution.isResourceOnly = false := by
  rw [validateOwned, seq_eq_ok]
  apply and_congr_right
  cases plugins.get? manifest.owner with
  | none => simp
  | some owner => cases h : owner.execution.isResourceOnly <;> simp [h]

/-- Manifests under their ids, each component valid and with a plugin that can run it. -/
structure Composition where
  plugins : BTreeMap PluginId PluginManifest
  components : BTreeMap ComponentId ComponentManifest
  pluginIds : ∀ id plugin, plugins.get? id = some plugin → plugin.id = id
  componentIds : ∀ id manifest, components.get? id = some manifest → manifest.id = id
  owned : ∀ manifest ∈ components.values, validateOwned plugins manifest = .ok ()

namespace Composition

/-- A component of the composition. -/
abbrev Member (composition : Composition) :=
  {manifest : ComponentManifest // manifest ∈ composition.components.values}

def members (composition : Composition) : List composition.Member :=
  composition.components.values.attach

theorem isSome_owner {composition : Composition} (component : composition.Member) :
    (composition.plugins.get? component.1.owner).isSome := by
  obtain ⟨-,owner,howner,-⟩ := validateOwned_eq_ok.mp (composition.owned _ component.2)
  simp [howner]

/-- `&plugins[&manifest.owner]` -/
def owner {composition : Composition} (component : composition.Member) : PluginManifest :=
  (composition.plugins.get? component.1.owner).get (isSome_owner component)

end Composition

def registerPlugins (manifests : List PluginManifest) :
    Except ComponentGraphError (BTreeMap PluginId PluginManifest) :=
  register (·.id) (fun _ => .ok ()) (fun manifest => .duplicatePlugin manifest.id) manifests

def registerComponents (plugins : BTreeMap PluginId PluginManifest)
    (manifests : List ComponentManifest) :
    Except ComponentGraphError (BTreeMap ComponentId ComponentManifest) :=
  register (·.id) (validateOwned plugins) (fun manifest => .duplicateComponent manifest.id)
    manifests

theorem registerPlugins_ids {manifests : List PluginManifest}
    (h : registerPlugins manifests = .ok plugins) (id : PluginId) (plugin : PluginManifest)
    (hid : plugins.get? id = some plugin) : plugin.id = id :=
  ((register_eq_ok.mp h).2.2 id plugin).mp hid |>.2

variable {manifests : List ComponentManifest} {components : BTreeMap ComponentId ComponentManifest}

theorem registerComponents_ids (h : registerComponents plugins manifests = .ok components)
    (id : ComponentId) (manifest : ComponentManifest) (hid : components.get? id = some manifest) :
    manifest.id = id :=
  ((register_eq_ok.mp h).2.2 id manifest).mp hid |>.2

theorem registerComponents_owned (h : registerComponents plugins manifests = .ok components)
    (manifest : ComponentManifest) (hmem : manifest ∈ components.values) :
    validateOwned plugins manifest = .ok () := by
  obtain ⟨hvalid,-,hget⟩ := register_eq_ok.mp h
  obtain ⟨id,hid⟩ := components.mem_values.mp hmem
  exact hvalid manifest ((hget id manifest).mp hid).1

/-- The first two loops of `compile_inner`. -/
def Composition.of (pluginManifests : List PluginManifest)
    (componentManifests : List ComponentManifest) : Except ComponentGraphError Composition :=
  match hp : registerPlugins pluginManifests with
  | .error error => .error error
  | .ok plugins =>
    match hc : registerComponents plugins componentManifests with
    | .error error => .error error
    | .ok components => .ok
      { plugins := plugins
        components := components
        pluginIds := registerPlugins_ids hp
        componentIds := registerComponents_ids hc
        owned := registerComponents_owned hc }

variable {pluginManifests : List PluginManifest} {componentManifests : List ComponentManifest}
  {composition : Composition}

theorem Composition.of_eq_ok : of pluginManifests componentManifests = .ok composition ↔
      registerPlugins pluginManifests = .ok composition.plugins ∧
        registerComponents composition.plugins componentManifests = .ok composition.components := by
  unfold of
  constructor
  · intro h
    split at h
    · cases h
    · split at h
      · cases h
      · cases h
        exact ⟨‹_›,‹_›⟩
  · rintro ⟨hp,hc⟩
    split
    · simp_all
    · rename_i plugins hp'
      obtain rfl : composition.plugins = plugins := Except.ok.inj (hp.symm.trans hp')
      split
      · simp_all
      · rename_i components hc'
        obtain rfl : composition.components = components := Except.ok.inj (hc.symm.trans hc')
        rfl

/-- The order of the manifests does not decide which composition they make. -/
theorem Composition.of_perm {pluginManifests' : List PluginManifest}
    {componentManifests' : List ComponentManifest}
    (hplugins : pluginManifests.Perm pluginManifests')
    (hcomponents : componentManifests.Perm componentManifests') :
    of pluginManifests componentManifests = .ok composition ↔
      of pluginManifests' componentManifests' = .ok composition := by
  rw [of_eq_ok, of_eq_ok, registerPlugins, registerPlugins, registerComponents,
    registerComponents, register_perm hplugins, register_perm hcomponents]

end PhenixConductor.Component
