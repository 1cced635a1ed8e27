import PhenixConductor.Component.Composition
import PhenixConductor.Collections.Digraph

/-! # The resolved component graph

`compileInner` registers the manifests, resolves every import of every component
to a provider and its fallbacks, and checks that the required imports form no
cycle and that the listeners are a valid set of subscriptions.
-/
namespace PhenixConductor.Component
open Collections Contract Events

structure ResolvedImportHandle where
  importer : ComponentId
  interface : InterfaceId
  exporter : ComponentId
  owningPlugin : PluginId
  execution : PluginExecution
  effectiveAuthority : Authority

structure ResolvedImport where
  interface : InterfaceId
  required : Bool
  binding : Option ResolvedImportHandle
  fallbacks : List ResolvedImportHandle
  selectionReason : Option ProviderSelectionReason

structure ResolvedComponent where
  id : ComponentId
  owningPlugin : PluginId
  execution : PluginExecution
  imports : List ResolvedImport
  maximumAuthority : Authority

structure ResolvedListener where
  component : ComponentId
  owningPlugin : PluginId
  declaration : ComponentListener
  maximumAuthority : Authority

structure ResolvedComponentGraph where
  components : BTreeMap ComponentId ResolvedComponent
  listeners : List ResolvedListener

def ResolvedListener.subscriptionSpec (self : ResolvedListener) (kernelPolicyRevision : ℕ) :
    SubscriptionSpec where
  id := self.declaration.id
  owner := self.owningPlugin
  eventType := self.declaration.event
  eventVersion := self.declaration.eventVersion
  dependencies := self.declaration.dependencies
  failurePolicy := self.declaration.failurePolicy
  requiredAuthority := self.declaration.requiredAuthority
  maximumAuthority := self.maximumAuthority
  kernelPolicyRevision := kernelPolicyRevision

namespace Composition
variable {composition : Composition}

/-- A component that may provide an interface, with the export it would provide. -/
abbrev Candidate (composition : Composition) := composition.Member × ComponentExport

def pushExporter (exporters : BTreeMap InterfaceId (List composition.Candidate))
    (candidate : composition.Candidate) : BTreeMap InterfaceId (List composition.Candidate) :=
  exporters.insert candidate.2.interface
    ((exporters.get? candidate.2.interface).getD [] ++ [candidate])

/-- The exports of every interface, by component id. -/
def exporters (composition : Composition) : BTreeMap InterfaceId (List composition.Candidate) :=
  let candidates := composition.members.flatMap fun manifest =>
    manifest.1.exports.map fun exported => (manifest,exported)
  (candidates.foldl pushExporter .empty).mapVal
    (·.insertionSort fun left right => left.1.1.id ≤ right.1.1.id)

structure EligibleProvider (composition : Composition) where
  component : composition.Member
  effectiveAuthority : Authority
  priority : ℤ
  explicit : Bool

/-- The comparison of `eligible.sort_by`: explicit first, then the higher
priority, then the smaller id. -/
def compareProviders (left right : EligibleProvider composition) : Ordering :=
  (compare right.explicit left.explicit).then
    ((compare right.priority left.priority).then
      (compare left.component.1.id right.component.1.id))

/-- The candidates that are eligible so far, and the first incompatible one. -/
structure Considered (composition : Composition) where
  eligible : List (EligibleProvider composition)
  incompatible : Option (ComponentId × InterfaceSchemaMismatch)

section Import
variable (policy : Option ProviderCompositionPolicy) (componentAuthority : Authority)
  (imported : ComponentImport)

/-- One turn of the loop over the candidates of an import. -/
def consider (considered : Considered composition) (candidate : composition.Candidate) :
    Considered composition :=
  if policy.any fun policy => !policy.providerEnabled imported.interface candidate.1.1.id then
    considered
  else
    let effectiveAuthority := ((componentAuthority.attenuate imported.authority).attenuate
      (owner candidate.1).maximumAuthority).attenuate candidate.1.1.maximumAuthority
    if !effectiveAuthority.permitsAll candidate.2.requiredAuthority then considered
    else match imported.schema.acceptsProvider candidate.2.schema with
      | .exact | .compatible =>
        let priority := match policy with
          | none => candidate.2.priority
          | some policy => policy.effectivePriority imported.interface candidate.1.1.id
        let explicit := policy.bind (·.explicitBinding imported.interface) = some candidate.1.1.id
        { considered with eligible := considered.eligible ++
          [⟨candidate.1,effectiveAuthority,priority,explicit⟩] }
      | .incompatible mismatch =>
        let incompatible := considered.incompatible.or (some (candidate.1.1.id,mismatch))
        { considered with incompatible := incompatible }

/-- The candidates of an import after the loop, in the order of preference. -/
def considerAll (composition : Composition) : Considered composition :=
  let considered := ((composition.exporters.get? imported.interface).getD []).foldl
    (consider policy componentAuthority imported) ⟨[],none⟩
  let sorted := considered.eligible.insertionSort fun left right =>
    (compareProviders left right).isLE
  { considered with eligible := sorted }

def selectionReason (eligible : List (EligibleProvider composition)) :
    Option ProviderSelectionReason :=
  eligible.head?.map fun primary =>
    if primary.explicit then .explicitBinding
    else
      let priorityChangedOrder := eligible[1]?.any fun next => next.priority ≠ primary.priority
      let policyHasPriority := policy.any fun policy => eligible.any fun candidate =>
        policy.hasPriority imported.interface candidate.component.1.id
      if priorityChangedOrder || policyHasPriority then .priority else .stableIdentity

def importHandle (manifest : composition.Member) (candidate : EligibleProvider composition) :
    ResolvedImportHandle where
  importer := manifest.1.id
  interface := imported.interface
  exporter := candidate.component.1.id
  owningPlugin := candidate.component.1.owner
  execution := (owner candidate.component).execution
  effectiveAuthority := candidate.effectiveAuthority

/-- The primary provider. A required import without one is an error, about the first
incompatible candidate where there is one. -/
def bindImport (manifest : composition.Member) (handles : List ResolvedImportHandle)
    (incompatible : Option (ComponentId × InterfaceSchemaMismatch)) :
    Except ComponentGraphError (Option ResolvedImportHandle) :=
  match handles with
  | primary :: _ => .ok (some primary)
  | [] =>
    if imported.required then
      match incompatible with
      | some (exporter,mismatch) => .error (.incompatibleRequiredImport manifest.1.id
          imported.interface exporter mismatch)
      | none => .error (.missingRequiredImport manifest.1.id imported.interface)
    else .ok none

/-- One turn of the loop over the imports of a component. -/
def resolveImport (manifest : composition.Member) : Except ComponentGraphError ResolvedImport := do
  let considered := considerAll policy componentAuthority imported composition
  let handles := considered.eligible.map (importHandle imported manifest)
  let binding ← bindImport imported manifest handles considered.incompatible
  .ok
    { interface := imported.interface
      required := imported.required
      binding := binding
      fallbacks := if policy.any (·.fallbackEnabled imported.interface) then handles.tail else []
      selectionReason := selectionReason policy imported considered.eligible }

end Import

/-- The authority left to a component by the harness and its plugin. -/
def componentAuthority (harnessAuthority : Authority) (manifest : composition.Member) : Authority :=
  (harnessAuthority.attenuate (owner manifest).maximumAuthority).attenuate
    manifest.1.maximumAuthority

def resolveComponent (harnessAuthority : Authority) (policy : Option ProviderCompositionPolicy)
    (manifest : composition.Member) : Except ComponentGraphError ResolvedComponent := do
  let imports ← manifest.1.imports.mapM fun imported =>
    resolveImport policy (componentAuthority harnessAuthority manifest) imported manifest
  .ok
    { id := manifest.1.id
      owningPlugin := manifest.1.owner
      execution := (owner manifest).execution
      imports := imports
      maximumAuthority := componentAuthority harnessAuthority manifest }

def resolveListeners (harnessAuthority : Authority) (manifest : composition.Member) :
    List ResolvedListener :=
  manifest.1.listeners.map fun declaration =>
    { component := manifest.1.id
      owningPlugin := manifest.1.owner
      declaration := declaration
      maximumAuthority := componentAuthority harnessAuthority manifest }

/-- One turn of the loop over the components. -/
def resolveTurn (harnessAuthority : Authority) (policy : Option ProviderCompositionPolicy)
    (graph : ResolvedComponentGraph) (manifest : composition.Member) :
    Except ComponentGraphError ResolvedComponentGraph := do
  let component ← resolveComponent harnessAuthority policy manifest
  .ok
    { components := graph.components.insert manifest.1.id component
      listeners := graph.listeners ++ resolveListeners harnessAuthority manifest }

/-- The components by id, each resolved, and all their listeners. -/
def resolveAll (composition : Composition) (harnessAuthority : Authority)
    (policy : Option ProviderCompositionPolicy) :
    Except ComponentGraphError ResolvedComponentGraph :=
  composition.members.foldlM (resolveTurn harnessAuthority policy) ⟨.empty,[]⟩

end Composition

/-- The exporters that `visit` follows from a component, in its order. -/
def ResolvedComponent.requiredExporters (self : ResolvedComponent) : List ComponentId :=
  (self.imports.filter (·.required)).flatMap fun resolved =>
    (resolved.binding.toList ++ resolved.fallbacks).map (·.exporter)

section Cycles
variable (components : BTreeMap ComponentId ResolvedComponent)

/-- The components that are not on the path of a visit. -/
def unvisitedCount (visiting : List ComponentId) : ℕ :=
  (components.keys.filter (· ∉ visiting)).length

theorem unvisitedCount_append_lt {visiting : List ComponentId} {component : ComponentId}
    (hmem : component ∈ components.keys) (hnew : component ∉ visiting) :
    unvisitedCount components (visiting ++ [component]) < unvisitedCount components visiting :=
  offPath_append_lt hmem hnew

mutual

/-- The depth-first search of `validate_required_import_dag`. The result is the
set of components found to be on no cycle; `visiting` is the path to `component`. -/
def visit (component : ComponentId) (visiting : List ComponentId)
    (visited : BTreeSet ComponentId) : Except ComponentGraphError (BTreeSet ComponentId) :=
  if hnew : component ∈ visiting then
    .error (.requiredImportCycle (visiting.dropWhile (· ≠ component) ++ [component]))
  else if component ∈ visited.keys then .ok visited
  else match hget : components.get? component with
    | none => .ok (visited.insert component ())
    | some resolved => do
      have := unvisitedCount_append_lt components
        ((components.mem_keys_iff).mpr (by rw [hget]; rfl)) hnew
      let visited ← visitAll resolved.requiredExporters (visiting ++ [component]) visited
      .ok (visited.insert component ())
termination_by (unvisitedCount components visiting,0)

def visitAll (exporters : List ComponentId) (visiting : List ComponentId)
    (visited : BTreeSet ComponentId) : Except ComponentGraphError (BTreeSet ComponentId) :=
  match exporters with
  | [] => .ok visited
  | exporter :: rest => do
    let visited ← visit exporter visiting visited
    visitAll rest visiting visited
termination_by (unvisitedCount components visiting,exporters.length + 1)

end

def validateRequiredImportDag : Except ComponentGraphError Unit := do
  let _ ← components.keys.foldlM (fun visited component => visit components component [] visited)
    .empty

end Cycles

namespace ResolvedComponentGraph

def component (self : ResolvedComponentGraph) (component : ComponentId) :
    Option ResolvedComponent :=
  self.components.get? component

def resolvedImport (self : ResolvedComponentGraph) (component : ComponentId)
    (interface : InterfaceId) : Except ComponentGraphError ResolvedImport :=
  match self.components.get? component with
  | none => .error (.unknownComponent component)
  | some resolved =>
    match resolved.imports.find? (·.interface = interface) with
    | none => .error (.importNotDeclared component interface)
    | some resolved => .ok resolved

/-- The primary provider of an import and its fallbacks. -/
def providerPlan (self : ResolvedComponentGraph) (component : ComponentId)
    (interface : InterfaceId) :
    Except ComponentGraphError (Option (ResolvedImportHandle × List ResolvedImportHandle)) := do
  let resolved ← self.resolvedImport component interface
  .ok (resolved.binding.map fun primary => (primary,resolved.fallbacks))

def compileInner (pluginManifests : List PluginManifest)
    (componentManifests : List ComponentManifest) (harnessAuthority : Authority)
    (policy : Option ProviderCompositionPolicy) :
    Except ComponentGraphError ResolvedComponentGraph := do
  let composition ← Composition.of pluginManifests componentManifests
  let graph ← composition.resolveAll harnessAuthority policy
  validateRequiredImportDag graph.components
  -- the handlers of this check do nothing
  let subscriptions : List (EventSubscription Unit) :=
    graph.listeners.map fun listener => ⟨listener.subscriptionSpec 0,()⟩
  (validateSubscriptions subscriptions).mapError .listenerTopology
  .ok graph

def compileWithProviderPolicy (pluginManifests : List PluginManifest)
    (componentManifests : List ComponentManifest) (harnessAuthority : Authority)
    (policy : ProviderCompositionPolicy) : Except ComponentGraphError ResolvedComponentGraph :=
  compileInner pluginManifests componentManifests harnessAuthority (some policy)

end ResolvedComponentGraph
end PhenixConductor.Component
