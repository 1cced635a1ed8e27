import PhenixConductor.Events.Bus
import PhenixConductor.Harness.Resolver

/-! # The kernel and the staging of a candidate

A kernel runs one instance of every plugin that is not a resource.
-/
namespace PhenixConductor.Runtime
open Collections Contract Component Events PhenixConductor.Kernel Harness

inductive PluginState where
  | registered | active | stopped
  deriving DecidableEq

/-- The instances of one plugin are told apart by a number. -/
abbrev InstanceId := ℕ

/-- `nextInstance` is greater than the numbers of all instances there have been. -/
structure Kernel (H : Type) where
  graphGeneration : Option GraphGenerationId
  componentGraph : ResolvedComponentGraph
  activeResources : List SkillResourceMetadata
  config : KernelConfig
  states : BTreeMap PluginId PluginState
  embeddedFactories : BTreeSet PluginId
  preparedEmbeddedInstances : BTreeMap PluginId InstanceId
  instances : BTreeMap PluginId InstanceId
  events : EventBus H
  runtimeActive : Bool
  nextInstance : InstanceId

/-- How a call ends under `catch_unwind`. -/
inductive Unwound (α : Type) where
  | returned (result : Except String α)
  | panicked

/-- A call with a host, whose token may be cancelled before it ends. -/
structure HostCall where
  unwound : Unwound Unit
  cancelled : Bool

/-- What the plugins do during one change of the kernel. `bindListener` is also given what
was bound before it. -/
structure PluginBehaviour (H : Type) where
  runtimeProvider : PluginId → Bool
  prepare : PluginId → HostCall
  start : PluginId → HostCall
  bindListener : List (EventSubscription H) → ResolvedListener → Unwound H

/-- The calls that begin and end the life of an instance. -/
inductive LifecycleCall where
  | start (plugin : PluginId) (instanceId : InstanceId) (failure : Option String)
  | stop (plugin : PluginId) (instanceId : InstanceId)
  deriving DecidableEq

def HostCall.startFailure (self : HostCall) : Option String :=
  match self.unwound with
  | .returned (.ok _) => if self.cancelled then some "plugin start cancelled" else none
  | .returned (.error message) => some message
  | .panicked => some "plugin start panicked"

def HostCall.prepared (self : HostCall) (plugin : PluginId) (runtime : RuntimeId) :
    Except KernelError Unit :=
  match self.unwound with
  | .panicked => .error (.runtimePrepare plugin runtime "runtime provider panicked")
  | .returned result =>
    if self.cancelled then
      .error (.runtimePrepare plugin runtime "runtime provider preparation cancelled")
    else result.mapError (.runtimePrepare plugin runtime)

/-- The local variables of an activation, and what it has taken from the kernel. -/
structure Staging where
  states : BTreeMap PluginId PluginState
  instances : BTreeMap PluginId InstanceId
  staged : List PluginId
  preparedEmbeddedInstances : BTreeMap PluginId InstanceId
  nextInstance : InstanceId
  calls : List LifecycleCall

namespace Staging
variable (self : Staging)

def record (call : LifecycleCall) : Staging := { self with calls := self.calls ++ [call] }

def insertInstance (plugin : PluginId) (instanceId : InstanceId) : Staging :=
  { self with instances := self.instances.insert plugin instanceId }

/-- The plugin is active and counts as staged. -/
def activate (plugin : PluginId) : Staging :=
  { self with
    states := self.states.insert plugin .active
    staged := self.staged ++ [plugin] }

/-- A factory or a runtime provider has made an instance. -/
def makeInstance : InstanceId × Staging :=
  (self.nextInstance,{ self with nextInstance := self.nextInstance + 1 })

end Staging

/-- `StopView::stop`: a plugin without a manifest is not called. -/
def stopCall (config : KernelConfig) (plugin : PluginId) (instanceId : InstanceId) :
    List LifecycleCall :=
  if (config.manifest plugin).isSome then [.stop plugin instanceId] else []

def stopStaged (config : KernelConfig) (instances : BTreeMap PluginId InstanceId)
    (plugin : PluginId) : List LifecycleCall :=
  match instances.get? plugin with
  | some instanceId => stopCall config plugin instanceId
  | none => []

def cleanupStaged (config : KernelConfig) (self : Staging) : Staging :=
  { self with calls := self.calls ++ self.staged.reverse.flatMap (stopStaged config self.instances) }

section Activation
variable {H : Type} (factories : BTreeSet PluginId) (config : KernelConfig)
  (behaviour : PluginBehaviour H)

def takeEmbeddedInstance (plugin : PluginId) (self : Staging) :
    Except KernelError (InstanceId × Staging) :=
  match self.preparedEmbeddedInstances.get? plugin with
  | some instanceId => .ok (instanceId,
      { self with preparedEmbeddedInstances := self.preparedEmbeddedInstances.erase plugin })
  | none =>
    if plugin ∈ factories.keys then .ok self.makeInstance
    else .error (.embeddedFactoryMissing plugin)

/-- The closure that makes the instance of a plugin. A resource has none. -/
def obtainInstance (plugin : PluginId) (manifest : PluginManifest) (self : Staging) :
    Except KernelError (Option InstanceId × Staging) :=
  match manifest.execution with
  | .resourceOnly => .ok (none,self)
  | .embedded => do
    let (instanceId,self) ← takeEmbeddedInstance factories plugin self
    .ok (some instanceId,self)
  | .runtime runtime _ =>
    match config.runtimeBinding plugin with
    | none => .error (.runtimeProviderUnavailable runtime)
    | some binding =>
      if binding.provider ∉ self.instances.keys then .error (.pluginNotActive binding.provider)
      else if !behaviour.runtimeProvider binding.provider then
        .error (.runtimeProviderContractUnavailable runtime binding.provider)
      else do
        (behaviour.prepare plugin).prepared plugin runtime
        let (instanceId,self) := self.makeInstance
        .ok (some instanceId,self)

/-- One turn of the loop over the activation order. Every failure stops what is staged. -/
def stagePlugin (plugin : PluginId) (manifest : PluginManifest) (self : Staging) :
    Except KernelError Unit × Staging :=
  if self.states.get? plugin = some .active then (.ok (),self)
  else match obtainInstance factories config behaviour plugin manifest self with
    | .error error => (.error error,cleanupStaged config self)
    | .ok (none,self) => (.ok (),self.activate plugin)
    | .ok (some instanceId,self) =>
      let failure := (behaviour.start plugin).startFailure
      let self := self.record (.start plugin instanceId failure)
      match failure with
      | some message => (.error (.pluginStart plugin message),cleanupStaged config self)
      | none => (.ok (),(self.insertInstance plugin instanceId).activate plugin)

def stageAll : List (PluginId × PluginManifest) → Staging → Except KernelError Unit × Staging
  | [],self => (.ok (),self)
  | (plugin,manifest) :: rest,self =>
    match stagePlugin factories config behaviour plugin manifest self with
    | (.ok _,self) => stageAll rest self
    | (.error error,self) => (.error error,self)

/-- One turn of the loop of `stage_listener_subscriptions`. -/
def stageListener (instances : BTreeMap PluginId InstanceId)
    (subscriptions : List (EventSubscription H)) (listener : ResolvedListener) :
    Except KernelError (List (EventSubscription H)) :=
  if listener.owningPlugin ∉ instances.keys then .error (.pluginNotActive listener.owningPlugin)
  else
    let failed := KernelError.listenerBinding listener.owningPlugin listener.component
      listener.declaration.method
    match behaviour.bindListener subscriptions listener with
    | .panicked => .error (failed "plugin listener binding panicked")
    | .returned (.error message) => .error (failed message)
    | .returned (.ok handler) =>
      .ok (subscriptions ++ [⟨listener.subscriptionSpec config.policyIdentity,handler⟩])

def stageListenerSubscriptions (graph : ResolvedComponentGraph)
    (instances : BTreeMap PluginId InstanceId) : Except KernelError (List (EventSubscription H)) := do
  let subscriptions ← graph.listeners.foldlM (stageListener config behaviour instances) []
  (validateSubscriptions subscriptions).mapError .eventTopology
  .ok subscriptions

end Activation

/-- The activation order with the manifests. -/
def orderedManifests (config : KernelConfig) : List (PluginId × PluginManifest) :=
  config.activationOrder.attach.map fun plugin =>
    (plugin.1,config.manifests.val plugin.1 ((config.ordered.2 plugin.1).mp plugin.2))

end PhenixConductor.Runtime
