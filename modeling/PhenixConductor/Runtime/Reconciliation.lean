import PhenixConductor.Runtime.Kernel

/-! # Changes of the kernel

A reconciliation keeps the instances of the plugins that do not change, stages the others, and
replaces the whole composition at once.
-/
namespace PhenixConductor.Runtime
open Collections Contract Component Events PhenixConductor.Kernel Harness

section Restart
variable (active candidate : KernelConfig)

/-- The manifest of a plugin is what it was. -/
def manifestKept (plugin : PluginId) (manifest : PluginManifest) : Bool :=
  (active.manifests.get? plugin).any (·.partialEq manifest)

/-- One turn of the inner loop of `runtime_restart_closure`. -/
def restartGuest (restart : BTreeSet PluginId) (binding : RuntimeBinding) : BTreeSet PluginId :=
  let restart :=
    if active.runtimeBinding binding.guest ≠ some binding then restart.insert binding.guest ()
    else restart
  if binding.provider ∈ restart.keys then restart.insert binding.guest () else restart

/-- A guest restarts when its binding changed or its provider restarts. -/
theorem mem_restartGuest (restart : BTreeSet PluginId) (binding : RuntimeBinding) (plugin : PluginId) :
    plugin ∈ (restartGuest active restart binding).keys ↔ plugin ∈ restart.keys ∨
      plugin = binding.guest ∧ (active.runtimeBinding binding.guest ≠ some binding ∨
        binding.provider ∈ restart.keys) := by
  unfold restartGuest
  dsimp only
  by_cases hchanged : active.runtimeBinding binding.guest ≠ some binding
  · split_ifs
    · rw [BTreeMap.mem_keys_insert, BTreeMap.mem_keys_insert]
      tauto
    · rw [BTreeMap.mem_keys_insert]
      tauto
  · rw [if_neg hchanged]
    by_cases hprovider : binding.provider ∈ restart.keys
    · rw [if_pos hprovider, BTreeMap.mem_keys_insert]
      tauto
    · rw [if_neg hprovider]
      tauto

def restartRules : RuleSystem PluginId RuntimeBinding where
  conclusion := (·.guest)
  turn := restartGuest active
  grows restart binding plugin hplugin := (mem_restartGuest active restart binding plugin).mpr (.inl hplugin)
  adds restart binding plugin hplugin := by
    rcases (mem_restartGuest active restart binding plugin).mp hplugin with hplugin | ⟨hguest,-⟩
    · exact .inr hplugin
    · exact .inl hguest

/-- The requested plugins and those whose manifest is not what it was. -/
def restartBegin (requested : BTreeSet PluginId) : BTreeSet PluginId :=
  candidate.manifests.toList.foldl (fun restart entry =>
    if !manifestKept active entry.1 entry.2 then restart.insert entry.1 () else restart) requested

def runtimeRestartClosure (requested : BTreeSet PluginId) : BTreeSet PluginId :=
  (restartRules active).saturate candidate.runtimeBindings.values
    (restartBegin active candidate requested)

end Restart

/-- The capacity of `EventBus::default`. -/
def defaultDeliveryCapacity : ℕ+ := 64

namespace Kernel
variable {H : Type} (self : Kernel H)

def new (config : KernelConfig) : Kernel H where
  graphGeneration := none
  componentGraph := ⟨.empty,[]⟩
  activeResources := []
  config := config
  states := config.manifests.mapVal fun _ => .registered
  embeddedFactories := .empty
  preparedEmbeddedInstances := .empty
  instances := .empty
  events := .withCapacity defaultDeliveryCapacity
  runtimeActive := false
  nextInstance := 0

def installResolvedGraph (generation : GraphGenerationId) (graph : ResolvedComponentGraph)
    (resources : List SkillResourceMetadata) : Kernel H :=
  { self with
    graphGeneration := some generation
    componentGraph := graph
    activeResources := resources }

def preloadEmbeddedFactory (plugin : PluginId) : Kernel H :=
  { self with embeddedFactories := self.embeddedFactories.insert plugin () }

def registerEmbeddedFactory (plugin : PluginId) : Except KernelError (Kernel H) :=
  match self.config.manifest plugin with
  | none => .error (.unknownPlugin plugin)
  | some manifest =>
    match manifest.execution with
    | .embedded => .ok (self.preloadEmbeddedFactory plugin)
    | .runtime _ _ | .resourceOnly => .error (.wrongExecutionKind plugin)

/-- The instance is new to the kernel. -/
def preloadEmbeddedInstance (plugin : PluginId) : Kernel H :=
  { self with
    preparedEmbeddedInstances := self.preparedEmbeddedInstances.insert plugin self.nextInstance
    nextInstance := self.nextInstance + 1 }

/-- What a failed activation leaves behind in the kernel. -/
def consume (staging : Staging) : Kernel H :=
  { self with
    preparedEmbeddedInstances := staging.preparedEmbeddedInstances
    nextInstance := staging.nextInstance }

end Kernel

/-- The outcome of a change, the kernel after it and the calls that it made. -/
structure Change (H : Type) where
  outcome : Except KernelError Unit
  kernel : Kernel H
  calls : List LifecycleCall

namespace Kernel
variable {H : Type} (self : Kernel H) (behaviour : PluginBehaviour H)

/-- The first loop of the reconciliation keeps what is neither restarted nor changed. -/
def retains (restart : BTreeSet PluginId) (entry : PluginId × PluginManifest) : Bool :=
  self.runtimeActive && entry.1 ∉ restart.keys && manifestKept self.config entry.1 entry.2

def nextStates (candidate : KernelConfig) (restart : BTreeSet PluginId) :
    BTreeMap PluginId PluginState :=
  candidate.manifests.toList.foldl (fun states entry => states.insert entry.1
    (if self.retains restart entry then .active else .registered)) .empty

def nextInstances (candidate : KernelConfig) (restart : BTreeSet PluginId) :
    BTreeMap PluginId InstanceId :=
  candidate.manifests.toList.foldl (fun instances entry =>
    if self.retains restart entry then
      match self.instances.get? entry.1 with
      | some instanceId => instances.insert entry.1 instanceId
      | none => instances
    else instances) .empty

def beginReconciliation (candidate : KernelConfig) (restart : BTreeSet PluginId) : Staging where
  states := self.nextStates candidate restart
  instances := self.nextInstances candidate restart
  staged := []
  preparedEmbeddedInstances := self.preparedEmbeddedInstances
  nextInstance := self.nextInstance
  calls := []

/-- The instances that the candidate does not keep. -/
def retired (candidate : KernelConfig) (restart : BTreeSet PluginId) :
    List (PluginId × InstanceId) :=
  (self.config.manifests.toList.filter fun entry =>
    !manifestKept candidate entry.1 entry.2 || entry.1 ∈ restart.keys).filterMap fun entry =>
      (self.instances.get? entry.1).map (entry.1,·)

def partiallyActive : Bool :=
  let hasActive := self.states.values.any (· = .active)
  let allActive := self.states.values.all (· = .active)
  self.runtimeActive && !allActive || !self.runtimeActive && hasActive

/-- The plugins that are not kept are started if the runtime is active. -/
def stageCandidate (candidate : KernelConfig) (restart : BTreeSet PluginId) :
    Except KernelError Unit × Staging :=
  let staging := self.beginReconciliation candidate restart
  if self.runtimeActive then
    stageAll self.embeddedFactories candidate behaviour (orderedManifests candidate) staging
  else (.ok (),staging)

def reconcileResolvedGeneration (candidate : ResolvedHarness) (restartPlugins : BTreeSet PluginId) :
    Change H :=
  if self.partiallyActive then ⟨.error .partiallyActiveRuntime,self,[]⟩
  else
    let config := candidate.kernelConfig
    let restart := runtimeRestartClosure self.config config restartPlugins
    match self.stageCandidate behaviour config restart with
    | (.error error,staging) => ⟨.error error,self.consume staging,staging.calls⟩
    | (.ok _,staging) =>
      match stageListenerSubscriptions config behaviour candidate.componentGraph staging.instances with
      | .error error =>
        let staging := cleanupStaged config staging
        ⟨.error error,self.consume staging,staging.calls⟩
      | .ok subscriptions =>
        match (replaceSubscriptions subscriptions).call self.events with
        | (.error error,events) =>
          ⟨.error (.eventTopology error),{ self.consume staging with events := events },staging.calls⟩
        | (.ok _,events) =>
          { outcome := .ok ()
            kernel :=
              { (self.consume staging).installResolvedGraph candidate.generation
                  candidate.componentGraph candidate.resources with
                config := config
                states := staging.states
                instances := staging.instances
                events := events }
            calls := staging.calls ++
              (self.retired config restart).flatMap fun entry => stopCall self.config entry.1 entry.2 }

def beginActivation : Staging where
  states := if self.runtimeActive then self.states else self.config.manifests.mapVal fun _ => .registered
  instances := if self.runtimeActive then self.instances else .empty
  staged := []
  preparedEmbeddedInstances := self.preparedEmbeddedInstances
  nextInstance := self.nextInstance
  calls := []

/-- Without a generation there must not be a listener. -/
def activeSubscriptions (instances : BTreeMap PluginId InstanceId) :
    Except KernelError (List (EventSubscription H)) :=
  if self.graphGeneration.isSome then
    stageListenerSubscriptions self.config behaviour self.componentGraph instances
  else if self.componentGraph.listeners.isEmpty then .ok []
  else .error .resolvedGenerationMissing

def activateAll : Change H :=
  if self.runtimeActive && self.states.values.all (· = .active) then ⟨.ok (),self,[]⟩
  else
    match stageAll self.embeddedFactories self.config behaviour (orderedManifests self.config)
        self.beginActivation with
    | (.error error,staging) => ⟨.error error,self.consume staging,staging.calls⟩
    | (.ok _,staging) =>
      match self.activeSubscriptions behaviour staging.instances with
      | .error error =>
        let staging := cleanupStaged self.config staging
        ⟨.error error,self.consume staging,staging.calls⟩
      | .ok subscriptions =>
        match (replaceSubscriptions subscriptions).call self.events with
        | (.error error,events) =>
          ⟨.error (.eventTopology error),{ self.consume staging with events := events },staging.calls⟩
        | (.ok _,events) =>
          { outcome := .ok ()
            kernel :=
              { self.consume staging with
                states := staging.states
                instances := staging.instances
                events := events
                runtimeActive := true }
            calls := staging.calls }

/-- `call` is what the instance does, if there is one. -/
def stop (plugin : PluginId) (call : HostCall) : Change H :=
  match self.config.manifest plugin with
  | none => ⟨.error (.unknownPlugin plugin),self,[]⟩
  | some _ =>
    let stopped : Kernel H :=
      { self with
        instances := self.instances.erase plugin
        states := self.states.insert plugin .stopped }
    match self.instances.get? plugin with
    | none => ⟨.ok (),stopped,[]⟩
    | some instanceId =>
      let calls := [.stop plugin instanceId]
      match call.unwound with
      | .returned (.ok _) =>
        if call.cancelled then ⟨.error (.pluginStop plugin "plugin stop cancelled"),self,calls⟩
        else ⟨.ok (),stopped,calls⟩
      | .returned (.error message) => ⟨.error (.pluginStop plugin message),self,calls⟩
      | .panicked => ⟨.error (.pluginStop plugin "plugin stop panicked"),self,calls⟩

end Kernel
end PhenixConductor.Runtime
