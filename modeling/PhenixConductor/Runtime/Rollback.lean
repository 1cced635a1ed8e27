import PhenixConductor.Runtime.Reconciliation
import PhenixConductor.Runtime.Staging
import PhenixConductor.Events.Changes

/-! # A failed reconciliation leaves the kernel as it was

Every exit of the staging goes through the cleanup, and the replacement of the
subscriptions, which has none, cannot fail: the subscriptions have been validated
when the listeners were staged.
-/
namespace PhenixConductor.Runtime
open Collections Contract Component Events PhenixConductor.Kernel Harness KernelConfig SubscriptionChange

theorem mem_orderedManifests (config : KernelConfig) (entry : PluginId × PluginManifest) :
    entry ∈ orderedManifests config ↔ config.manifests.get? entry.1 = some entry.2 := by
  rcases entry with ⟨plugin,manifest⟩
  simp only [orderedManifests, List.mem_map, List.mem_attach, true_and, Prod.mk.injEq]
  rw [BTreeMap.get?_eq_some]
  constructor
  · rintro ⟨⟨_,hordered⟩,rfl,rfl⟩
    exact ⟨(config.ordered.2 _).mp hordered,rfl⟩
  · rintro ⟨hmem,rfl⟩
    exact ⟨⟨plugin,(config.ordered.2 plugin).mpr hmem⟩,rfl,rfl⟩

section Begin
variable {H : Type} (kernel : Kernel H) (candidate : KernelConfig) (restart : BTreeSet PluginId)

/-- The candidate has the plugin and the first loop keeps it. -/
def retained (plugin : PluginId) : Bool :=
  (candidate.manifests.get? plugin).any fun manifest => kernel.retains restart (plugin,manifest)

theorem get?_nextStates (plugin : PluginId) : (kernel.nextStates candidate restart).get? plugin =
    (candidate.manifests.get? plugin).map fun manifest =>
      if kernel.retains restart (plugin,manifest) then .active else .registered := by
  have hstates := BTreeMap.get?_foldl_insert_toList candidate.manifests .empty
    (fun plugin manifest => if kernel.retains restart (plugin,manifest) then PluginState.active
      else .registered) plugin
  rwa [BTreeMap.get?_empty, Option.or_none] at hstates

theorem get?_nextInstances (plugin : PluginId) :
    (kernel.nextInstances candidate restart).get? plugin =
      if retained kernel candidate restart plugin then kernel.instances.get? plugin else none := by
  have hcopy := BTreeMap.get?_foldl_copy candidate.manifests kernel.instances .empty
    (kernel.retains restart) plugin
  rw [BTreeMap.get?_empty, Option.or_none] at hcopy
  rw [← retained] at hcopy
  rw [← hcopy, Kernel.nextInstances]
  congr 2
  funext instances entry
  cases kernel.instances.get? entry.1 <;> rfl

theorem nextStates_active (plugin : PluginId) :
    (kernel.nextStates candidate restart).get? plugin = some .active ↔
      retained kernel candidate restart plugin = true := by
  rw [get?_nextStates, retained]
  cases candidate.manifests.get? plugin <;> simp

theorem staged_begin : Staged candidate (kernel.beginReconciliation candidate restart)
    (kernel.beginReconciliation candidate restart) where
  absent plugin hplugin := by
    change (kernel.nextStates candidate restart).get? plugin ≠ some .active at hplugin
    rw [ne_eq, nextStates_active] at hplugin
    exact (get?_nextInstances kernel candidate restart plugin).trans (if_neg hplugin)
  nodup := List.nodup_nil
  active _ hplugin := nomatch hplugin
  configured _ hplugin := nomatch hplugin
  changed _ hplugin := nomatch hplugin
  kept _ _ := ⟨rfl,rfl⟩
  resources _ hplugin := nomatch hplugin
  started := rfl
  stopped := rfl

end Begin

/-- Staged subscriptions have been validated. -/
theorem replaceSubscriptions_of_staged {H : Type} {config : KernelConfig}
    {behaviour : PluginBehaviour H} {graph : ResolvedComponentGraph}
    {instances : BTreeMap PluginId InstanceId} {subscriptions : List (EventSubscription H)}
    (h : stageListenerSubscriptions config behaviour graph instances = .ok subscriptions)
    (bus : EventBus H) : ∃ indexed, indexSubscriptions subscriptions = .ok indexed ∧
      (replaceSubscriptions subscriptions).call bus = (.ok (),bus.commit indexed) := by
  rw [stageListenerSubscriptions, bind_eq_ok] at h
  obtain ⟨staged,-,h⟩ := h
  rw [seq_eq_ok, mapError_eq_ok, validateSubscriptions, bind_eq_ok] at h
  obtain ⟨⟨indexed,hindexed,hvalid⟩,h⟩ := h
  cases h
  have haccepted : (replace subscriptions).accepted bus.subscriptions =
      .ok indexed := by
    rw [accepted, candidate, hindexed, ok_bind, hvalid]
    rfl
  have hcall := (replace subscriptions).perform_call bus
  rw [haccepted] at hcall
  exact ⟨indexed,hindexed,hcall⟩

section Reconcile
variable {H : Type} (kernel : Kernel H) (behaviour : PluginBehaviour H) (candidate : ResolvedHarness)
  (restart : BTreeSet PluginId)

/-- The kernel that runs the candidate. -/
def commitCandidate (staging : Staging) (indexed : Subscriptions H) : Kernel H :=
  { kernel.consume staging with
    graphGeneration := some candidate.generation
    componentGraph := candidate.componentGraph
    activeResources := candidate.resources
    config := candidate.kernelConfig
    states := staging.states
    instances := staging.instances
    events := kernel.events.commit indexed }

/-- What a reconciliation can do. The replacement of the subscriptions never fails. -/
inductive ReconcileStep : Change H → Prop
  | refused : ReconcileStep ⟨.error .partiallyActiveRuntime,kernel,[]⟩
  | unstaged (error : KernelError) (staging : Staging) : kernel.partiallyActive = false →
    kernel.stageCandidate behaviour candidate.kernelConfig restart = (.error error,staging) →
    ReconcileStep ⟨.error error,kernel.consume staging,staging.calls⟩
  | unbound (error : KernelError) (staging : Staging) : kernel.partiallyActive = false →
    kernel.stageCandidate behaviour candidate.kernelConfig restart = (.ok (),staging) →
    ReconcileStep ⟨.error error,kernel.consume (cleanupStaged candidate.kernelConfig staging),
      (cleanupStaged candidate.kernelConfig staging).calls⟩
  | committed (staging : Staging) (indexed : Subscriptions H) : kernel.partiallyActive = false →
    kernel.stageCandidate behaviour candidate.kernelConfig restart = (.ok (),staging) →
    ReconcileStep ⟨.ok (),commitCandidate kernel candidate staging indexed,staging.calls ++
      (kernel.retired candidate.kernelConfig restart).flatMap fun entry =>
        stopCall kernel.config entry.1 entry.2⟩

theorem reconcile_step (restartPlugins : BTreeSet PluginId) : ReconcileStep kernel behaviour candidate
    (runtimeRestartClosure kernel.config candidate.kernelConfig restartPlugins)
    (kernel.reconcileResolvedGeneration behaviour candidate restartPlugins) := by
  unfold Kernel.reconcileResolvedGeneration
  dsimp only
  generalize runtimeRestartClosure kernel.config candidate.kernelConfig restartPlugins = restart
  split_ifs with hstable
  · exact .refused
  · rw [Bool.not_eq_true] at hstable
    generalize hstage : kernel.stageCandidate behaviour candidate.kernelConfig restart = result
    rcases result with ⟨error | _,staging⟩
    · exact .unstaged error staging hstable hstage
    · dsimp only
      cases hlisteners : stageListenerSubscriptions candidate.kernelConfig behaviour
          candidate.componentGraph staging.instances with
      | error error => exact .unbound error staging hstable hstage
      | ok subscriptions =>
        obtain ⟨indexed,-,hreplace⟩ := replaceSubscriptions_of_staged hlisteners kernel.events
        dsimp only
        rw [hreplace]
        exact .committed staging indexed hstable hstage

/-- The staging of a candidate keeps its invariant or cleans up. -/
theorem staged_stageCandidate (config : KernelConfig) :
    match kernel.stageCandidate behaviour config restart with
    | (.ok _,staging) => Staged config (kernel.beginReconciliation config restart) staging
    | (.error _,staging) => CleanedUp staging.calls := by
  have hbegin := staged_begin kernel config restart
  unfold Kernel.stageCandidate
  split_ifs
  · have hrun := hbegin.run kernel.embeddedFactories behaviour fun entry hentry =>
      (mem_orderedManifests config entry).mp hentry
    generalize stageAll _ config behaviour _ _ = result at hrun ⊢
    rcases result with ⟨error | _,staging⟩
    · exact hrun
    · exact hrun.1
  · exact hbegin

end Reconcile

/-- The composition that a kernel runs. -/
structure SameComposition {H : Type} (kernel kernel' : Kernel H) : Prop where
  config : kernel'.config = kernel.config
  states : kernel'.states = kernel.states
  instances : kernel'.instances = kernel.instances
  graphGeneration : kernel'.graphGeneration = kernel.graphGeneration
  componentGraph : kernel'.componentGraph = kernel.componentGraph
  activeResources : kernel'.activeResources = kernel.activeResources
  events : kernel'.events = kernel.events
  runtimeActive : kernel'.runtimeActive = kernel.runtimeActive

theorem sameComposition_refl {H : Type} (kernel : Kernel H) : SameComposition kernel kernel :=
  ⟨rfl,rfl,rfl,rfl,rfl,rfl,rfl,rfl⟩

theorem sameComposition_consume {H : Type} (kernel : Kernel H) (staging : Staging) :
    SameComposition kernel (kernel.consume staging) := ⟨rfl,rfl,rfl,rfl,rfl,rfl,rfl,rfl⟩

/-- A reconciliation that fails leaves the composition as it was, and has stopped every instance
that it started, the last first. -/
theorem reconciliation_all_or_nothing {H : Type} (kernel : Kernel H) (behaviour : PluginBehaviour H)
    (candidate : ResolvedHarness) (restartPlugins : BTreeSet PluginId) (error : KernelError)
    (h : (kernel.reconcileResolvedGeneration behaviour candidate restartPlugins).outcome =
      .error error) :
    SameComposition kernel
        (kernel.reconcileResolvedGeneration behaviour candidate restartPlugins).kernel ∧
      CleanedUp (kernel.reconcileResolvedGeneration behaviour candidate restartPlugins).calls := by
  have hstaged := staged_stageCandidate kernel behaviour
    (runtimeRestartClosure kernel.config candidate.kernelConfig restartPlugins) candidate.kernelConfig
  generalize hchange : kernel.reconcileResolvedGeneration behaviour candidate restartPlugins = change at h ⊢
  have hstep : ReconcileStep kernel behaviour candidate _ change :=
    hchange ▸ reconcile_step kernel behaviour candidate restartPlugins
  cases hstep with
  | refused => exact ⟨sameComposition_refl kernel,cleanedUp_nil⟩
  | unstaged error staging hstable hstage =>
    rw [hstage] at hstaged
    exact ⟨sameComposition_consume kernel staging,hstaged⟩
  | unbound error staging hstable hstage =>
    rw [hstage] at hstaged
    exact ⟨sameComposition_consume kernel _,hstaged.cleanedUp_now⟩
  | committed staging indexed hstable hstage => cases h

/-! ### Of two new plugins the second does not start -/

def firstPlugin : PluginId := ⟨"first",by decide⟩
def secondPlugin : PluginId := ⟨"second",by decide⟩

def embedded (id : PluginId) : PluginManifest :=
  ⟨id,1,.embedded,[],[],[],.new []⟩

/-- A harness that only has a kernel configuration. -/
def harnessOf (config : KernelConfig) : ResolvedHarness where
  generation := ⟨"sha256:demo"⟩
  plugins := config.manifests.values
  components := []
  durableSchemas := []
  resources := []
  configuration := ⟨[]⟩
  kernelConfig := config
  componentGraph := ⟨.empty,[]⟩
  layerPolicies := .empty
  providerPolicy := ⟨.empty⟩

/-- An active kernel without plugins that has the factories of the two. -/
def idleKernel (config : KernelConfig) : Kernel Unit :=
  { Kernel.new config with
    embeddedFactories := BTreeSet.collect [firstPlugin,secondPlugin]
    runtimeActive := true }

/-- The second plugin fails to start. -/
def secondFails : PluginBehaviour Unit where
  runtimeProvider _ := false
  prepare _ := ⟨.panicked,false⟩
  start plugin := ⟨.returned (if plugin = secondPlugin then .error "no port" else .ok ()),false⟩
  bindListener _ _ := .panicked

/-- The change that fails, and its calls. -/
theorem exists_failedChange : ∃ config candidate error, new 0 [] = .ok config ∧
    new 1 [embedded firstPlugin,embedded secondPlugin] = .ok candidate ∧
    ((idleKernel config).reconcileResolvedGeneration secondFails (harnessOf candidate) .empty).outcome =
      .error error ∧
    ((idleKernel config).reconcileResolvedGeneration secondFails (harnessOf candidate) .empty).calls =
      [.start firstPlugin 0 none,.start secondPlugin 1 (some "no port"),.stop firstPlugin 0] := by
  have hrun : (match new 0 [],
      new 1 [embedded firstPlugin,embedded secondPlugin] with
    | .ok config,.ok candidate =>
      let change := (idleKernel config).reconcileResolvedGeneration secondFails (harnessOf candidate) .empty
      change.outcome.toOption.isNone && change.calls = [.start firstPlugin 0 none,
        .start secondPlugin 1 (some "no port"),.stop firstPlugin 0]
    | .ok _,.error _ | .error _,_ => false) = true := by decide +kernel
  split at hrun
  · next config candidate hconfig hcandidate =>
    rw [Bool.and_eq_true, decide_eq_true_eq] at hrun
    obtain ⟨hnone,hcalls⟩ := hrun
    cases houtcome : ((idleKernel config).reconcileResolvedGeneration secondFails (harnessOf candidate)
        .empty).outcome with
    | error error => exact ⟨config,candidate,error,hconfig,hcandidate,houtcome,hcalls⟩
    | ok _ =>
      rw [houtcome] at hnone
      cases hnone
  · cases hrun
  · cases hrun

theorem failedChange_undone : ∃ config candidate, new 0 [] = .ok config ∧
    new 1 [embedded firstPlugin,embedded secondPlugin] = .ok candidate ∧
    SameComposition (idleKernel config) ((idleKernel config).reconcileResolvedGeneration secondFails
      (harnessOf candidate) .empty).kernel ∧
    CleanedUp [.start firstPlugin 0 none,.start secondPlugin 1 (some "no port"),
      .stop firstPlugin 0] := by
  obtain ⟨config,candidate,error,hconfig,hcandidate,houtcome,hcalls⟩ := exists_failedChange
  obtain ⟨hsame,hclean⟩ := reconciliation_all_or_nothing (idleKernel config) secondFails
    (harnessOf candidate) .empty error houtcome
  rw [hcalls] at hclean
  exact ⟨config,candidate,hconfig,hcandidate,hsame,hclean⟩

end PhenixConductor.Runtime
