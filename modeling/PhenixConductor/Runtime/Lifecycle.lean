import PhenixConductor.Runtime.Rollback

/-! # The instances of a kernel over whole runs

Whatever happens to a kernel, an instance belongs to an active plugin, an active
plugin has an instance unless it is a resource, and no instance can be prepared
while it runs.
-/
namespace PhenixConductor.Runtime
open Collections Contract Component PhenixConductor.Kernel Harness BTreeMap
open Kernel (new)

/-- What holds of the instances of a kernel and of the local variables of an activation. -/
structure Sound (config : KernelConfig) (states : BTreeMap PluginId PluginState)
    (instances preparedInstances : BTreeMap PluginId InstanceId) (next : InstanceId) : Prop where
  known : ∀ plugin, plugin ∈ states.keys ↔ plugin ∈ config.manifests.keys
  active : ∀ plugin instanceId, instances.get? plugin = some instanceId →
    states.get? plugin = some .active
  resources : ∀ plugin manifest, config.manifests.get? plugin = some manifest →
    states.get? plugin = some .active →
      (instances.get? plugin = none ↔ manifest.execution.isResourceOnly = true)
  prepared : ∀ plugin instanceId, preparedInstances.get? plugin = some instanceId → instanceId < next
  numbered : ∀ plugin instanceId, instances.get? plugin = some instanceId →
    instanceId < next ∧ preparedInstances.get? plugin ≠ some instanceId

def Staging.Sound (config : KernelConfig) (now : Staging) : Prop :=
  Runtime.Sound config now.states now.instances now.preparedEmbeddedInstances now.nextInstance

structure Kernel.Sound {H : Type} (kernel : Kernel H) : Prop where
  instances : Runtime.Sound kernel.config kernel.states kernel.instances
    kernel.preparedEmbeddedInstances kernel.nextInstance
  idle : kernel.runtimeActive = false → ∀ plugin, kernel.instances.get? plugin = none

section Staging
variable {config : KernelConfig} {first now : Staging}

theorem Staging.Sound.begin_staged (h : first.Sound config) (hstaged : first.staged = [])
    (hcalls : first.calls = []) : Staged config first first := by
  constructor
  · intro plugin hplugin
    by_contra hsome
    obtain ⟨instanceId,hget⟩ := Option.ne_none_iff_exists'.mp hsome
    exact hplugin (h.active plugin instanceId hget)
  · rw [hstaged]
    exact List.nodup_nil
  · simp [hstaged]
  · simp [hstaged]
  · simp [hstaged]
  · exact fun _ _ => ⟨rfl,rfl⟩
  · simp [hstaged]
  · rw [hcalls, hstaged]
    rfl
  · rw [hcalls]
    rfl

theorem Staging.Sound.begin_numbered (h : first.Sound config) (hstaged : first.staged = []) :
    Numbered first first :=
  ⟨⟨fun _ _ hget => hget,le_rfl⟩,h.prepared,by simp [hstaged]⟩

/-- A staging keeps what it begins with. -/
theorem Staging.Sound.of_staged (h : first.Sound config) (hstaged : Staged config first now)
    (hnumbered : Numbered first now) : now.Sound config := by
  constructor
  · intro plugin
    by_cases hplugin : plugin ∈ now.staged
    · have hactive := hstaged.active plugin hplugin
      exact iff_of_true (now.states.mem_keys_iff.mpr (by simp [hactive]))
        (hstaged.configured plugin hplugin)
    · rw [now.states.mem_keys_iff, (hstaged.kept plugin hplugin).1, ← first.states.mem_keys_iff]
      exact h.known plugin
  · intro plugin instanceId hget
    by_cases hplugin : plugin ∈ now.staged
    · exact hstaged.active plugin hplugin
    · obtain ⟨hstates,hinstances⟩ := hstaged.kept plugin hplugin
      rw [hstates]
      exact h.active plugin instanceId (hinstances ▸ hget)
  · intro plugin manifest hmanifest hactive
    by_cases hplugin : plugin ∈ now.staged
    · exact hstaged.resources plugin hplugin manifest hmanifest
    · obtain ⟨hstates,hinstances⟩ := hstaged.kept plugin hplugin
      rw [hinstances]
      exact h.resources plugin manifest hmanifest (hstates ▸ hactive)
  · intro plugin instanceId hget
    exact (h.prepared plugin instanceId (hnumbered.taken plugin instanceId hget)).trans_le hnumbered.next
  · intro plugin instanceId hget
    by_cases hplugin : plugin ∈ now.staged
    · obtain ⟨hprepared,hlt,-⟩ := hnumbered.made plugin hplugin instanceId hget
      exact ⟨hlt,hprepared⟩
    · rw [(hstaged.kept plugin hplugin).2] at hget
      obtain ⟨hlt,hprepared⟩ := h.numbered plugin instanceId hget
      exact ⟨hlt.trans_le hnumbered.next,fun htaken =>
        hprepared (hnumbered.taken plugin instanceId htaken)⟩

end Staging

section Kernel
variable {H : Type} {kernel : Kernel H} {staging : Staging}

/-- What a staging has taken when it fails is lost and nothing else. -/
theorem Kernel.Sound.consume (h : kernel.Sound)
    (htaken : ∀ plugin instanceId, staging.preparedEmbeddedInstances.get? plugin = some instanceId →
      kernel.preparedEmbeddedInstances.get? plugin = some instanceId)
    (hnext : kernel.nextInstance ≤ staging.nextInstance) : (kernel.consume staging).Sound := by
  refine ⟨⟨h.instances.known,h.instances.active,h.instances.resources,?_,?_⟩,h.idle⟩
  · intro plugin instanceId hget
    exact (h.instances.prepared plugin instanceId (htaken plugin instanceId hget)).trans_le hnext
  · intro plugin instanceId hget
    obtain ⟨hlt,hprepared⟩ := h.instances.numbered plugin instanceId hget
    exact ⟨hlt.trans_le hnext,fun hprepared' => hprepared (htaken plugin instanceId hprepared')⟩

theorem sound_new (config : KernelConfig) : (new config : Kernel H).Sound := by
  refine ⟨⟨fun _ => Iff.rfl,?_,?_,?_,?_⟩,?_⟩
  · simp [new]
  · intro plugin manifest _ hactive
    simp [new] at hactive
  · simp [new]
  · simp [new]
  · simp [new]

/-- Equal manifests are resources or both not. -/
theorem isResourceOnly_of_partialEq {manifest manifest' : PluginManifest}
    (h : manifest.partialEq manifest' = true) :
    manifest.execution.isResourceOnly = manifest'.execution.isResourceOnly := by
  unfold PluginManifest.partialEq at h
  simp only [Bool.and_eq_true] at h
  cases hleft : manifest.execution <;> cases hright : manifest'.execution <;>
    simp_all [PluginExecution.partialEq, PluginExecution.isResourceOnly]

theorem active_of_not_partiallyActive (h : kernel.partiallyActive = false)
    (hactive : kernel.runtimeActive = true) {plugin : PluginId} (hplugin : plugin ∈ kernel.states.keys) :
    kernel.states.get? plugin = some .active := by
  simp only [Kernel.partiallyActive, hactive, Bool.true_and, Bool.not_true, Bool.false_and,
    Bool.or_false, Bool.not_eq_false', List.all_eq_true, decide_eq_true_eq] at h
  obtain ⟨state,hget⟩ := Option.isSome_iff_exists.mp (kernel.states.mem_keys_iff.mp hplugin)
  rw [hget, h state (kernel.states.mem_values.mpr ⟨plugin,hget⟩)]

/-- The first loop of a reconciliation keeps active plugins with their instances. -/
theorem Kernel.Sound.begin_reconciliation (h : kernel.Sound) (hstable : kernel.partiallyActive = false)
    (config : KernelConfig) (restart : BTreeSet PluginId) :
    (kernel.beginReconciliation config restart).Sound config := by
  constructor
  · intro plugin
    change plugin ∈ (kernel.nextStates config restart).keys ↔ _
    rw [mem_keys_iff, mem_keys_iff, get?_nextStates, Option.isSome_map]
  · intro plugin instanceId hget
    have hget' := (get?_nextInstances kernel config restart plugin).symm.trans hget
    split_ifs at hget' with hretained
    exact (nextStates_active kernel config restart plugin).mpr hretained
  · intro plugin manifest hmanifest hactive
    have hretained := (nextStates_active kernel config restart plugin).mp hactive
    have hinstances : (kernel.nextInstances config restart).get? plugin = kernel.instances.get? plugin :=
      (get?_nextInstances kernel config restart plugin).trans (if_pos hretained)
    rw [retained, hmanifest, Option.any_some, Kernel.retains, Bool.and_eq_true, Bool.and_eq_true,
      manifestKept, Option.any_eq_true] at hretained
    obtain ⟨⟨hruntime,-⟩,old,hold,hkept⟩ := hretained
    have hknown : plugin ∈ kernel.states.keys :=
      (h.instances.known plugin).mpr (kernel.config.manifests.mem_keys_iff.mpr (by simp [hold]))
    rw [← isResourceOnly_of_partialEq hkept]
    change (kernel.nextInstances config restart).get? plugin = none ↔ _
    rw [hinstances]
    exact h.instances.resources plugin old hold (active_of_not_partiallyActive hstable hruntime hknown)
  · exact h.instances.prepared
  · intro plugin instanceId hget
    have hget' := (get?_nextInstances kernel config restart plugin).symm.trans hget
    split_ifs at hget'
    exact h.instances.numbered plugin instanceId hget'

theorem Kernel.Sound.begin_activation (h : kernel.Sound) :
    kernel.beginActivation.Sound kernel.config := by
  cases hruntime : kernel.runtimeActive with
  | true =>
    have hsame : kernel.beginActivation = ⟨kernel.states,kernel.instances,[],
        kernel.preparedEmbeddedInstances,kernel.nextInstance,[]⟩ := by
      simp [Kernel.beginActivation, hruntime]
    rw [hsame]
    exact h.instances
  | false =>
    have hfresh : kernel.beginActivation = ⟨kernel.config.manifests.mapVal fun _ => .registered,.empty,[],
        kernel.preparedEmbeddedInstances,kernel.nextInstance,[]⟩ := by
      simp [Kernel.beginActivation, hruntime]
    rw [hfresh]
    refine ⟨fun _ => Iff.rfl,?_,?_,h.instances.prepared,?_⟩
    · simp
    · intro plugin manifest _ hactive
      simp at hactive
    · simp

/-- A staging that begins sound ends sound, or has only taken instances and numbers. -/
theorem Staging.Sound.run {config : KernelConfig} {first : Staging} (h : first.Sound config)
    (hstaged : first.staged = []) (hcalls : first.calls = []) (factories : BTreeSet PluginId)
    (behaviour : PluginBehaviour H) :
    match stageAll factories config behaviour (orderedManifests config) first with
    | (.ok _,next) => next.Sound config ∧ Numbered first next
    | (.error _,next) => Consumed first next := by
  have hentries : ∀ entry ∈ orderedManifests config, config.manifests.get? entry.1 = some entry.2 :=
    fun entry hentry => (mem_orderedManifests config entry).mp hentry
  have hrun := (h.begin_staged hstaged hcalls).run factories behaviour hentries
  have hnumbered := (h.begin_numbered hstaged).run factories behaviour
    (h.begin_staged hstaged hcalls) hentries
  generalize stageAll factories config behaviour _ first = result at hrun hnumbered ⊢
  rcases result with ⟨error | _,next⟩
  · exact hnumbered
  · exact ⟨h.of_staged hrun.1 hnumbered,hnumbered⟩

theorem Kernel.Sound.stageCandidate (h : kernel.Sound) (hstable : kernel.partiallyActive = false)
    (behaviour : PluginBehaviour H) (config : KernelConfig) (restart : BTreeSet PluginId) :
    match kernel.stageCandidate behaviour config restart with
    | (.ok _,next) => next.Sound config ∧ Numbered (kernel.beginReconciliation config restart) next
    | (.error _,next) => Consumed (kernel.beginReconciliation config restart) next := by
  have hbegin := h.begin_reconciliation hstable config restart
  unfold Kernel.stageCandidate
  split_ifs
  · exact hbegin.run rfl rfl kernel.embeddedFactories behaviour
  · exact ⟨hbegin,hbegin.begin_numbered rfl⟩

theorem Kernel.Sound.reconcile (h : kernel.Sound) (behaviour : PluginBehaviour H)
    (candidate : ResolvedHarness) (restartPlugins : BTreeSet PluginId) :
    (kernel.reconcileResolvedGeneration behaviour candidate restartPlugins).kernel.Sound := by
  generalize hchange : kernel.reconcileResolvedGeneration behaviour candidate restartPlugins = change
  have hstep : ReconcileStep kernel behaviour candidate _ change :=
    hchange ▸ reconcile_step kernel behaviour candidate restartPlugins
  cases hstep with
  | refused => exact h
  | unstaged error staging hstable hstage =>
    have hconsumed := h.stageCandidate hstable behaviour candidate.kernelConfig
      (runtimeRestartClosure kernel.config candidate.kernelConfig restartPlugins)
    rw [hstage] at hconsumed
    exact h.consume hconsumed.taken hconsumed.next
  | unbound error staging hstable hstage =>
    have hsound := h.stageCandidate hstable behaviour candidate.kernelConfig
      (runtimeRestartClosure kernel.config candidate.kernelConfig restartPlugins)
    rw [hstage] at hsound
    have hconsumed := hsound.2.toConsumed
    exact h.consume hconsumed.taken hconsumed.next
  | committed staging indexed hstable hstage =>
    have hsound := h.stageCandidate hstable behaviour candidate.kernelConfig
      (runtimeRestartClosure kernel.config candidate.kernelConfig restartPlugins)
    rw [hstage] at hsound
    refine ⟨hsound.1,fun hidle plugin => ?_⟩
    have hruntime : kernel.runtimeActive = false := hidle
    unfold Kernel.stageCandidate at hstage
    rw [if_neg (by simp [hruntime])] at hstage
    cases hstage
    refine (get?_nextInstances kernel candidate.kernelConfig _ plugin).trans ?_
    split_ifs
    · exact h.idle hruntime plugin
    · rfl

theorem Kernel.Sound.activateAll (h : kernel.Sound) (behaviour : PluginBehaviour H) :
    (kernel.activateAll behaviour).kernel.Sound := by
  have hrun := h.begin_activation.run rfl rfl kernel.embeddedFactories behaviour
  unfold Kernel.activateAll
  split_ifs
  · exact h
  · generalize stageAll kernel.embeddedFactories kernel.config behaviour _ _ = result at hrun ⊢
    rcases result with ⟨error | _,next⟩
    · exact h.consume hrun.taken hrun.next
    · have hconsumed := hrun.2.toConsumed
      dsimp only
      split
      · exact h.consume hconsumed.taken hconsumed.next
      · split
        · have hkept : (kernel.consume next).Sound := h.consume hconsumed.taken hconsumed.next
          exact ⟨hkept.instances,hkept.idle⟩
        · exact ⟨hrun.1,fun hidle => nomatch hidle⟩

theorem Kernel.Sound.stop (h : kernel.Sound) (plugin : PluginId) (call : HostCall) :
    (kernel.stop plugin call).kernel.Sound := by
  unfold Kernel.stop
  split
  · exact h
  · next manifest hmanifest =>
    have hconfigured : plugin ∈ kernel.config.manifests.keys := by
      rw [mem_keys_iff]
      exact Option.isSome_of_eq_some hmanifest
    have hstopped : Kernel.Sound { kernel with
        instances := kernel.instances.erase plugin
        states := kernel.states.insert plugin .stopped } := by
      refine ⟨⟨?_,?_,?_,h.instances.prepared,?_⟩,?_⟩
      · intro other
        rw [mem_keys_insert, h.instances.known]
        constructor
        · rintro (rfl | hother)
          · exact hconfigured
          · exact hother
        · exact Or.inr
      · intro other instanceId hget
        rw [get?_erase] at hget
        split_ifs at hget with hother
        rw [get?_insert_of_ne _ _ hother]
        exact h.instances.active other instanceId hget
      · intro other manifest hmanifest hactive
        rw [get?_insert] at hactive
        split_ifs at hactive with hother
        · cases hactive
        · rw [get?_erase_of_ne _ hother]
          exact h.instances.resources other manifest hmanifest hactive
      · intro other instanceId hget
        rw [get?_erase] at hget
        split_ifs at hget
        exact h.instances.numbered other instanceId hget
      · intro hidle other
        rw [get?_erase, h.idle hidle other, ite_self]
    split
    · exact hstopped
    · split
      · split_ifs
        · exact h
        · exact hstopped
      · exact h
      · exact h

end Kernel

/-- What can happen to a kernel between calls of its plugins. -/
inductive KernelCommand (H : Type) where
  | preloadEmbeddedFactory (plugin : PluginId)
  | registerEmbeddedFactory (plugin : PluginId)
  | preloadEmbeddedInstance (plugin : PluginId)
  | installResolvedGraph (generation : GraphGenerationId) (graph : ResolvedComponentGraph)
    (resources : List SkillResourceMetadata)
  | activateAll (behaviour : PluginBehaviour H)
  | stop (plugin : PluginId) (call : HostCall)
  | reconcile (behaviour : PluginBehaviour H) (candidate : ResolvedHarness)
    (restartPlugins : BTreeSet PluginId)

def KernelCommand.perform {H : Type} (kernel : Kernel H) : KernelCommand H → Kernel H
  | .preloadEmbeddedFactory plugin => kernel.preloadEmbeddedFactory plugin
  | .registerEmbeddedFactory plugin => ((kernel.registerEmbeddedFactory plugin).toOption).getD kernel
  | .preloadEmbeddedInstance plugin => kernel.preloadEmbeddedInstance plugin
  | .installResolvedGraph generation graph resources =>
    kernel.installResolvedGraph generation graph resources
  | .activateAll behaviour => (kernel.activateAll behaviour).kernel
  | .stop plugin call => (kernel.stop plugin call).kernel
  | .reconcile behaviour candidate restartPlugins =>
    (kernel.reconcileResolvedGeneration behaviour candidate restartPlugins).kernel

/-- The kernels that a run can lead to. -/
def Kernel.Reachable {H : Type} (kernel : Kernel H) : Prop :=
  ∃ config commands, kernel = runAll KernelCommand.perform (Kernel.new config) commands

section Run
variable {H : Type} {kernel : Kernel H}

theorem Kernel.Sound.preloadEmbeddedInstance (h : kernel.Sound) (plugin : PluginId) :
    (kernel.preloadEmbeddedInstance plugin).Sound := by
  refine ⟨⟨h.instances.known,h.instances.active,h.instances.resources,?_,?_⟩,h.idle⟩
  · intro other instanceId hget
    change (kernel.preparedEmbeddedInstances.insert plugin kernel.nextInstance).get? other = _ at hget
    rw [get?_insert] at hget
    split_ifs at hget
    · cases hget
      exact Nat.lt_succ_self _
    · exact (h.instances.prepared other instanceId hget).trans (Nat.lt_succ_self _)
  · intro other instanceId hget
    obtain ⟨hlt,hprepared⟩ := h.instances.numbered other instanceId hget
    refine ⟨hlt.trans (Nat.lt_succ_self _),fun hprepared' => ?_⟩
    change (kernel.preparedEmbeddedInstances.insert plugin kernel.nextInstance).get? other = _ at hprepared'
    rw [get?_insert] at hprepared'
    split_ifs at hprepared'
    · cases hprepared'
      exact lt_irrefl _ hlt
    · exact hprepared hprepared'

/-- Every command keeps the kernel sound. -/
theorem Kernel.Sound.perform (h : kernel.Sound) (command : KernelCommand H) :
    (command.perform kernel).Sound := by
  cases command with
  | preloadEmbeddedFactory plugin => exact ⟨h.instances,h.idle⟩
  | registerEmbeddedFactory plugin =>
    rw [KernelCommand.perform, Kernel.registerEmbeddedFactory]
    split
    · exact h
    · split
      · exact ⟨h.instances,h.idle⟩
      · exact h
      · exact h
  | preloadEmbeddedInstance plugin => exact h.preloadEmbeddedInstance plugin
  | installResolvedGraph generation graph resources => exact ⟨h.instances,h.idle⟩
  | activateAll behaviour => exact h.activateAll behaviour
  | stop plugin call => exact h.stop plugin call
  | reconcile behaviour candidate restartPlugins => exact h.reconcile behaviour candidate restartPlugins

theorem Kernel.Reachable.sound (h : kernel.Reachable) : kernel.Sound := by
  obtain ⟨config,commands,rfl⟩ := h
  exact runAll_invariant (fun _ command hsound => hsound.perform command) commands (sound_new config)

end Run
end PhenixConductor.Runtime
