import PhenixConductor.Runtime.Lifecycle

/-! # Which instances survive a reconciliation

The candidate keeps exactly the plugins outside of the restart closure.
-/
namespace PhenixConductor.Runtime
open Collections Contract Component PhenixConductor.Kernel Harness Relation BTreeMap KernelConfig
open Option (any_eq_true any_some isSome_iff_exists ne_none_iff_exists')

section Closure
variable (active candidate : KernelConfig) (requested : BTreeSet PluginId)

/-- A set of plugins that can restart together: with the requested plugins, those whose manifest
or binding changes, and the guests of every provider in it. -/
structure RestartClosed (restart : Set PluginId) : Prop where
  requested : marks requested ⊆ restart
  manifests : ∀ plugin manifest, candidate.manifests.get? plugin = some manifest →
    manifestKept active plugin manifest = false → plugin ∈ restart
  bindings : ∀ guest binding, candidate.runtimeBinding guest = some binding →
    active.runtimeBinding guest ≠ some binding → guest ∈ restart
  providers : ∀ guest binding, candidate.runtimeBinding guest = some binding →
    binding.provider ∈ restart → guest ∈ restart

theorem mem_restartBegin (plugin : PluginId) :
    plugin ∈ (restartBegin active candidate requested).keys ↔ plugin ∈ requested.keys ∨
      ∃ manifest, candidate.manifests.get? plugin = some manifest ∧
        manifestKept active plugin manifest = false := by
  have hfold : ∀ (l : List (PluginId × PluginManifest)) (restart : BTreeSet PluginId),
      plugin ∈ (l.foldl (fun restart entry =>
        if !manifestKept active entry.1 entry.2 then restart.insert entry.1 () else restart)
          restart).keys ↔ plugin ∈ restart.keys ∨
        ∃ manifest, (plugin,manifest) ∈ l ∧ manifestKept active plugin manifest = false := by
    intro l
    induction l with
    | nil => simp
    | cons entry l ih =>
      intro restart
      rcases entry with ⟨other,manifest⟩
      rw [List.foldl_cons, ih]
      cases hkept : manifestKept active other manifest with
      | false =>
        simp only [Bool.not_false, if_true, mem_keys_insert, List.mem_cons, Prod.mk.injEq]
        constructor
        · rintro ((rfl | hrestart) | ⟨manifest',hmem,hchanged⟩)
          · exact .inr ⟨manifest,.inl ⟨rfl,rfl⟩,hkept⟩
          · exact .inl hrestart
          · exact .inr ⟨manifest',.inr hmem,hchanged⟩
        · rintro (hrestart | ⟨manifest',⟨rfl,rfl⟩ | hmem,hchanged⟩)
          · exact .inl (.inr hrestart)
          · exact .inl (.inl rfl)
          · exact .inr ⟨manifest',hmem,hchanged⟩
      | true =>
        simp only [Bool.not_true, Bool.false_eq_true, if_false, List.mem_cons, Prod.mk.injEq]
        constructor
        · rintro (hrestart | ⟨manifest',hmem,hchanged⟩)
          · exact .inl hrestart
          · exact .inr ⟨manifest',.inr hmem,hchanged⟩
        · rintro (hrestart | ⟨manifest',⟨rfl,rfl⟩ | hmem,hchanged⟩)
          · exact .inl hrestart
          · rw [hkept] at hchanged
            cases hchanged
          · exact .inr ⟨manifest',hmem,hchanged⟩
  rw [restartBegin, hfold]
  simp only [mem_toList]

/-- The bindings of a configuration are known by their guests. -/
theorem mem_runtimeBindings (config : KernelConfig) (binding : RuntimeBinding) :
    binding ∈ config.runtimeBindings.values ↔ config.runtimeBinding binding.guest = some binding := by
  rw [mem_values]
  constructor
  · rintro ⟨plugin,hget⟩
    rw [(config.bound plugin binding hget).guest]
    exact hget
  · intro hget
    exact ⟨binding.guest,hget⟩

/-- The loop computes the least set that can restart. -/
theorem runtimeRestartClosure_isLeast :
    IsLeast {restart | RestartClosed active candidate requested restart}
      (marks (runtimeRestartClosure active candidate requested)) := by
  unfold runtimeRestartClosure
  constructor
  · have hgrows := (restartRules active).saturate_grows candidate.runtimeBindings.values
      (restartBegin active candidate requested)
    have hturn := (restartRules active).turn_saturate candidate.runtimeBindings.values
      (restartBegin active candidate requested)
    have hguest : ∀ guest binding, candidate.runtimeBinding guest = some binding →
        guest = binding.guest ∧ binding ∈ candidate.runtimeBindings.values := by
      intro guest binding hget
      have hsame := (candidate.bound guest binding hget).guest
      exact ⟨hsame.symm,(mem_runtimeBindings candidate binding).mpr (hsame ▸ hget)⟩
    generalize (restartRules active).saturate _ _ = closure at hgrows hturn ⊢
    refine ⟨?_,?_,?_,?_⟩
    · intro plugin hplugin
      exact hgrows ((mem_restartBegin active candidate requested plugin).mpr (.inl hplugin))
    · intro plugin manifest hmanifest hchanged
      exact hgrows ((mem_restartBegin active candidate requested plugin).mpr
        (.inr ⟨manifest,hmanifest,hchanged⟩))
    · intro guest binding hget hchanged
      obtain ⟨rfl,hmem⟩ := hguest guest binding hget
      have hin := (mem_restartGuest active closure binding binding.guest).mpr (.inr ⟨rfl,.inl hchanged⟩)
      have hsame : restartGuest active closure binding = closure := hturn binding hmem
      rwa [hsame] at hin
    · intro guest binding hget hprovider
      obtain ⟨rfl,hmem⟩ := hguest guest binding hget
      have hin := (mem_restartGuest active closure binding binding.guest).mpr (.inr ⟨rfl,.inr hprovider⟩)
      have hsame : restartGuest active closure binding = closure := hturn binding hmem
      rwa [hsame] at hin
  · intro restart hclosed
    apply RuleSystem.saturate_least
    · intro binding hbinding marked hmarked plugin hplugin
      have hget := (mem_runtimeBindings candidate binding).mp hbinding
      rcases (mem_restartGuest active marked binding plugin).mp hplugin with
        hplugin | ⟨rfl,hchanged | hprovider⟩
      · exact hmarked hplugin
      · exact hclosed.bindings _ binding hget hchanged
      · exact hclosed.providers _ binding hget (hmarked hprovider)
    · intro plugin hplugin
      rcases (mem_restartBegin active candidate requested plugin).mp hplugin with
        hplugin | ⟨manifest,hmanifest,hchanged⟩
      · exact hclosed.requested hplugin
      · exact hclosed.manifests plugin manifest hmanifest hchanged

end Closure

section Survivors
variable {H : Type} {kernel : Kernel H} {candidate : ResolvedHarness}
  {restart : BTreeSet PluginId} {staging : Staging}

variable {manifest : PluginManifest}

theorem manifestKept_comm {active candidate : KernelConfig} {plugin : PluginId}
    {old : PluginManifest} (hold : active.manifests.get? plugin = some old)
    (hmanifest : candidate.manifests.get? plugin = some manifest) :
    manifestKept candidate plugin old = manifestKept active plugin manifest := by
  rw [manifestKept, manifestKept, hold, hmanifest, any_some, any_some,
    PluginManifest.partialEq_comm]

variable {config : KernelConfig} {requested : BTreeSet PluginId}

/-- Outside of the closure every plugin of the candidate is kept. -/
theorem retained_iff (hactive : kernel.runtimeActive = true) (plugin : PluginId) :
    retained kernel config (runtimeRestartClosure kernel.config config requested) plugin = true ↔
      plugin ∈ config.manifests.keys ∧
        plugin ∉ marks (runtimeRestartClosure kernel.config config requested) := by
  have hclosed := (runtimeRestartClosure_isLeast kernel.config config requested).1
  rw [retained, any_eq_true, mem_keys_iff, isSome_iff_exists]
  simp only [Kernel.retains, hactive, Bool.true_and, Bool.and_eq_true, decide_eq_true_eq]
  constructor
  · rintro ⟨manifest,hmanifest,hout,-⟩
    exact ⟨⟨manifest,hmanifest⟩,hout⟩
  · rintro ⟨⟨manifest,hmanifest⟩,hout⟩
    refine ⟨manifest,hmanifest,hout,?_⟩
    by_contra hchanged
    exact hout (hclosed.manifests plugin manifest hmanifest (Bool.eq_false_iff.mpr hchanged))

/-- The retired instances are those of the configured plugins that are not kept. -/
theorem mem_retired (hactive : kernel.runtimeActive = true) {plugin : PluginId}
    {instanceId : InstanceId} (hconfigured : plugin ∈ kernel.config.manifests.keys)
    (hget : kernel.instances.get? plugin = some instanceId) :
    (plugin,instanceId) ∈ kernel.retired config restart ↔
      retained kernel config restart plugin = false := by
  obtain ⟨old,hold⟩ := isSome_iff_exists.mp (kernel.config.manifests.mem_keys_iff.mp hconfigured)
  have hmem : (plugin,instanceId) ∈ kernel.retired config restart ↔
      manifestKept config plugin old = false ∨ plugin ∈ restart.keys := by
    simp only [Kernel.retired, List.mem_filterMap, List.mem_filter, Option.map_eq_some_iff,
      Prod.exists, mem_toList, Prod.mk.injEq, Bool.or_eq_true, Bool.not_eq_true',
      decide_eq_true_eq]
    constructor
    · rintro ⟨_,_,⟨hmanifest,hor⟩,_,-,rfl,-⟩
      obtain rfl := Option.some.inj (hold.symm.trans hmanifest)
      exact hor
    · intro hor
      exact ⟨plugin,old,⟨hold,hor⟩,instanceId,hget,rfl,rfl⟩
  rw [hmem, retained]
  cases hmanifest : config.manifests.get? plugin with
  | none =>
    have hgone : manifestKept config plugin old = false := by rw [manifestKept, hmanifest, Option.any_none]
    exact iff_of_true (.inl hgone) rfl
  | some manifest =>
    rw [any_some, Kernel.retains, hactive, Bool.true_and, Bool.and_eq_false_iff,
      manifestKept_comm hold hmanifest, decide_eq_false_iff_not, not_not, or_comm]

theorem nodup_retired (config : KernelConfig) (restart : BTreeSet PluginId) :
    (kernel.retired config restart).Nodup := by
  have hrunning : kernel.retired config restart = running kernel.instances
      ((kernel.config.manifests.toList.filter fun entry =>
        !manifestKept config entry.1 entry.2 || entry.1 ∈ restart.keys).map (·.1)) := by
    rw [running, List.filterMap_map]
    rfl
  rw [hrunning]
  apply nodup_running
  apply List.Nodup.sublist (List.filter_sublist.map _)
  rw [map_fst_toList]
  exact kernel.config.manifests.nodup_keys

theorem instance_of_mem_retired {plugin : PluginId} {instanceId : InstanceId}
    (h : (plugin,instanceId) ∈ kernel.retired config restart) :
    kernel.instances.get? plugin = some instanceId := by
  simp only [Kernel.retired, List.mem_filterMap, Option.map_eq_some_iff, Prod.mk.injEq] at h
  obtain ⟨entry,-,_,hget,rfl,rfl⟩ := h
  exact hget

/-- How an active runtime gets to the candidate: a whole staging, and then the stops. -/
structure Committed (kernel : Kernel H) (candidate : ResolvedHarness) (restart : BTreeSet PluginId)
    (staging : Staging) (change : Change H) : Prop where
  config : change.kernel.config = candidate.kernelConfig
  instances : change.kernel.instances = staging.instances
  started : Runtime.started change.calls = running staging.instances staging.staged
  stopped : Runtime.stopped change.calls = kernel.retired candidate.kernelConfig restart
  staged : Staged candidate.kernelConfig (kernel.beginReconciliation candidate.kernelConfig restart) staging
  numbered : Numbered (kernel.beginReconciliation candidate.kernelConfig restart) staging
  sound : staging.Sound candidate.kernelConfig
  active : ∀ plugin ∈ candidate.kernelConfig.manifests.keys, staging.states.get? plugin = some .active

theorem Kernel.Sound.configured (h : kernel.Sound) {plugin : PluginId} {instanceId : InstanceId}
    (hget : kernel.instances.get? plugin = some instanceId) : plugin ∈ kernel.config.manifests.keys := by
  rw [← h.instances.known, mem_keys_iff, h.instances.active plugin instanceId hget]
  rfl

theorem Kernel.Sound.committed (h : kernel.Sound) (hactive : kernel.runtimeActive = true)
    (behaviour : PluginBehaviour H) (requested : BTreeSet PluginId)
    (hok : (kernel.reconcileResolvedGeneration behaviour candidate requested).outcome = .ok ()) :
    ∃ staging, Committed kernel candidate
      (runtimeRestartClosure kernel.config candidate.kernelConfig requested) staging
      (kernel.reconcileResolvedGeneration behaviour candidate requested) := by
  generalize hchange : kernel.reconcileResolvedGeneration behaviour candidate requested = change at hok ⊢
  have hstep : ReconcileStep kernel behaviour candidate _ change :=
    hchange ▸ reconcile_step kernel behaviour candidate requested
  generalize runtimeRestartClosure kernel.config candidate.kernelConfig requested = restart at hstep ⊢
  cases hstep with
  | refused => cases hok
  | unstaged error staging hstable hstage => cases hok
  | unbound error staging hstable hstage => cases hok
  | committed staging indexed hstable hstage =>
    have hsound := h.stageCandidate hstable behaviour candidate.kernelConfig restart
    have hrun := (staged_begin kernel candidate.kernelConfig restart).run kernel.embeddedFactories
      behaviour fun entry hentry => (mem_orderedManifests candidate.kernelConfig entry).mp hentry
    rw [hstage] at hsound
    unfold Kernel.stageCandidate at hstage
    rw [if_pos hactive] at hstage
    rw [hstage] at hrun
    obtain ⟨hstaged,hall,-⟩ := hrun
    have hstops : (kernel.retired candidate.kernelConfig restart).flatMap (fun entry =>
        stopCall kernel.config entry.1 entry.2) = (kernel.retired candidate.kernelConfig restart).map
          fun entry => .stop entry.1 entry.2 :=
      flatMap_stopCall fun entry hentry => h.configured (instance_of_mem_retired hentry)
    refine ⟨staging,rfl,rfl,?_,?_,hstaged,hsound.2,hsound.1,?_⟩
    · rw [hstops, started_append, started_stops, hstaged.started, List.append_nil]
    · rw [hstops, stopped_append, stopped_stops, hstaged.stopped, List.nil_append]
    · intro plugin hplugin
      obtain ⟨manifest,hmanifest⟩ := isSome_iff_exists.mp (mem_keys_iff _ |>.mp hplugin)
      exact hall (plugin,manifest) ((mem_orderedManifests _ _).mpr hmanifest)

/-- The instance runs before and after the change, which neither starts nor stops it. -/
structure Kept (kernel : Kernel H) (change : Change H) (plugin : PluginId) (instanceId : InstanceId) :
    Prop where
  before : kernel.instances.get? plugin = some instanceId
  after : change.kernel.instances.get? plugin = some instanceId
  unstarted : (plugin,instanceId) ∉ started change.calls
  unstopped : (plugin,instanceId) ∉ stopped change.calls

/-- The instance is new, started once and left running. -/
structure Fresh (kernel : Kernel H) (change : Change H) (plugin : PluginId) (instanceId : InstanceId) :
    Prop where
  before : kernel.instances.get? plugin ≠ some instanceId
  after : change.kernel.instances.get? plugin = some instanceId
  started : (Runtime.started change.calls).count (plugin,instanceId) = 1
  unstopped : (plugin,instanceId) ∉ stopped change.calls

/-- The instance was running, is stopped once and is gone. -/
structure Retired (kernel : Kernel H) (change : Change H) (plugin : PluginId)
    (instanceId : InstanceId) : Prop where
  before : kernel.instances.get? plugin = some instanceId
  after : change.kernel.instances.get? plugin ≠ some instanceId
  unstarted : (plugin,instanceId) ∉ started change.calls
  stopped : (Runtime.stopped change.calls).count (plugin,instanceId) = 1

variable {change : Change H} {plugin : PluginId} {instanceId : InstanceId}

section
variable (h : Committed kernel candidate restart staging change)
include h

/-- The plugins that are not kept are those that are staged. -/
theorem Committed.mem_staged
    (hplugin : plugin ∈ candidate.kernelConfig.manifests.keys) :
    plugin ∈ staging.staged ↔ retained kernel candidate.kernelConfig restart plugin = false := by
  rw [← Bool.not_eq_true, ← nextStates_active]
  constructor
  · exact h.staged.changed plugin
  · intro hnew
    by_contra hunstaged
    apply hnew
    rw [← h.active plugin hplugin]
    exact (h.staged.kept plugin hunstaged).1.symm

theorem Committed.instances_of_unstaged
    (hunstaged : plugin ∉ staging.staged) : change.kernel.instances.get? plugin =
      if retained kernel candidate.kernelConfig restart plugin then kernel.instances.get? plugin
      else none := by
  rw [h.instances, (h.staged.kept plugin hunstaged).2]
  exact get?_nextInstances kernel candidate.kernelConfig restart plugin

/-- A new instance is none of the old ones. -/
theorem Committed.fresh (hsound : kernel.Sound)
    (hstaged : plugin ∈ staging.staged) (hget : change.kernel.instances.get? plugin = some instanceId) :
    Fresh kernel change plugin instanceId := by
  have hget' : staging.instances.get? plugin = some instanceId := h.instances ▸ hget
  have hbefore : kernel.instances.get? plugin ≠ some instanceId := by
    intro hold
    obtain ⟨hlt,hprepared⟩ := hsound.instances.numbered plugin instanceId hold
    obtain ⟨-,-,htaken | hnew⟩ := h.numbered.made plugin hstaged instanceId hget'
    · exact hprepared htaken
    · exact absurd (hlt.trans_le hnew) (lt_irrefl _)
  refine ⟨hbefore,hget,?_,fun hstopped => ?_⟩
  · rw [h.started]
    exact List.count_eq_one_of_mem (nodup_running h.staged.nodup _) (mem_running.mpr ⟨hstaged,hget'⟩)
  · rw [h.stopped] at hstopped
    exact hbefore (instance_of_mem_retired hstopped)

theorem Committed.kept (hsound : kernel.Sound)
    (hactive : kernel.runtimeActive = true)
    (hretained : retained kernel candidate.kernelConfig restart plugin = true)
    (hget : kernel.instances.get? plugin = some instanceId) : Kept kernel change plugin instanceId := by
  have hplugin : plugin ∈ candidate.kernelConfig.manifests.keys := by
    rw [retained, any_eq_true] at hretained
    obtain ⟨manifest,hmanifest,-⟩ := hretained
    exact mem_keys_iff _ |>.mpr (by simp [hmanifest])
  have hunstaged : plugin ∉ staging.staged := by
    rw [h.mem_staged hplugin, hretained]
    exact Bool.noConfusion
  refine ⟨hget,?_,fun hstarted => ?_,fun hstopped => ?_⟩
  · rw [h.instances_of_unstaged hunstaged, if_pos hretained, hget]
  · rw [h.started] at hstarted
    exact hunstaged (mem_running.mp hstarted).1
  · rw [h.stopped, mem_retired hactive (hsound.configured hget) hget, hretained] at hstopped
    cases hstopped

theorem Committed.retired (hsound : kernel.Sound)
    (hactive : kernel.runtimeActive = true)
    (hretained : retained kernel candidate.kernelConfig restart plugin = false)
    (hget : kernel.instances.get? plugin = some instanceId) :
    Retired kernel change plugin instanceId := by
  have hafter : change.kernel.instances.get? plugin ≠ some instanceId := by
    intro hafter
    by_cases hstaged : plugin ∈ staging.staged
    · exact (h.fresh hsound hstaged hafter).before hget
    · rw [h.instances_of_unstaged hstaged, hretained] at hafter
      cases hafter
  refine ⟨hget,hafter,fun hstarted => ?_,?_⟩
  · rw [h.started] at hstarted
    rw [h.instances] at hafter
    exact hafter (mem_running.mp hstarted).2
  · rw [h.stopped]
    exact List.count_eq_one_of_mem (nodup_retired _ _)
      ((mem_retired hactive (hsound.configured hget) hget).mpr hretained)

end

/-- The runtime of the guest is provided by the other plugin. -/
def RunsOn (config : KernelConfig) (guest provider : PluginId) : Prop :=
  ∃ binding, config.runtimeBinding guest = some binding ∧ binding.provider = provider

/-- Nothing about the plugin changes and its restart was not requested. -/
structure Unchanged (active candidate : KernelConfig) (requested : BTreeSet PluginId)
    (plugin : PluginId) : Prop where
  manifest : ∃ old manifest, active.manifests.get? plugin = some old ∧
    candidate.manifests.get? plugin = some manifest ∧ old.partialEq manifest = true
  notRequested : plugin ∉ requested.keys
  binding : active.runtimeBinding plugin = candidate.runtimeBinding plugin

theorem runtime_of_partialEq {old : PluginManifest} (h : old.partialEq manifest = true)
    {runtime : RuntimeId} {artifact : PluginArtifact}
    (hold : old.execution = .runtime runtime artifact) :
    ∃ runtime' artifact', manifest.execution = .runtime runtime' artifact' := by
  unfold PluginManifest.partialEq at h
  simp only [Bool.and_eq_true] at h
  obtain ⟨⟨⟨⟨⟨-,hexecution⟩,-⟩,-⟩,-⟩,-⟩ := h
  rw [hold] at hexecution
  cases hmanifest : manifest.execution with
  | runtime runtime' artifact' => exact ⟨runtime',artifact',rfl⟩
  | embedded | resourceOnly =>
    rw [hmanifest] at hexecution
    cases hexecution

theorem unchanged_of_retained (hactive : kernel.runtimeActive = true)
    (hretained : retained kernel config (runtimeRestartClosure kernel.config config requested) plugin = true) :
    Unchanged kernel.config config requested plugin := by
  have hclosed := (runtimeRestartClosure_isLeast kernel.config config requested).1
  have hout := ((retained_iff hactive plugin).mp hretained).2
  rw [retained, any_eq_true] at hretained
  obtain ⟨manifest,hmanifest,hretains⟩ := hretained
  rw [Kernel.retains, Bool.and_eq_true, manifestKept, any_eq_true] at hretains
  obtain ⟨-,old,hold,hkept⟩ := hretains
  refine ⟨⟨old,manifest,hold,hmanifest,hkept⟩,fun hrequested => hout (hclosed.requested hrequested),?_⟩
  cases hbinding : config.runtimeBinding plugin with
  | some binding =>
    by_contra hchanged
    exact hout (hclosed.bindings plugin binding hbinding hchanged)
  | none =>
    -- a plugin that had a binding runs in a runtime, and then the candidate binds it too
    by_contra hbound
    obtain ⟨binding,hget⟩ := ne_none_iff_exists'.mp hbound
    obtain ⟨old',artifact,hold',hruntime⟩ := (kernel.config.bound plugin binding hget).runs
    obtain rfl : old = old' := Option.some.inj (hold.symm.trans hold')
    obtain ⟨runtime',artifact',hruntime'⟩ := runtime_of_partialEq hkept hruntime
    exact (config.runtimeBindings.get?_eq_none.mp hbinding)
      (config.complete plugin manifest runtime' artifact' hmanifest hruntime')

theorem Committed.retained_of_kept (h : Committed kernel candidate restart staging change)
    (hsound : kernel.Sound) (hactive : kernel.runtimeActive = true)
    (hkept : Kept kernel change plugin instanceId) :
    retained kernel candidate.kernelConfig restart plugin = true := by
  by_contra hout
  exact (h.retired hsound hactive (Bool.not_eq_true _ ▸ hout) hkept.before).after hkept.after

/-- A kept plugin that is not a resource keeps an instance. -/
theorem Committed.exists_kept (h : Committed kernel candidate restart staging change)
    (hsound : kernel.Sound) (hactive : kernel.runtimeActive = true)
    (hmanifest : candidate.kernelConfig.manifests.get? plugin = some manifest)
    (hresource : manifest.execution.isResourceOnly = false)
    (hretained : retained kernel candidate.kernelConfig restart plugin = true) :
    ∃ instanceId, Kept kernel change plugin instanceId := by
  have hplugin : plugin ∈ candidate.kernelConfig.manifests.keys :=
    mem_keys_iff _ |>.mpr (by simp [hmanifest])
  have hsome : change.kernel.instances.get? plugin ≠ none := by
    rw [h.instances, ne_eq, h.sound.resources plugin manifest hmanifest (h.active plugin hplugin),
      hresource]
    exact Bool.noConfusion
  have hunstaged : plugin ∉ staging.staged := by
    rw [h.mem_staged hplugin, hretained]
    exact Bool.noConfusion
  rw [h.instances_of_unstaged hunstaged, if_pos hretained] at hsome
  obtain ⟨instanceId,hget⟩ := ne_none_iff_exists'.mp hsome
  exact ⟨instanceId,h.kept hsound hactive hretained hget⟩

/-- A successful reconciliation of an active runtime: every plugin of the candidate keeps its
instance or has a fresh one, every old instance is kept or retired, and what is kept stands on
kept providers. -/
structure Replaced (kernel : Kernel H) (candidate : KernelConfig) (requested : BTreeSet PluginId)
    (change : Change H) : Prop where
  config : change.kernel.config = candidate
  plugins : ∀ plugin manifest, candidate.manifests.get? plugin = some manifest →
    if manifest.execution.isResourceOnly then change.kernel.instances.get? plugin = none
    else ∃ instanceId, Kept kernel change plugin instanceId ∨ Fresh kernel change plugin instanceId
  old : ∀ plugin instanceId, kernel.instances.get? plugin = some instanceId →
    Kept kernel change plugin instanceId ∨ Retired kernel change plugin instanceId
  kept : ∀ plugin instanceId, Kept kernel change plugin instanceId →
    ∀ provider, ReflTransGen (RunsOn candidate) plugin provider →
      Unchanged kernel.config candidate requested provider ∧
        ∃ providerId, Kept kernel change provider providerId

theorem Committed.replaced
    (h : Committed kernel candidate (runtimeRestartClosure kernel.config candidate.kernelConfig requested) staging change)
    (hsound : kernel.Sound) (hactive : kernel.runtimeActive = true) :
    Replaced kernel candidate.kernelConfig requested change := by
  have hclosed := (runtimeRestartClosure_isLeast kernel.config candidate.kernelConfig requested).1
  refine ⟨h.config,?_,?_,?_⟩
  · intro plugin manifest hmanifest
    have hplugin : plugin ∈ candidate.kernelConfig.manifests.keys :=
      mem_keys_iff _ |>.mpr (by simp [hmanifest])
    have hresources := h.sound.resources plugin manifest hmanifest (h.active plugin hplugin)
    rw [← h.instances] at hresources
    split_ifs with hresource
    · exact hresources.mpr hresource
    · rw [Bool.not_eq_true] at hresource
      cases hretained : retained kernel candidate.kernelConfig _ plugin with
      | true =>
        obtain ⟨instanceId,hkept⟩ := h.exists_kept hsound hactive hmanifest hresource hretained
        exact ⟨instanceId,.inl hkept⟩
      | false =>
        have hsome : change.kernel.instances.get? plugin ≠ none := by
          rw [ne_eq, hresources, hresource]
          exact Bool.noConfusion
        obtain ⟨instanceId,hget⟩ := ne_none_iff_exists'.mp hsome
        exact ⟨instanceId,.inr (h.fresh hsound ((h.mem_staged hplugin).mpr hretained) hget)⟩
  · intro plugin instanceId hget
    cases hretained : retained kernel candidate.kernelConfig _ plugin with
    | true => exact .inl (h.kept hsound hactive hretained hget)
    | false => exact .inr (h.retired hsound hactive hretained hget)
  · intro plugin instanceId hkept provider hchain
    have hretained : retained kernel candidate.kernelConfig
        (runtimeRestartClosure kernel.config candidate.kernelConfig requested) provider = true ∧
        ∃ providerId, Kept kernel change provider providerId := by
      induction hchain with
      | refl => exact ⟨h.retained_of_kept hsound hactive hkept,instanceId,hkept⟩
      | tail _ hrun ih =>
        obtain ⟨binding,hget,rfl⟩ := hrun
        have hout := ((retained_iff hactive _).mp ih.1).2
        obtain ⟨manifest,hmanifest,hresource⟩ := (candidate.kernelConfig.bound _ binding hget).provided
        have hprovider := (retained_iff hactive binding.provider).mpr
          ⟨mem_keys_iff _ |>.mpr (by simp [hmanifest]),fun hin =>
            hout (hclosed.providers _ binding hget hin)⟩
        exact ⟨hprovider,h.exists_kept hsound hactive hmanifest hresource hprovider⟩
    exact ⟨unchanged_of_retained hactive hretained.1,hretained.2⟩

/-- Every instance is kept, fresh or retired, and the plugins that restart are the least set that
can. -/
theorem reconciliation_replaces (hreachable : kernel.Reachable) (hactive : kernel.runtimeActive = true)
    (behaviour : PluginBehaviour H) (candidate : ResolvedHarness) (requested : BTreeSet PluginId)
    (hok : (kernel.reconcileResolvedGeneration behaviour candidate requested).outcome = .ok ()) :
    Replaced kernel candidate.kernelConfig requested
        (kernel.reconcileResolvedGeneration behaviour candidate requested) ∧
      IsLeast {restart | RestartClosed kernel.config candidate.kernelConfig requested restart}
        (marks (runtimeRestartClosure kernel.config candidate.kernelConfig requested)) := by
  obtain ⟨staging,hcommitted⟩ := hreachable.sound.committed hactive behaviour requested hok
  exact ⟨hcommitted.replaced hreachable.sound hactive,
    runtimeRestartClosure_isLeast kernel.config candidate.kernelConfig requested⟩

end Survivors
/-! ### A plugin is added next to one that runs -/

/-- Every call succeeds. -/
def allSucceed : PluginBehaviour Unit where
  runtimeProvider _ := true
  prepare _ := ⟨.returned (.ok ()),false⟩
  start _ := ⟨.returned (.ok ()),false⟩
  bindListener _ _ := .returned (.ok ())

/-- A kernel after the factories of the two plugins came in and the first was activated. -/
def activated (config : KernelConfig) : Kernel Unit :=
  runAll KernelCommand.perform (Kernel.new config)
    [.preloadEmbeddedFactory firstPlugin,.preloadEmbeddedFactory secondPlugin,.activateAll allSucceed]

theorem exists_addedPlugin : ∃ config candidate, new 0 [embedded firstPlugin] = .ok config ∧
    new 1 [embedded firstPlugin,embedded secondPlugin] = .ok candidate ∧
    (activated config).runtimeActive = true ∧
    ((activated config).reconcileResolvedGeneration allSucceed (harnessOf candidate) .empty).outcome =
      .ok () ∧
    ((activated config).reconcileResolvedGeneration allSucceed (harnessOf candidate) .empty).calls =
      [.start secondPlugin 1 none] := by
  have hrun : (match new 0 [embedded firstPlugin],
      new 1 [embedded firstPlugin,embedded secondPlugin] with
    | .ok config,.ok candidate =>
      let change := (activated config).reconcileResolvedGeneration allSucceed (harnessOf candidate) .empty
      (activated config).runtimeActive && change.outcome.toOption.isSome &&
        change.calls = [.start secondPlugin 1 none]
    | .ok _,.error _ | .error _,_ => false) = true := by decide +kernel
  split at hrun
  · next config candidate hconfig hcandidate =>
    simp only [Bool.and_eq_true, decide_eq_true_eq] at hrun
    obtain ⟨⟨hactive,hsome⟩,hcalls⟩ := hrun
    obtain ⟨_,hok⟩ := isSome_iff_exists.mp hsome
    exact ⟨config,candidate,hconfig,hcandidate,hactive,toOption_eq_some.mp hok,hcalls⟩
  · cases hrun
  · cases hrun

theorem addedPlugin_replaced : ∃ config candidate,
    new 0 [embedded firstPlugin] = .ok config ∧
    new 1 [embedded firstPlugin,embedded secondPlugin] = .ok candidate ∧
    Replaced (activated config) candidate .empty
      ((activated config).reconcileResolvedGeneration allSucceed (harnessOf candidate) .empty) := by
  obtain ⟨config,candidate,hconfig,hcandidate,hactive,hok,-⟩ := exists_addedPlugin
  have hreachable : (activated config).Reachable := ⟨config,_,rfl⟩
  exact ⟨config,candidate,hconfig,hcandidate,
    (reconciliation_replaces hreachable hactive allSucceed (harnessOf candidate) .empty hok).1⟩

end PhenixConductor.Runtime
