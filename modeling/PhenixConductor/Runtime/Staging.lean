import PhenixConductor.Runtime.Kernel

/-! # What a staging does

The staged plugins are active and run instances that were started, in the order of the staging.
-/
namespace PhenixConductor.Runtime
open Collections Contract Component PhenixConductor.Kernel List

/-- The instances that were started successfully, in order. -/
def started (calls : List LifecycleCall) : List (PluginId × InstanceId) :=
  calls.filterMap fun
    | .start plugin instanceId none => some (plugin,instanceId)
    | .start _ _ (some _) | .stop _ _ => none

/-- The instances that were stopped, in order. -/
def stopped (calls : List LifecycleCall) : List (PluginId × InstanceId) :=
  calls.filterMap fun
    | .stop plugin instanceId => some (plugin,instanceId)
    | .start _ _ _ => none

theorem started_append (calls calls' : List LifecycleCall) :
    started (calls ++ calls') = started calls ++ started calls' := filterMap_append

theorem stopped_append (calls calls' : List LifecycleCall) :
    stopped (calls ++ calls') = stopped calls ++ stopped calls' := filterMap_append

section Stops
variable {config : KernelConfig}

theorem stopCall_of_configured {plugin : PluginId} (h : plugin ∈ config.manifests.keys)
    (instanceId : InstanceId) : stopCall config plugin instanceId = [.stop plugin instanceId] :=
  if_pos ((config.manifests.mem_keys_iff).mp h)

/-- Configured plugins are all called. -/
theorem flatMap_stopCall {entries : List (PluginId × InstanceId)}
    (h : ∀ entry ∈ entries, entry.1 ∈ config.manifests.keys) :
    entries.flatMap (fun entry => stopCall config entry.1 entry.2) =
      entries.map fun entry => .stop entry.1 entry.2 := by
  induction entries with
  | nil => rfl
  | cons entry entries ih =>
    rw [flatMap_cons, map_cons, stopCall_of_configured (h entry mem_cons_self),
      ih fun other hother => h other (mem_cons_of_mem _ hother)]
    rfl

theorem started_stops (entries : List (PluginId × InstanceId)) :
    started (entries.map fun entry => .stop entry.1 entry.2) = [] := by
  rw [started, filterMap_map]
  exact filterMap_eq_nil_iff.mpr fun _ _ => rfl

theorem stopped_stops (entries : List (PluginId × InstanceId)) :
    stopped (entries.map fun entry => .stop entry.1 entry.2) = entries := by
  rw [stopped, filterMap_map]
  exact filterMap_some

end Stops

/-- The instances of some plugins. -/
def running (instances : BTreeMap PluginId InstanceId) (plugins : List PluginId) :
    List (PluginId × InstanceId) :=
  plugins.filterMap fun plugin => (instances.get? plugin).map (plugin,·)

variable {instances : BTreeMap PluginId InstanceId} {plugins : List PluginId}

theorem mem_running {plugin : PluginId} {instanceId : InstanceId} :
    (plugin,instanceId) ∈ running instances plugins ↔
      plugin ∈ plugins ∧ instances.get? plugin = some instanceId := by
  simp [running]

theorem nodup_running (h : plugins.Nodup) (instances : BTreeMap PluginId InstanceId) :
    (running instances plugins).Nodup := by
  apply h.filterMap
  intro plugin plugin' entry hentry hentry'
  simp only [Option.mem_def, Option.map_eq_some_iff] at hentry hentry'
  obtain ⟨_,-,rfl⟩ := hentry
  obtain ⟨_,-,hsame⟩ := hentry'
  exact (congrArg Prod.fst hsame).symm

theorem running_append (instances : BTreeMap PluginId InstanceId) (plugins plugins' : List PluginId) :
    running instances (plugins ++ plugins') = running instances plugins ++ running instances plugins' :=
  filterMap_append

theorem running_congr {instances' : BTreeMap PluginId InstanceId}
    (h : ∀ plugin ∈ plugins, instances.get? plugin = instances'.get? plugin) :
    running instances plugins = running instances' plugins :=
  filterMap_congr fun plugin hplugin => by rw [h plugin hplugin]

/-- What holds of a staging that began with `first`. -/
structure Staged (config : KernelConfig) (first now : Staging) : Prop where
  absent : ∀ plugin, first.states.get? plugin ≠ some .active → first.instances.get? plugin = none
  nodup : now.staged.Nodup
  active : ∀ plugin ∈ now.staged, now.states.get? plugin = some .active
  configured : ∀ plugin ∈ now.staged, plugin ∈ config.manifests.keys
  changed : ∀ plugin ∈ now.staged, first.states.get? plugin ≠ some .active
  kept : ∀ plugin ∉ now.staged, now.states.get? plugin = first.states.get? plugin ∧
    now.instances.get? plugin = first.instances.get? plugin
  resources : ∀ plugin ∈ now.staged, ∀ manifest, config.manifests.get? plugin = some manifest →
    (now.instances.get? plugin = none ↔ manifest.execution.isResourceOnly = true)
  started : started now.calls = running now.instances now.staged
  stopped : stopped now.calls = []

/-- Prepared instances are taken and numbers are used up. -/
structure Consumed (first now : Staging) : Prop where
  taken : ∀ plugin instanceId, now.preparedEmbeddedInstances.get? plugin = some instanceId →
    first.preparedEmbeddedInstances.get? plugin = some instanceId
  next : first.nextInstance ≤ now.nextInstance

/-- An instance was prepared before the staging or made during it, and cannot be taken again. -/
def Made (first now : Staging) (plugin : PluginId) (instanceId : InstanceId) : Prop :=
  now.preparedEmbeddedInstances.get? plugin ≠ some instanceId ∧ instanceId < now.nextInstance ∧
    (first.preparedEmbeddedInstances.get? plugin = some instanceId ∨ first.nextInstance ≤ instanceId)

structure Numbered (first now : Staging) : Prop extends Consumed first now where
  prepared : ∀ plugin instanceId, first.preparedEmbeddedInstances.get? plugin = some instanceId →
    instanceId < first.nextInstance
  made : ∀ plugin ∈ now.staged, ∀ instanceId, now.instances.get? plugin = some instanceId →
    Made first now plugin instanceId

section Step
variable {H : Type} {factories : BTreeSet PluginId} {config : KernelConfig}
  {behaviour : PluginBehaviour H} {plugin : PluginId} {manifest : PluginManifest}
  {first now next : Staging} {instanceId : InstanceId}

/-- A staging that differs in what it took from the kernel only. -/
structure SameProgress (now next : Staging) : Prop where
  states : next.states = now.states
  instances : next.instances = now.instances
  staged : next.staged = now.staged
  calls : next.calls = now.calls

theorem Staged.of_same (h : Staged config first now) (hsame : SameProgress now next) :
    Staged config first next := by
  rcases next with ⟨_,_,_,_,_,_⟩
  obtain ⟨hstates,hinstances,hstaged,hcalls⟩ := hsame
  subst hstates hinstances hstaged hcalls
  exact ⟨h.absent,h.nodup,h.active,h.configured,h.changed,h.kept,h.resources,h.started,h.stopped⟩

theorem takeEmbeddedInstance_same
    (h : takeEmbeddedInstance factories plugin now = .ok (instanceId,next)) :
    SameProgress now next := by
  unfold takeEmbeddedInstance at h
  split at h
  · cases h
    exact ⟨rfl,rfl,rfl,rfl⟩
  · split_ifs at h
    cases h
    exact ⟨rfl,rfl,rfl,rfl⟩

variable {obtained : Option InstanceId}

/-- What obtaining an instance can do. -/
theorem obtainInstance_eq_ok
    (h : obtainInstance factories config behaviour plugin manifest now = .ok (obtained,next)) :
    (manifest.execution.isResourceOnly = true ∧ obtained = none ∧ next = now) ∨
      ∃ instanceId, manifest.execution.isResourceOnly = false ∧ obtained = some instanceId ∧
        (takeEmbeddedInstance factories plugin now = .ok (instanceId,next) ∨
          (instanceId,next) = now.makeInstance) := by
  unfold obtainInstance at h
  split at h
  · next hresource =>
    cases h
    exact .inl ⟨by simp [hresource, PluginExecution.isResourceOnly],rfl,rfl⟩
  · next hembedded =>
    rw [bind_eq_ok] at h
    obtain ⟨⟨instanceId,taken⟩,htake,h⟩ := h
    cases h
    exact .inr ⟨instanceId,by simp [hembedded, PluginExecution.isResourceOnly],rfl,.inl htake⟩
  · next hruntime =>
    split at h
    · cases h
    · split_ifs at h
      rw [seq_eq_ok] at h
      obtain ⟨-,h⟩ := h
      cases h
      exact .inr ⟨_,by simp [hruntime, PluginExecution.isResourceOnly],rfl,.inr rfl⟩

theorem obtainInstance_same
    (h : obtainInstance factories config behaviour plugin manifest now = .ok (obtained,next)) :
    SameProgress now next := by
  rcases obtainInstance_eq_ok h with ⟨-,-,rfl⟩ | ⟨instanceId,-,-,htake | hmake⟩
  · exact ⟨rfl,rfl,rfl,rfl⟩
  · exact takeEmbeddedInstance_same htake
  · cases hmake
    exact ⟨rfl,rfl,rfl,rfl⟩

/-- What one turn of the loop can do. -/
inductive StageStep (factories : BTreeSet PluginId) (config : KernelConfig)
    (behaviour : PluginBehaviour H) (plugin : PluginId) (manifest : PluginManifest) (now : Staging) :
    Except KernelError Unit × Staging → Prop
  | active : now.states.get? plugin = some .active →
    StageStep factories config behaviour plugin manifest now (.ok (),now)
  | unobtained (error : KernelError) :
    StageStep factories config behaviour plugin manifest now (.error error,cleanupStaged config now)
  | resource : now.states.get? plugin ≠ some .active → manifest.execution.isResourceOnly = true →
    StageStep factories config behaviour plugin manifest now (.ok (),now.activate plugin)
  | failed (instanceId : InstanceId) (next : Staging) (message : String) :
    obtainInstance factories config behaviour plugin manifest now = .ok (some instanceId,next) →
    StageStep factories config behaviour plugin manifest now
      (.error (.pluginStart plugin message),
        cleanupStaged config (next.record (.start plugin instanceId (some message))))
  | started (instanceId : InstanceId) (next : Staging) : now.states.get? plugin ≠ some .active →
    manifest.execution.isResourceOnly = false →
    obtainInstance factories config behaviour plugin manifest now = .ok (some instanceId,next) →
    StageStep factories config behaviour plugin manifest now
      (.ok (),((next.record (.start plugin instanceId none)).insertInstance plugin instanceId).activate
        plugin)

theorem stagePlugin_step : StageStep factories config behaviour plugin manifest now
    (stagePlugin factories config behaviour plugin manifest now) := by
  unfold stagePlugin
  split_ifs with hactive
  · exact .active hactive
  · split
    · exact .unobtained _
    · next next hobtain =>
      rcases obtainInstance_eq_ok hobtain with ⟨hresource,-,rfl⟩ | ⟨_,-,hsome,-⟩
      · exact .resource hactive hresource
      · cases hsome
    · next instanceId next hobtain =>
      rcases obtainInstance_eq_ok hobtain with ⟨-,hnone,-⟩ | ⟨_,hresource,-,-⟩
      · cases hnone
      · dsimp only
        split
        · next message hfailure =>
          rw [hfailure]
          exact .failed instanceId next message hobtain
        · next hfailure =>
          rw [hfailure]
          exact .started instanceId next hactive hresource hobtain

variable {instances : BTreeMap PluginId InstanceId}

/-- One more plugin is staged, with or without an instance. -/
theorem Staged.extend (h : Staged config first now) (hnew : now.states.get? plugin ≠ some .active)
    (hmanifest : config.manifests.get? plugin = some manifest) {calls : List LifecycleCall}
    (hother : ∀ other, other ≠ plugin → instances.get? other = now.instances.get? other)
    (hresource : instances.get? plugin = none ↔ manifest.execution.isResourceOnly = true)
    (hstarted : Runtime.started calls = Runtime.started now.calls ++ running instances [plugin])
    (hstopped : Runtime.stopped calls = []) :
    Staged config first ({ now with instances := instances, calls := calls }.activate plugin) := by
  have hunstaged : plugin ∉ now.staged := fun hstaged => hnew (h.active plugin hstaged)
  have hne : ∀ other ∈ now.staged, other ≠ plugin := fun other hstaged hsame =>
    hunstaged (hsame ▸ hstaged)
  have hmem : ∀ other, other ∈ now.staged ++ [plugin] ↔ other ∈ now.staged ∨ other = plugin := by
    simp
  refine ⟨h.absent,?_,?_,?_,?_,?_,?_,?_,hstopped⟩
  · exact h.nodup.append (nodup_singleton plugin) (by simpa using hunstaged)
  · intro other hstaged
    by_cases hsame : other = plugin
    · rw [hsame]
      exact now.states.get?_insert_self plugin .active
    · rcases (hmem other).mp hstaged with hstaged | hsame'
      · exact (now.states.get?_insert_of_ne .active hsame).trans (h.active other hstaged)
      · exact absurd hsame' hsame
  · intro other hstaged
    rcases (hmem other).mp hstaged with hstaged | rfl
    · exact h.configured other hstaged
    · exact config.manifests.mem_keys_iff.mpr (by simp [hmanifest])
  · intro other hstaged
    rcases (hmem other).mp hstaged with hstaged | rfl
    · exact h.changed other hstaged
    · rw [← (h.kept other hunstaged).1]
      exact hnew
  · intro other hother'
    obtain ⟨hunstaged',hne'⟩ := not_or.mp fun hor => hother' ((hmem other).mpr hor)
    have hkept := h.kept other hunstaged'
    exact ⟨(now.states.get?_insert_of_ne .active hne').trans hkept.1,
      (hother other hne').trans hkept.2⟩
  · intro other hstaged
    rcases (hmem other).mp hstaged with hstaged | rfl
    · intro manifest hget
      rw [← h.resources other hstaged manifest hget]
      exact (hother other (hne other hstaged)) ▸ Iff.rfl
    · intro manifest' hget
      obtain rfl : manifest = manifest' := Option.some.inj (hmanifest.symm.trans hget)
      exact hresource
  · have hrunning : running instances now.staged = running now.instances now.staged :=
      running_congr fun other hstaged => hother other (hne other hstaged)
    change Runtime.started calls = running instances (now.staged ++ [plugin])
    rw [hstarted, h.started, running_append, hrunning]

theorem Staged.unstaged_instance (h : Staged config first now)
    (hnew : now.states.get? plugin ≠ some .active) : now.instances.get? plugin = none := by
  have hunstaged : plugin ∉ now.staged := fun hstaged => hnew (h.active plugin hstaged)
  obtain ⟨hstates,hinstances⟩ := h.kept plugin hunstaged
  rw [hinstances]
  exact h.absent plugin (hstates ▸ hnew)

/-- Everything that was started is stopped again, the last first, and nothing twice. -/
structure CleanedUp (calls : List LifecycleCall) : Prop where
  reversed : Runtime.stopped calls = (Runtime.started calls).reverse
  nodup : (Runtime.started calls).Nodup

theorem cleanedUp_nil : CleanedUp [] := ⟨rfl,nodup_nil⟩

/-- The cleanup calls exactly the running instances of the staged plugins. -/
theorem flatMap_stopStaged {plugins : List PluginId}
    (h : ∀ plugin ∈ plugins, plugin ∈ config.manifests.keys) :
    plugins.flatMap (stopStaged config instances) =
      (running instances plugins).map fun entry => .stop entry.1 entry.2 := by
  induction plugins with
  | nil => rfl
  | cons plugin plugins ih =>
    have hrest := ih fun other hother => h other (mem_cons_of_mem _ hother)
    have hsplit : running instances (plugin :: plugins) =
        running instances [plugin] ++ running instances plugins :=
      running_append instances [plugin] plugins
    rw [flatMap_cons, hrest, hsplit, map_append]
    apply congrArg (· ++ _)
    rw [stopStaged, running, filterMap_cons]
    cases instances.get? plugin with
    | none => rfl
    | some instanceId => exact stopCall_of_configured (h plugin mem_cons_self) instanceId

theorem running_reverse (instances : BTreeMap PluginId InstanceId) (plugins : List PluginId) :
    running instances plugins.reverse = (running instances plugins).reverse :=
  filterMap_reverse

/-- A staging is cleaned up whole, whatever call that did not start an instance came last. -/
theorem Staged.cleanedUp (h : Staged config first now) {failed : List LifecycleCall}
    (hstarted : Runtime.started failed = []) (hstopped : Runtime.stopped failed = []) :
    CleanedUp (cleanupStaged config { now with calls := now.calls ++ failed }).calls := by
  have hcalls : (cleanupStaged config { now with calls := now.calls ++ failed }).calls =
      now.calls ++ failed ++ (running now.instances now.staged.reverse).map fun entry =>
        .stop entry.1 entry.2 := by
    rw [← flatMap_stopStaged fun plugin hplugin => h.configured plugin (mem_reverse.mp hplugin)]
    rfl
  constructor
  · rw [hcalls, stopped_append, stopped_append, started_append, started_append, stopped_stops,
      started_stops, hstarted, hstopped, h.stopped, h.started, running_reverse]
    simp
  · rw [hcalls, started_append, started_append, started_stops, hstarted, h.started]
    simpa using nodup_running h.nodup now.instances

theorem Staged.cleanedUp_now (h : Staged config first now) :
    CleanedUp (cleanupStaged config now).calls := by
  have hcalls : now = { now with calls := now.calls ++ [] } := by rw [append_nil]
  rw [hcalls]
  exact h.cleanedUp rfl rfl

/-- One turn keeps the invariant or cleans up, and the plugin is active if it succeeds. -/
theorem Staged.step (h : Staged config first now)
    (hmanifest : config.manifests.get? plugin = some manifest) :
    match stagePlugin factories config behaviour plugin manifest now with
    | (.ok _,next) => Staged config first next ∧ next.states.get? plugin = some .active ∧
        ∀ other, now.states.get? other = some .active → next.states.get? other = some .active
    | (.error _,next) => CleanedUp next.calls := by
  have hactivate : ∀ other, now.states.get? other = some .active →
      (now.states.insert plugin .active).get? other = some .active := by
    intro other hother
    by_cases hsame : other = plugin
    · rw [hsame]
      exact now.states.get?_insert_self plugin .active
    · rw [now.states.get?_insert_of_ne _ hsame, hother]
  generalize hresult : stagePlugin factories config behaviour plugin manifest now = result
  have hstep : StageStep factories config behaviour plugin manifest now result :=
    hresult ▸ stagePlugin_step
  cases hstep with
  | active hactive => exact ⟨h,hactive,fun other hother => hother⟩
  | unobtained error => exact h.cleanedUp_now
  | resource hnew hresource =>
    refine ⟨?_,now.states.get?_insert_self plugin .active,hactivate⟩
    have hnone := h.unstaged_instance hnew
    apply h.extend hnew hmanifest (fun _ _ => rfl) (by simp [hnone, hresource]) _ h.stopped
    simp [running, hnone]
  | failed instanceId next message hobtain =>
    exact (h.of_same (obtainInstance_same hobtain)).cleanedUp rfl rfl
  | started instanceId next hnew hresource hobtain =>
    have hsame := obtainInstance_same hobtain
    have hnext := h.of_same hsame
    have hnew' : next.states.get? plugin ≠ some .active := hsame.states ▸ hnew
    rw [← hsame.states] at hactivate ⊢
    refine ⟨?_,next.states.get?_insert_self plugin .active,hactivate⟩
    apply hnext.extend hnew' hmanifest
    · intro other hother
      exact next.instances.get?_insert_of_ne instanceId hother
    · simp [Staging.record, hresource]
    · change Runtime.started (next.calls ++ [.start plugin instanceId none]) = _
      simp [Staging.record, running, Runtime.started]
    · change Runtime.stopped (next.calls ++ [.start plugin instanceId none]) = []
      rw [stopped_append, hnext.stopped]
      rfl

theorem Consumed.obtain (h : Consumed first now)
    (hobtain : obtainInstance factories config behaviour plugin manifest now =
      .ok (some instanceId,next)) : Consumed first next := by
  rcases obtainInstance_eq_ok hobtain with ⟨-,hnone,-⟩ | ⟨_,-,-,htake | hmake⟩
  · cases hnone
  · unfold takeEmbeddedInstance at htake
    split at htake
    · cases htake
      refine ⟨fun other instanceId hget => h.taken other instanceId ?_,h.next⟩
      rw [BTreeMap.get?_erase] at hget
      split_ifs at hget
      exact hget
    · split_ifs at htake
      cases htake
      exact ⟨h.taken,h.next.trans (Nat.le_succ _)⟩
  · cases hmake
    exact ⟨h.taken,h.next.trans (Nat.le_succ _)⟩

/-- The next number belongs to no prepared instance. -/
theorem Numbered.made_next (h : Numbered first now) (plugin : PluginId) :
    Made first now.makeInstance.2 plugin now.nextInstance := by
  refine ⟨fun hget => ?_,Nat.lt_succ_self _,.inr h.next⟩
  have hlt := h.prepared plugin _ (h.taken plugin _ hget)
  exact absurd (hlt.trans_le h.next) (lt_irrefl _)

theorem Numbered.made_obtain (h : Numbered first now)
    (hobtain : obtainInstance factories config behaviour plugin manifest now =
      .ok (some instanceId,next)) : Made first next plugin instanceId := by
  rcases obtainInstance_eq_ok hobtain with ⟨-,hnone,-⟩ | ⟨_,-,hsome,htake | hmake⟩
  · cases hnone
  · cases hsome
    unfold takeEmbeddedInstance at htake
    split at htake
    · next hget =>
      cases htake
      have htaken := h.taken plugin _ hget
      exact ⟨by simp,(h.prepared plugin _ htaken).trans_le h.next,.inl htaken⟩
    · split_ifs at htake
      cases htake
      exact h.made_next plugin
  · cases hsome
    cases hmake
    exact h.made_next plugin

/-- What was made stays so. -/
theorem Made.obtain {other : PluginId} {otherId : InstanceId} (h : Made first now other otherId)
    (hobtain : obtainInstance factories config behaviour plugin manifest now =
      .ok (some instanceId,next)) : Made first next other otherId := by
  obtain ⟨hprepared,hlt,hfirst⟩ := h
  rcases obtainInstance_eq_ok hobtain with ⟨-,hnone,-⟩ | ⟨_,-,-,htake | hmake⟩
  · cases hnone
  · unfold takeEmbeddedInstance at htake
    split at htake
    · cases htake
      refine ⟨fun hget => hprepared ?_,hlt,hfirst⟩
      rw [BTreeMap.get?_erase] at hget
      split_ifs at hget
      exact hget
    · split_ifs at htake
      cases htake
      exact ⟨hprepared,hlt.trans (Nat.lt_succ_self _),hfirst⟩
  · cases hmake
    exact ⟨hprepared,hlt.trans (Nat.lt_succ_self _),hfirst⟩

theorem Numbered.step (h : Numbered first now) (hstaged : Staged config first now) :
    match stagePlugin factories config behaviour plugin manifest now with
    | (.ok _,next) => Numbered first next
    | (.error _,next) => Consumed first next := by
  generalize hresult : stagePlugin factories config behaviour plugin manifest now = result
  have hstep : StageStep factories config behaviour plugin manifest now result :=
    hresult ▸ stagePlugin_step
  cases hstep with
  | active hactive => exact h
  | unobtained error => exact ⟨h.taken,h.next⟩
  | resource hnew hresource =>
    refine ⟨⟨h.taken,h.next⟩,h.prepared,fun other hother otherId hget => ?_⟩
    rcases mem_append.mp hother with hother | hother
    · exact h.made other hother otherId hget
    · rw [mem_singleton.mp hother] at hget
      have hnone : now.instances.get? plugin = some otherId := hget
      rw [hstaged.unstaged_instance hnew] at hnone
      cases hnone
  | failed instanceId next message hobtain =>
    have hconsumed := h.toConsumed.obtain hobtain
    exact ⟨hconsumed.taken,hconsumed.next⟩
  | started instanceId next hnew hresource hobtain =>
    have hsame := obtainInstance_same hobtain
    have hconsumed := h.toConsumed.obtain hobtain
    refine ⟨⟨hconsumed.taken,hconsumed.next⟩,h.prepared,fun other hother otherId hget => ?_⟩
    have hget' : (next.instances.insert plugin instanceId).get? other = some otherId := hget
    rw [BTreeMap.get?_insert] at hget'
    split_ifs at hget' with hplugin
    · cases hget'
      rw [hplugin]
      have hmade : Made first next plugin instanceId := h.made_obtain hobtain
      exact hmade
    · rcases mem_append.mp hother with hother | hother
      · have hother' : other ∈ next.staged := hother
        rw [hsame.staged] at hother'
        rw [hsame.instances] at hget'
        have hmade : Made first next other otherId := (h.made other hother' otherId hget').obtain hobtain
        exact hmade
      · exact absurd (mem_singleton.mp hother) hplugin

end Step

section Run
variable {H : Type} (factories : BTreeSet PluginId) {config : KernelConfig}
  (behaviour : PluginBehaviour H) {first now : Staging} {entries : List (PluginId × PluginManifest)}

theorem Staged.run (h : Staged config first now)
    (hentries : ∀ entry ∈ entries, config.manifests.get? entry.1 = some entry.2) :
    match stageAll factories config behaviour entries now with
    | (.ok _,next) => Staged config first next ∧
        (∀ entry ∈ entries, next.states.get? entry.1 = some .active) ∧
        ∀ plugin, now.states.get? plugin = some .active → next.states.get? plugin = some .active
    | (.error _,next) => CleanedUp next.calls := by
  induction entries generalizing now with
  | nil =>
    refine ⟨h,?_,fun _ hactive => hactive⟩
    intro entry hentry
    cases hentry
  | cons entry entries ih =>
    rcases entry with ⟨plugin,manifest⟩
    have hstep : match stagePlugin factories config behaviour plugin manifest now with
        | (.ok _,next) => Staged config first next ∧ next.states.get? plugin = some .active ∧
            ∀ other, now.states.get? other = some .active → next.states.get? other = some .active
        | (.error _,next) => CleanedUp next.calls :=
      h.step (hentries (plugin,manifest) mem_cons_self)
    rw [stageAll]
    generalize stagePlugin factories config behaviour plugin manifest now = result at hstep
    rcases result with ⟨_ | _,next⟩
    · exact hstep
    · obtain ⟨hnext,hactive,hkeep⟩ := hstep
      have hrest := ih hnext fun other hother => hentries other (mem_cons_of_mem _ hother)
      dsimp only
      generalize stageAll factories config behaviour entries next = last at hrest
      rcases last with ⟨_ | _,last⟩
      · exact hrest
      · obtain ⟨hlast,hall,hkeep'⟩ := hrest
        refine ⟨hlast,fun other hother => ?_,fun other hother => hkeep' other (hkeep other hother)⟩
        rcases mem_cons.mp hother with rfl | hother
        · exact hkeep' plugin hactive
        · exact hall other hother

theorem Numbered.run (h : Numbered first now) (hstaged : Staged config first now)
    (hentries : ∀ entry ∈ entries, config.manifests.get? entry.1 = some entry.2) :
    match stageAll factories config behaviour entries now with
    | (.ok _,next) => Numbered first next
    | (.error _,next) => Consumed first next := by
  induction entries generalizing now with
  | nil => exact h
  | cons entry entries ih =>
    rcases entry with ⟨plugin,manifest⟩
    have hstep : match stagePlugin factories config behaviour plugin manifest now with
        | (.ok _,next) => Numbered first next
        | (.error _,next) => Consumed first next := h.step hstaged
    have hstaged' : match stagePlugin factories config behaviour plugin manifest now with
        | (.ok _,next) => Staged config first next ∧ next.states.get? plugin = some .active ∧
            ∀ other, now.states.get? other = some .active → next.states.get? other = some .active
        | (.error _,next) => CleanedUp next.calls :=
      hstaged.step (hentries (plugin,manifest) mem_cons_self)
    rw [stageAll]
    generalize stagePlugin factories config behaviour plugin manifest now = result at hstep hstaged'
    rcases result with ⟨_ | _,next⟩
    · exact hstep
    · exact ih hstep hstaged'.1 fun other hother => hentries other (mem_cons_of_mem _ hother)

end Run
end PhenixConductor.Runtime
