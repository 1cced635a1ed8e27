import PhenixConductor.Component.Graph

/-! # The check of the required imports

The edges lead from a component to the exporters that its required imports are bound to or may
fall back to.
-/
namespace PhenixConductor.Component
open Collections Contract Events ResolvedComponentGraph Authority Composition

/-- `b` is bound by a required import of `a`, or is one of its fallbacks. -/
def RequiredEdge (components : BTreeMap ComponentId ResolvedComponent) (a b : ComponentId) : Prop :=
  ∃ resolved, components.get? a = some resolved ∧ ∃ imported ∈ resolved.imports,
    imported.required = true ∧
      ∃ handle, (imported.binding = some handle ∨ handle ∈ imported.fallbacks) ∧ handle.exporter = b

theorem ResolvedComponent.mem_requiredExporters {resolved : ResolvedComponent} {b : ComponentId} :
    b ∈ resolved.requiredExporters ↔ ∃ imported ∈ resolved.imports, imported.required = true ∧
      ∃ handle, (imported.binding = some handle ∨ handle ∈ imported.fallbacks) ∧
        handle.exporter = b := by
  simp [requiredExporters, and_assoc, or_and_right, exists_or]

section Search
variable {components : BTreeMap ComponentId ResolvedComponent}

theorem requiredEdge_iff {a b : ComponentId} : RequiredEdge components a b ↔
    ∃ resolved, components.get? a = some resolved ∧ b ∈ resolved.requiredExporters := by
  simp only [RequiredEdge, ResolvedComponent.mem_requiredExporters]

/-- What a search of `targets` that started from `visited` says. -/
def SearchSound (components : BTreeMap ComponentId ResolvedComponent) (targets : List ComponentId)
    (visited : BTreeSet ComponentId) :
    Except ComponentGraphError (BTreeSet ComponentId) → Prop
  | .ok found => (∀ id ∈ found.keys, Grounded (RequiredEdge components) id) ∧
      (∀ id ∈ visited.keys, id ∈ found.keys) ∧ ∀ id ∈ targets, id ∈ found.keys
  | .error error => ∃ path, error = .requiredImportCycle path ∧
      ClosedWalk (RequiredEdge components) path

/-- The first target, and then the others from what it found. -/
theorem SearchSound.bind {target : ComponentId} {rest : List ComponentId}
    {visited : BTreeSet ComponentId} {result : Except ComponentGraphError (BTreeSet ComponentId)}
    {f : BTreeSet ComponentId → Except ComponentGraphError (BTreeSet ComponentId)}
    (h : SearchSound components [target] visited result)
    (hrest : ∀ found : BTreeSet ComponentId,
      (∀ id ∈ found.keys, Grounded (RequiredEdge components) id) →
        SearchSound components rest found (f found)) :
    SearchSound components (target :: rest) visited (result >>= f) := by
  cases result with
  | error error => exact h
  | ok found =>
    rcases h with ⟨hgrounded,hkeep,htarget⟩
    have hnext := hrest found hgrounded
    rw [ok_bind]
    generalize f found = last at hnext ⊢
    cases last with
    | error error => exact hnext
    | ok last =>
      rcases hnext with ⟨hgrounded',hkeep',htargets⟩
      refine ⟨hgrounded',fun id hid => hkeep' id (hkeep id hid),?_⟩
      intro id hid
      rcases List.mem_cons.mp hid with rfl | hid
      · exact hkeep' id (htarget id (by simp))
      · exact htargets id hid

theorem visit_sound (component : ComponentId) (visiting : List ComponentId)
    (visited : BTreeSet ComponentId)
    (hvisited : ∀ id ∈ visited.keys, Grounded (RequiredEdge components) id)
    (hchain : (visiting ++ [component]).IsChain (RequiredEdge components)) :
    SearchSound components [component] visited (visit components component visiting visited) := by
  -- `visitAll` keeps the same promise about all its exporters
  refine visit.induct components
    (fun component visiting visited =>
      (∀ id ∈ visited.keys, Grounded (RequiredEdge components) id) →
      (visiting ++ [component]).IsChain (RequiredEdge components) →
      SearchSound components [component] visited (visit components component visiting visited))
    (fun exporters visiting visited =>
      (∀ id ∈ visited.keys, Grounded (RequiredEdge components) id) →
      (∀ exporter ∈ exporters, (visiting ++ [exporter]).IsChain (RequiredEdge components)) →
      SearchSound components exporters visited (visitAll components exporters visiting visited))
    ?onPath ?known ?foreign ?entered ?done ?next component visiting visited hvisited hchain
  case onPath =>
    intro component visiting visited hmem _ hchain
    rw [visit, dif_pos hmem]
    exact ⟨_,rfl,closedWalk_of_mem hmem hchain⟩
  case known =>
    intro component visiting visited hnew hknown hvisited _
    rw [visit, dif_neg hnew, if_pos hknown]
    exact ⟨hvisited,fun _ h => h,by simpa using hknown⟩
  case foreign =>
    intro component visiting visited hnew hunknown hnone hvisited _
    rw [visit, dif_neg hnew, if_neg hunknown]
    split
    · refine ⟨?_,?_,?_⟩
      · intro id hid
        rcases (BTreeMap.mem_keys_insert _ _).mp hid with rfl | hid
        · apply Acc.intro
          rintro b ⟨resolved,hget,-⟩
          rw [hnone] at hget
          cases hget
        · exact hvisited id hid
      · intro id hid
        simp [hid]
      · simp
    · simp_all
  case entered =>
    intro component visiting visited hnew hunknown resolved hget _ ih hvisited hchain
    have hexporters : ∀ exporter ∈ resolved.requiredExporters,
        (visiting ++ [component] ++ [exporter]).IsChain (RequiredEdge components) := by
      intro exporter hexporter
      rw [List.isChain_append]
      refine ⟨hchain,.singleton _,?_⟩
      simp only [List.getLast?_append, List.getLast?_singleton, Option.some_or, Option.mem_def,
        Option.some.injEq, List.head?_cons]
      rintro _ rfl _ rfl
      exact requiredEdge_iff.mpr ⟨resolved,hget,hexporter⟩
    have hall := ih hvisited hexporters
    rw [visit, dif_neg hnew, if_neg hunknown]
    split
    · simp_all
    · rename_i resolved' hget'
      obtain rfl : resolved = resolved' := Option.some.inj (hget.symm.trans hget')
      cases hfound : visitAll components resolved.requiredExporters (visiting ++ [component])
          visited with
      | error error =>
        rw [hfound] at hall
        exact hall
      | ok found =>
        rw [hfound] at hall
        rcases hall with ⟨hgrounded,hkeep,htargets⟩
        refine ⟨?_,?_,?_⟩
        · intro id hid
          rcases (BTreeMap.mem_keys_insert _ _).mp hid with rfl | hid
          · apply Acc.intro
            intro b hb
            obtain ⟨_,hget',hb⟩ := requiredEdge_iff.mp hb
            obtain rfl : resolved = _ := Option.some.inj (hget.symm.trans hget')
            exact hgrounded b (htargets b hb)
          · exact hgrounded id hid
        · intro id hid
          simp [hkeep id hid]
        · simp
  case done =>
    intro visiting visited hvisited _
    rw [visitAll]
    exact ⟨hvisited,fun _ h => h,by simp⟩
  case next =>
    intro visiting visited exporter rest ihvisit ihrest hvisited hchains
    rw [visitAll]
    apply (ihvisit hvisited (hchains exporter (by simp))).bind
    intro found hfound
    exact ihrest found hfound fun exporter hmem => hchains exporter (by simp [hmem])

theorem visitRoots_sound (targets : List ComponentId) (visited : BTreeSet ComponentId)
    (hvisited : ∀ id ∈ visited.keys, Grounded (RequiredEdge components) id) :
    SearchSound components targets visited (targets.foldlM
      (fun visited component => visit components component [] visited) visited) := by
  induction targets generalizing visited with
  | nil => exact ⟨hvisited,fun _ h => h,by simp⟩
  | cons target targets ih =>
    exact (visit_sound target [] visited hvisited (.singleton _)).bind fun found hfound =>
      ih found hfound

/-- The check fails with a closed walk of required imports or not at all. -/
theorem validateRequiredImportDag_error {error : ComponentGraphError}
    (h : validateRequiredImportDag components = .error error) :
    ∃ path, error = .requiredImportCycle path ∧ ClosedWalk (RequiredEdge components) path := by
  have hsound : SearchSound components components.keys .empty _ :=
    visitRoots_sound components.keys .empty fun id hid => absurd hid List.not_mem_nil
  unfold validateRequiredImportDag at h
  generalize components.keys.foldlM (fun visited component => visit components component [] visited)
    .empty = result at h hsound
  cases result with
  | error _ =>
    cases h
    exact hsound
  | ok _ => cases h

/-- The check accepts the acyclic graphs. -/
theorem validateRequiredImportDag_eq_ok :
    validateRequiredImportDag components = .ok () ↔ Acyclic (RequiredEdge components) := by
  constructor
  · intro h
    have hsound : SearchSound components components.keys .empty _ :=
      visitRoots_sound components.keys .empty fun id hid => absurd hid List.not_mem_nil
    unfold validateRequiredImportDag at h
    generalize components.keys.foldlM
      (fun visited component => visit components component [] visited) .empty = result at h hsound
    cases result with
    | error _ => cases h
    | ok found =>
      rcases hsound with ⟨hgrounded,-,htargets⟩
      apply acyclic_of_grounded
      intro id
      by_cases hid : id ∈ components.keys
      · exact hgrounded id (htargets id hid)
      · apply Acc.intro
        rintro b ⟨resolved,hget,-⟩
        rw [(components.get?_eq_none).mpr hid] at hget
        cases hget
  · intro hacyclic
    cases hcheck : validateRequiredImportDag components with
    | ok _ => rfl
    | error error =>
      obtain ⟨path,-,hwalk⟩ := validateRequiredImportDag_error hcheck
      exact absurd hacyclic hwalk.not_acyclic

end Search

namespace ResolvedComponentGraph
variable {plugins : List PluginManifest} {components : List ComponentManifest}
  {harnessAuthority : Authority} {policy : Option ProviderCompositionPolicy}

/-- The subscriptions that `compile_inner` checks; their handlers do nothing. -/
def subscriptions (self : ResolvedComponentGraph) : List (EventSubscription Unit) :=
  self.listeners.map fun listener => ⟨listener.subscriptionSpec 0,()⟩

theorem compileInner_eq_ok {graph : ResolvedComponentGraph} :
    compileInner plugins components harnessAuthority policy = .ok graph ↔
      ∃ composition, of plugins components = .ok composition ∧
        composition.resolveAll harnessAuthority policy = .ok graph ∧
        Acyclic (RequiredEdge graph.components) ∧
        validateSubscriptions graph.subscriptions = .ok () := by
  rw [compileInner, bind_eq_ok]
  apply exists_congr
  intro composition
  apply and_congr_right
  intro _
  rw [bind_eq_ok]
  constructor
  · rintro ⟨graph',hresolve,hrest⟩
    rw [seq_eq_ok, seq_eq_ok, mapError_eq_ok, validateRequiredImportDag_eq_ok] at hrest
    rcases hrest with ⟨hacyclic,hlisteners,hok⟩
    cases hok
    exact ⟨hresolve,hacyclic,hlisteners⟩
  · rintro ⟨hresolve,hacyclic,hlisteners⟩
    refine ⟨graph,hresolve,?_⟩
    rw [seq_eq_ok, seq_eq_ok, mapError_eq_ok, validateRequiredImportDag_eq_ok]
    exact ⟨hacyclic,hlisteners,rfl⟩

end ResolvedComponentGraph

section Errors
variable {path : List ComponentId}

theorem validateComponentManifest_ne_cycle (manifest : ComponentManifest) :
    validateComponentManifest manifest ≠ .error (.requiredImportCycle path) := by
  intro h
  rcases bind_eq_error.mp h with himports | ⟨_,-,hexports⟩
  · obtain ⟨_,-,herror | herror⟩ := register_eq_error himports <;> cases herror
  · rcases bind_eq_error.mp hexports with hexports | ⟨_,-,hdone⟩
    · obtain ⟨_,-,herror | herror⟩ := register_eq_error hexports <;> cases herror
    · cases hdone

theorem validateOwned_ne_cycle (plugins : BTreeMap PluginId PluginManifest)
    (manifest : ComponentManifest) :
    validateOwned plugins manifest ≠ .error (.requiredImportCycle path) := by
  intro h
  rcases bind_eq_error.mp h with hvalid | ⟨_,-,howner⟩
  · exact validateComponentManifest_ne_cycle manifest hvalid
  · split at howner
    · cases howner
    · split_ifs at howner
      cases howner

theorem Composition.of_ne_cycle (plugins : List PluginManifest)
    (components : List ComponentManifest) :
    of plugins components ≠ .error (.requiredImportCycle path) := by
  intro h
  unfold of at h
  split at h
  · rename_i error hplugins
    cases h
    obtain ⟨_,-,herror | herror⟩ := register_eq_error hplugins <;> cases herror
  · split at h
    · rename_i error hcomponents
      cases h
      obtain ⟨manifest,-,herror | herror⟩ := register_eq_error hcomponents
      · exact validateOwned_ne_cycle _ manifest herror
      · cases herror
    · cases h

theorem Composition.resolveImport_ne_cycle {composition : Composition}
    (policy : Option ProviderCompositionPolicy) (authority : Authority) (imported : ComponentImport)
    (manifest : composition.Member) :
    resolveImport policy authority imported manifest ≠ .error (.requiredImportCycle path) := by
  intro h
  rcases bind_eq_error.mp h with hbinding | ⟨_,-,hdone⟩
  · unfold bindImport at hbinding
    split at hbinding
    · cases hbinding
    · split_ifs at hbinding
      split at hbinding <;> cases hbinding
  · cases hdone

theorem Composition.resolveAll_ne_cycle (composition : Composition) (harnessAuthority : Authority)
    (policy : Option ProviderCompositionPolicy) :
    composition.resolveAll harnessAuthority policy ≠ .error (.requiredImportCycle path) := by
  intro h
  obtain ⟨manifest,-,graph,hturn⟩ := foldlM_eq_error h
  rcases bind_eq_error.mp hturn with hresolve | ⟨_,-,hdone⟩
  · rcases bind_eq_error.mp hresolve with himports | ⟨_,-,hdone⟩
    · obtain ⟨imported,-,himport⟩ := mapM_eq_error himports
      exact resolveImport_ne_cycle policy _ imported manifest himport
    · cases hdone
  · cases hdone

end Errors

/-- The required imports of a compiled graph are acyclic, and a reported cycle is a
closed walk through required bindings and fallbacks of the graph that was refused. -/
theorem required_imports_acyclic (plugins : List PluginManifest)
    (components : List ComponentManifest) (harnessAuthority : Authority)
    (policy : Option ProviderCompositionPolicy) :
    (∀ graph, compileInner plugins components harnessAuthority policy =
        .ok graph → Acyclic (RequiredEdge graph.components)) ∧
    ∀ path, compileInner plugins components harnessAuthority policy =
        .error (.requiredImportCycle path) →
      ∃ composition graph, of plugins components = .ok composition ∧
        composition.resolveAll harnessAuthority policy = .ok graph ∧
        ClosedWalk (RequiredEdge graph.components) path := by
  constructor
  · intro graph h
    obtain ⟨_,-,-,hacyclic,-⟩ := compileInner_eq_ok.mp h
    exact hacyclic
  · intro path h
    rcases bind_eq_error.mp h with hof | ⟨composition,hof,h⟩
    · exact absurd hof (of_ne_cycle plugins components)
    · rcases bind_eq_error.mp h with hresolve | ⟨graph,hresolve,h⟩
      · exact absurd hresolve (composition.resolveAll_ne_cycle harnessAuthority policy)
      · refine ⟨composition,graph,hof,hresolve,?_⟩
        rcases bind_eq_error.mp h with hcheck | ⟨_,-,h⟩
        · obtain ⟨_,herror,hwalk⟩ := validateRequiredImportDag_error hcheck
          cases herror
          exact hwalk
        · rcases bind_eq_error.mp h with hlisteners | ⟨_,-,h⟩
          · generalize validateSubscriptions _ = result at hlisteners
            cases result <;> cases hlisteners
          · cases h

section SelfImport

def demoInterface : InterfaceId := ⟨"phenix.demo@1",by decide⟩
def demoPlugin : PluginManifest where
  id := ⟨"plugin",by decide⟩
  version := 1
  execution := .embedded
  dependencies := []
  services := []
  resourceNamespaces := []
  maximumAuthority := new []
def consumer : ComponentId := ⟨"consumer",by decide⟩

/-- A component that is the only provider of an interface it requires. -/
def selfImporter : ComponentManifest where
  id := consumer
  owner := demoPlugin.id
  imports := [⟨demoInterface,.default,true,new []⟩]
  exports := [⟨demoInterface,.default,0,new []⟩]
  listeners := []
  maximumAuthority := new []

theorem exists_resolved_selfImporter : ∃ composition graph resolved,
    of [demoPlugin] [selfImporter] = .ok composition ∧
    composition.resolveAll (new []) none = .ok graph ∧
    graph.components.keys = [consumer] ∧ graph.components.get? consumer = some resolved ∧
    resolved.requiredExporters = [consumer] :=
  ⟨_,_,_,rfl,rfl,rfl,rfl,rfl⟩

theorem compile_selfImporter : compileInner [demoPlugin] [selfImporter]
    (new []) none = .error (.requiredImportCycle [consumer,consumer]) := by
  obtain ⟨composition,graph,resolved,hof,hresolve,hkeys,hget,hexporters⟩ :=
    exists_resolved_selfImporter
  have hvisit : visit graph.components consumer [] .empty =
      .error (.requiredImportCycle [consumer,consumer]) := by
    rw [visit, dif_neg (by simp), if_neg (by simp [BTreeMap.empty])]
    split
    · simp_all
    · rename_i resolved' hget'
      obtain rfl : resolved = resolved' := Option.some.inj (hget.symm.trans hget')
      rw [hexporters, visitAll, visit]
      simp
  rw [compileInner, hof, ok_bind, hresolve, ok_bind,
    validateRequiredImportDag, hkeys, List.foldlM_cons, hvisit]
  rfl

theorem required_imports_acyclic_self : ∃ composition graph,
    of [demoPlugin] [selfImporter] = .ok composition ∧
    composition.resolveAll (new []) none = .ok graph ∧
    ClosedWalk (RequiredEdge graph.components) [consumer,consumer] :=
  (required_imports_acyclic [demoPlugin] [selfImporter] (new []) none).2 _
    compile_selfImporter

end SelfImport
end PhenixConductor.Component

/-! ## Compilation does not depend on the order of the manifests

The manifests reach the resolver only through the maps of a `Composition`, and
two orders of the same manifests make the same composition or none.
-/
namespace PhenixConductor.Component
open Collections Contract ResolvedComponentGraph Authority Composition

theorem ResolvedComponentGraph.compileInner_perm {plugins plugins' : List PluginManifest}
    {components components' : List ComponentManifest} (hplugins : plugins.Perm plugins')
    (hcomponents : components.Perm components') (harnessAuthority : Authority)
    (policy : Option ProviderCompositionPolicy) :
    SameOutcome (compileInner plugins components harnessAuthority policy)
      (compileInner plugins' components' harnessAuthority policy) := by
  apply SameOutcome.bind
  · intro composition
    exact of_perm hplugins hcomponents
  · intro composition
    exact SameOutcome.refl _

/-- Two compilations of the same manifests in any two orders both fail, or make
the same graph. -/
theorem compile_order_independent (plugins plugins' : List PluginManifest)
    (components components' : List ComponentManifest) (harnessAuthority : Authority)
    (policy : ProviderCompositionPolicy) (hplugins : plugins.Perm plugins')
    (hcomponents : components.Perm components') :
    (∃ error error', compileWithProviderPolicy plugins components
        harnessAuthority policy = .error error ∧
      compileWithProviderPolicy plugins' components' harnessAuthority
        policy = .error error') ∨
    ∃ graph, compileWithProviderPolicy plugins components harnessAuthority
        policy = .ok graph ∧
      compileWithProviderPolicy plugins' components' harnessAuthority
        policy = .ok graph :=
  sameOutcome_iff.mp
    (compileInner_perm hplugins hcomponents harnessAuthority (some policy))

section Providers

def aProvider : ComponentId := ⟨"a-provider",by decide⟩
def zProvider : ComponentId := ⟨"z-provider",by decide⟩

def exporter (id : ComponentId) (priority : ℤ) : ComponentManifest where
  id := id
  owner := demoPlugin.id
  imports := []
  exports := [⟨demoInterface,.default,priority,new []⟩]
  listeners := []
  maximumAuthority := new []

def importer : ComponentManifest where
  id := consumer
  owner := demoPlugin.id
  imports := [⟨demoInterface,.default,true,new []⟩]
  exports := []
  listeners := []
  maximumAuthority := new []

/-- Prefers the provider with the greater id, and allows a fallback. -/
def demoPolicy : ProviderCompositionPolicy where
  interfaces := BTreeMap.empty.insert demoInterface
    { explicit := none
      priorities := BTreeMap.empty.insert zProvider 10
      disabled := .empty
      interfaceAllowsFallback := true
      fallbackEnabled := true }

/-- The consumer is bound to the preferred provider, with the other one behind it. -/
theorem exists_resolved : ∃ composition graph,
    of [demoPlugin] [exporter zProvider 10,importer,exporter aProvider 10] =
      .ok composition ∧
    composition.resolveAll (new []) (some demoPolicy) = .ok graph ∧
    graph.components.toList.map (fun entry => (entry.1,entry.2.requiredExporters)) =
      [(aProvider,[]),(consumer,[zProvider,aProvider]),(zProvider,[])] ∧ graph.listeners = [] :=
  ⟨_,_,rfl,rfl,rfl,rfl⟩

theorem exists_compiled : ∃ graph, compileWithProviderPolicy [demoPlugin]
    [exporter zProvider 10,importer,exporter aProvider 10] (new []) demoPolicy =
      .ok graph := by
  obtain ⟨composition,graph,hof,hresolve,hexporters,hlisteners⟩ := exists_resolved
  have hacyclic : Acyclic (RequiredEdge graph.components) := by
    apply acyclic_of_rank fun id => if id = consumer then 1 else 0
    intro id exporter hedge
    obtain ⟨resolved,hget,hexporter⟩ := requiredEdge_iff.mp hedge
    have hmem : (id,resolved.requiredExporters) ∈ graph.components.toList.map
        fun entry => (entry.1,entry.2.requiredExporters) :=
      List.mem_map.mpr ⟨(id,resolved),graph.components.mem_toList.mpr hget,rfl⟩
    rw [hexporters] at hmem
    simp only [List.mem_cons, Prod.mk.injEq, List.not_mem_nil, or_false] at hmem
    rcases hmem with ⟨rfl,hnone⟩ | ⟨rfl,hboth⟩ | ⟨rfl,hnone⟩
    · simp [hnone] at hexporter
    · rw [hboth] at hexporter
      rcases List.mem_pair.mp hexporter with rfl | rfl <;> decide
    · simp [hnone] at hexporter
  refine ⟨graph,?_⟩
  rw [compileWithProviderPolicy, compileInner, hof,
    ok_bind, hresolve, ok_bind, validateRequiredImportDag_eq_ok.mpr hacyclic, ok_bind, hlisteners]
  rfl

/-- The registration order of two providers and their consumer. -/
theorem compile_order_independent_providers : ∃ graph,
    compileWithProviderPolicy [demoPlugin]
        [exporter zProvider 10,importer,exporter aProvider 10] (new []) demoPolicy =
      .ok graph ∧
    compileWithProviderPolicy [demoPlugin]
        [exporter aProvider 10,exporter zProvider 10,importer] (new []) demoPolicy =
      .ok graph := by
  have hperm : List.Perm [exporter zProvider 10,importer,exporter aProvider 10]
      [exporter aProvider 10,exporter zProvider 10,importer] :=
    ((List.Perm.swap _ _ []).cons _).trans (.swap _ _ _)
  rcases compile_order_independent [demoPlugin] [demoPlugin] _ _ (new []) demoPolicy
    (.refl _) hperm with ⟨error,_,herror,-⟩ | hgraph
  · obtain ⟨graph,hgraph⟩ := exists_compiled
    rw [hgraph] at herror
    cases herror
  · exact hgraph

end Providers
end PhenixConductor.Component
