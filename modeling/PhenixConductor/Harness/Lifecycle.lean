import PhenixConductor.Harness.Restart

/-! # Contradictory actions

A component is activated, stopped or restarted.
-/
namespace PhenixConductor.Harness
open Collections Contract Component Relation GraphDiff
variable (previous next : ResolvedHarness)

def presentIds (harness : ResolvedHarness) : List ComponentId := harness.components.map (·.id)

/-- The component whose life an action changes. -/
def ReconciliationAction.lifecycle : ReconciliationAction → Option ComponentId
  | .activateComponent component => some component
  | .stopComponent component => some component
  | .restartComponent component => some component
  | .rebindImport _ => none
  | .reconfigureInterposition _ => none
  | .invalidateResourceDerivedState _ _ => none

structure Consistent (actions : List ReconciliationAction) : Prop where
  once : (actions.filterMap (·.lifecycle)).Nodup
  activates : ∀ x, .activateComponent x ∈ actions → x ∉ presentIds previous
  stops : ∀ x, .stopComponent x ∈ actions → x ∉ presentIds next
  restarts : ∀ x, .restartComponent x ∈ actions → x ∈ presentIds previous ∧ x ∈ presentIds next

/-- What is in a set or is led to from `x` without entering the set. -/
def reach (r : ComponentId → ComponentId → Prop) (s : Set ComponentId) (x : ComponentId) :
    Set ComponentId :=
  s ∪ {y | TransGen (Avoiding r s) x y}

/-- What the components of a list reach through required bindings, one after another and each
in the active graph and then in the candidate graph, around what was reached before. -/
def Reached (changed : List ComponentId) : Set ComponentId :=
  changed.foldl (fun s x =>
    reach (fun a b => Requires next.componentGraph b a)
      (reach (fun a b => Requires previous.componentGraph b a) (insert x s) x) x) ∅

theorem marks_collectRequiredDependents (harness : ResolvedHarness) (x : ComponentId)
    (affected : BTreeSet ComponentId) :
    marks (collectRequiredDependents harness x affected) =
      reach (fun a b => Requires harness.componentGraph b a) (marks affected) x := by
  rw [← follows_directDependents]
  ext y
  exact mem_markAll_next _ x affected y

theorem marks_restartsOf_eq (changed : List ComponentId) :
    marks (restartsOf previous next changed) = Reached previous next changed := by
  have hempty : marks (.empty : BTreeSet ComponentId) = ∅ := by simp [marks, BTreeMap.empty]
  rw [Reached, ← hempty]
  apply (List.foldl_hom marks _).symm
  intro restart x
  rw [addRestarts, marks_collectRequiredDependents, marks_collectRequiredDependents, marks_insert]

variable {previous next}

variable {x : ComponentId}

theorem mem_keys_indexComponents {harness : ResolvedHarness} :
    x ∈ (indexComponents harness).keys ↔ x ∈ presentIds harness := by
  rw [indexComponents, BTreeMap.mem_keys_ofList, List.map_map]
  rfl

theorem mem_componentChanges {change : ComponentChange} (h : change ∈ componentChanges previous next) :
    match change.kind with
    | .added => change.component ∉ presentIds previous ∧ change.component ∈ presentIds next
    | .removed => change.component ∈ presentIds previous ∧ change.component ∉ presentIds next
    | .reconfigured => change.component ∈ presentIds previous ∧ change.component ∈ presentIds next := by
  obtain ⟨id,-,hchange⟩ := List.mem_filterMap.mp h
  unfold componentChange at hchange
  simp only [← mem_keys_indexComponents, BTreeMap.mem_keys_iff]
  cases hprevious : (indexComponents previous).get? id <;>
    cases hnext : (indexComponents next).get? id <;> rw [hprevious, hnext] at hchange
  · cases hchange
  · cases hchange
    simp [hprevious, hnext]
  · cases hchange
    simp [hprevious, hnext]
  · dsimp only at hchange
    split_ifs at hchange
    cases hchange
    simp [hprevious, hnext]

theorem nodup_componentChanges : ((componentChanges previous next).map (·.component)).Nodup := by
  have hkeys : (allKeys (indexComponents previous) (indexComponents next)).Nodup :=
    BTreeMap.nodup_keys _
  rw [componentChanges, List.map_filterMap]
  refine hkeys.filterMap fun id id' component h h' => ?_
  have hid : ∀ id, component ∈ (componentChange previous next id).map (·.component) → component = id := by
    intro id h
    obtain ⟨change,hchange,rfl⟩ := Option.map_eq_some_iff.mp h
    unfold componentChange at hchange
    split at hchange
    · cases hchange
      rfl
    · cases hchange
      rfl
    · split_ifs at hchange
      cases hchange
      rfl
    · cases hchange
  exact (hid id h).symm.trans (hid id' h')

/-- The components that the plan has lifecycle actions for, in order. -/
theorem lifecycle_transitionPlan :
    (transitionPlan previous next (between previous next)).filterMap (·.lifecycle) =
      ((componentChanges previous next).filter (·.kind ≠ .reconfigured)).map (·.component) ++
        (restartsOf previous next (reconfigured previous next)).keys := by
  have hchanges : ∀ changes : List ComponentChange,
      (changes.filterMap changeAction).filterMap (·.lifecycle) =
        (changes.filter (·.kind ≠ .reconfigured)).map (·.component) := by
    intro changes
    induction changes with
    | nil => rfl
    | cons change changes ih =>
      rcases change with ⟨component,kind⟩
      cases kind with
      | added => exact congrArg (component :: ·) ih
      | removed => exact congrArg (component :: ·) ih
      | reconfigured => exact ih
  have hresources : ∀ changes : List ResourceChange,
      (changes.filterMap invalidationAction).filterMap (·.lifecycle) = [] := by
    intro changes
    rw [List.filterMap_eq_nil_iff]
    intro action haction
    obtain ⟨change,-,hchange⟩ := List.mem_filterMap.mp haction
    unfold invalidationAction at hchange
    split_ifs at hchange
    cases hchange
    rfl
  rw [restartsOf, reconfigured, ← foldl_addRestarts]
  simp only [transitionPlan, between, List.filterMap_append, hchanges, hresources,
    List.filterMap_map, List.append_nil]
  simp [Function.comp_def, ReconciliationAction.lifecycle]

theorem mem_transitionPlan {action : ReconciliationAction}
    (h : action ∈ transitionPlan previous next (between previous next))
    (hlife : action.lifecycle = some x) (hrestart : action ≠ .restartComponent x) :
    ∃ change ∈ componentChanges previous next, changeAction change = some action := by
  simp only [transitionPlan, between, List.mem_append] at h
  rcases h with (((h | h) | h) | h) | h
  · exact List.mem_filterMap.mp h
  · obtain ⟨y,-,rfl⟩ := List.mem_map.mp h
    cases hlife
    exact absurd rfl hrestart
  · obtain ⟨change,-,rfl⟩ := List.mem_map.mp h
    cases hlife
  · obtain ⟨change,-,rfl⟩ := List.mem_map.mp h
    cases hlife
  · obtain ⟨change,-,hchange⟩ := List.mem_filterMap.mp h
    unfold invalidationAction at hchange
    split_ifs at hchange
    cases hchange
    cases hlife

/-- What the plan activates or stops, the other harness does not have. -/
theorem activates_absent
    (h : .activateComponent x ∈ transitionPlan previous next (between previous next)) :
    x ∉ presentIds previous := by
  obtain ⟨⟨component,kind⟩,hchange,haction⟩ := mem_transitionPlan h rfl nofun
  have hpresent := mem_componentChanges hchange
  cases kind <;> cases haction
  exact hpresent.1

theorem stops_absent (h : .stopComponent x ∈ transitionPlan previous next (between previous next)) :
    x ∉ presentIds next := by
  obtain ⟨⟨component,kind⟩,hchange,haction⟩ := mem_transitionPlan h rfl nofun
  have hpresent := mem_componentChanges hchange
  cases kind <;> cases haction
  exact hpresent.2

/-- What is walked to depends on a component of the list. -/
theorem reached_subset (changed : List ComponentId) :
    Reached previous next changed ⊆ Affected previous next changed := by
  induction changed using List.reverseRecOn with
  | nil => exact Set.empty_subset _
  | append_singleton changed x ih =>
    rw [affected_append, Reached, List.foldl_append, List.foldl_cons, List.foldl_nil,
      dependents_eq, dependents_eq]
    rintro y ((hy | hy) | hy)
    · exact .inl (.inl (Set.insert_subset_insert ih hy))
    · exact .inl (.inr (transGen_of_avoiding hy))
    · exact .inr (transGen_of_avoiding hy)

/-- The actions of a plan are consistent exactly when the walks meet only components that both
harnesses have. For that it is enough that no other component depends on a reconfigured one. -/
theorem transitionPlan_consistent (previous next : ResolvedHarness) :
    (Consistent previous next (transitionPlan previous next (between previous next)) ↔
      ∀ y ∈ Reached previous next (reconfigured previous next),
        y ∈ presentIds previous ∧ y ∈ presentIds next) ∧
    ((∀ y ∈ Affected previous next (reconfigured previous next),
        y ∈ presentIds previous ∧ y ∈ presentIds next) →
      Consistent previous next (transitionPlan previous next (between previous next))) := by
  have hiff : Consistent previous next (transitionPlan previous next (between previous next)) ↔
      ∀ y ∈ Reached previous next (reconfigured previous next),
        y ∈ presentIds previous ∧ y ∈ presentIds next := by
    rw [← marks_restartsOf_eq]
    constructor
    · intro h y hy
      exact h.restarts y ((restartComponent_mem previous next y).mpr hy)
    · intro h
      refine ⟨?_,fun _ => activates_absent,fun _ => stops_absent,fun x hx =>
        h x ((restartComponent_mem previous next x).mp hx)⟩
      rw [lifecycle_transitionPlan, List.nodup_append']
      refine ⟨?_,BTreeMap.nodup_keys _,?_⟩
      · exact nodup_componentChanges.sublist (List.Sublist.map _ List.filter_sublist)
      · intro x hchanged hrestarted
        obtain ⟨⟨component,kind⟩,hchange,rfl⟩ := List.mem_map.mp hchanged
        obtain ⟨hmem,hkind⟩ := List.mem_filter.mp hchange
        have hpresent := mem_componentChanges hmem
        obtain ⟨hprevious,hnext⟩ := h component hrestarted
        cases kind with
        | added => exact hpresent.1 hprevious
        | removed => exact hpresent.2 hnext
        | reconfigured => cases hkind
  exact ⟨hiff,fun h => hiff.mpr fun y hy => h y (reached_subset _ hy)⟩

/-! ### A viewer that is removed while its disk changes -/

def viewedBefore : List ComponentManifest :=
  [demoComponent disk [] [storage],demoComponent viewer [storage] []]

def viewedAfter : List ComponentManifest := [demoComponent disk [] [storage,demoInterface]]

theorem exists_viewedGraphs : ∃ graph graph',
    uncheckedGraph [demoPlugin] (sortByKey (·.id) viewedBefore) (.new []) ⟨.empty⟩ = some graph ∧
    uncheckedGraph [demoPlugin] (sortByKey (·.id) viewedAfter) (.new []) ⟨.empty⟩ = some graph' ∧
    Descends demoRank graph ∧ Descends demoRank graph' ∧ graph.listeners = [] ∧
    graph'.listeners = [] ∧ Requires graph viewer disk := by
  have hrun : (match uncheckedGraph [demoPlugin] (sortByKey (·.id) viewedBefore) (.new []) ⟨.empty⟩,
      uncheckedGraph [demoPlugin] (sortByKey (·.id) viewedAfter) (.new []) ⟨.empty⟩ with
    | some graph,some graph' => graph.listeners.isEmpty && graph'.listeners.isEmpty &&
        decide (Descends demoRank graph ∧ Descends demoRank graph' ∧ Requires graph viewer disk)
    | some _,none | none,_ => false) = true := by decide +kernel
  split at hrun
  · next graph graph' hgraph hgraph' =>
    simp only [Bool.and_eq_true, List.isEmpty_iff, decide_eq_true_eq] at hrun
    obtain ⟨⟨hlisteners,hlisteners'⟩,hrank,hrank',hrest⟩ := hrun
    exact ⟨graph,graph',hgraph,hgraph',hrank,hrank',hlisteners,hlisteners',hrest⟩
  · cases hrun
  · cases hrun

/-- The viewer is stopped and restarted. -/
theorem viewer_stopped_and_restarted : ∃ previous next, demoResolve [] viewedBefore = .ok previous ∧
    demoResolve [] viewedAfter = .ok next ∧
    .stopComponent viewer ∈ transitionPlan previous next (between previous next) ∧
    .restartComponent viewer ∈ transitionPlan previous next (between previous next) ∧
    ¬Consistent previous next (transitionPlan previous next (between previous next)) := by
  obtain ⟨graph,graph',hgraph,hgraph',hrank,hrank',hlisteners,hlisteners',hviewer⟩ :=
    exists_viewedGraphs
  have hempty : ∀ components, resolveResources components (.new []) [] = .ok [] := fun _ => rfl
  obtain ⟨previous,hprevious,hbefore,rfl⟩ := exists_demoResolve (hempty _) hgraph hrank hlisteners
  obtain ⟨next,hnext,hafter,rfl⟩ := exists_demoResolve (hempty _) hgraph' hrank' hlisteners'
  have hchanges : componentChanges previous next = [⟨disk,.reconfigured⟩,⟨viewer,.removed⟩] := by
    unfold componentChanges componentChange indexComponents
    rw [hbefore, hafter]
    decide +kernel
  have hstop : .stopComponent viewer ∈ transitionPlan previous next (between previous next) := by
    simp [transitionPlan, between, hchanges, changeAction]
  have hrestart : .restartComponent viewer ∈
      transitionPlan previous next (between previous next) := by
    rw [restartComponent_mem, marks_restartsOf_eq, reconfigured, hchanges]
    have hnew : viewer ∉ insert disk (∅ : Set ComponentId) := by
      rw [insert_empty_eq, Set.mem_singleton_iff]
      decide
    exact .inl (.inr (.single ⟨hviewer,hnew⟩))
  refine ⟨previous,next,hprevious,hnext,hstop,hrestart,fun h => ?_⟩
  exact stops_absent hstop (h.restarts viewer hrestart).2

end PhenixConductor.Harness
