import PhenixConductor.Harness.Assembly

/-! # The difference of two harnesses

`GraphDiff.between` compares the manifests, the import bindings, the layer policies and the
resources of the active harness and of a candidate.
-/
namespace PhenixConductor.Harness
open Collections Contract Component Kernel

inductive ComponentChangeKind where
  | added | removed | reconfigured
  deriving DecidableEq

structure ComponentChange where
  component : ComponentId
  kind : ComponentChangeKind
  deriving DecidableEq

structure BindingChange where
  importer : ComponentId
  interface : InterfaceId
  previousProvider : Option ComponentId
  nextProvider : Option ComponentId
  authorityChanged : Bool

structure InterpositionChange where
  service : ServiceId
  previous : List LayerPolicy
  next : List LayerPolicy

inductive ResourceChangeKind where
  | added | removed | contentChanged | reconfigured | upgraded

structure ResourceChange where
  resource : String
  kind : ResourceChangeKind
  invalidationTargets : BTreeSet String

structure GraphDiff where
  components : List ComponentChange
  bindings : List BindingChange
  interposition : List InterpositionChange
  resources : List ResourceChange

inductive ReconciliationAction where
  | activateComponent (component : ComponentId)
  | stopComponent (component : ComponentId)
  | restartComponent (component : ComponentId)
  | rebindImport (change : BindingChange)
  | reconfigureInterposition (change : InterpositionChange)
  | invalidateResourceDerivedState (resource : String) (targets : BTreeSet String)

/-- The keys of two maps, in order. -/
def allKeys {K V W : Type} [LinearOrder K] (m : BTreeMap K V) (n : BTreeMap K W) : List K :=
  (BTreeSet.collect (m.keys ++ n.keys)).keys

def indexComponents (harness : ResolvedHarness) : BTreeMap ComponentId ComponentManifest :=
  .ofList (harness.components.map fun component => (component.id,component))

def indexResources (harness : ResolvedHarness) : BTreeMap String SkillResourceMetadata :=
  .ofList (harness.resources.map fun resource => (resource.identity,resource))

/-- The exporter and the authority of every import. -/
def indexBindings (harness : ResolvedHarness) :
    BTreeMap (ComponentId ×ₗ InterfaceId) (Option ComponentId × Option Authority) :=
  .ofList (harness.componentGraph.components.values.flatMap fun component =>
    component.imports.map fun imported =>
      (toLex (component.id,imported.interface),
        (imported.binding.map (·.exporter),imported.binding.map (·.effectiveAuthority))))

section Changes
variable (previous next : ResolvedHarness)

def componentChange (id : ComponentId) : Option ComponentChange :=
  match (indexComponents previous).get? id,(indexComponents next).get? id with
  | none,some _ => some ⟨id,.added⟩
  | some _,none => some ⟨id,.removed⟩
  | some manifest,some manifest' => if manifest ≠ manifest' then some ⟨id,.reconfigured⟩ else none
  | none,none => none

def componentChanges : List ComponentChange :=
  (allKeys (indexComponents previous) (indexComponents next)).filterMap
    (componentChange previous next)

def bindingChange (key : ComponentId ×ₗ InterfaceId) : Option BindingChange :=
  let state := (indexBindings previous).get? key
  let state' := (indexBindings next).get? key
  if state = state' then none
  else some
    { importer := (ofLex key).1
      interface := (ofLex key).2
      previousProvider := state.bind (·.1)
      nextProvider := state'.bind (·.1)
      authorityChanged := state.bind (·.2) ≠ state'.bind (·.2) }

def bindingChanges : List BindingChange :=
  (allKeys (indexBindings previous) (indexBindings next)).filterMap (bindingChange previous next)

def interpositionChange (service : ServiceId) : Option InterpositionChange :=
  let layers := (previous.layerPolicies.get? service).getD []
  let layers' := (next.layerPolicies.get? service).getD []
  if layers ≠ layers' then some ⟨service,layers,layers'⟩ else none

def interpositionChanges : List InterpositionChange :=
  (allKeys previous.layerPolicies next.layerPolicies).filterMap (interpositionChange previous next)

/-- What kind of change it is when a resource is in both harnesses. -/
def resourceChangeKind (resource resource' : SkillResourceMetadata) : ResourceChangeKind :=
  if resource.contentIdentity ≠ resource'.contentIdentity then .contentChanged
  else if resource.version ≠ resource'.version then .upgraded
  else .reconfigured

def resourceChange (id : String) : Option ResourceChange :=
  match (indexResources previous).get? id,(indexResources next).get? id with
  | none,some resource => some ⟨id,.added,resource.invalidationTargets⟩
  | some resource,none => some ⟨id,.removed,resource.invalidationTargets⟩
  | some resource,some resource' =>
    if resource ≠ resource' then
      some ⟨id,resourceChangeKind resource resource',BTreeSet.collect
        (resource.invalidationTargets.keys ++ resource'.invalidationTargets.keys)⟩
    else none
  | none,none => none

def resourceChanges : List ResourceChange :=
  (allKeys (indexResources previous) (indexResources next)).filterMap (resourceChange previous next)

def GraphDiff.between : GraphDiff where
  components := componentChanges previous next
  bindings := bindingChanges previous next
  interposition := interpositionChanges previous next
  resources := resourceChanges previous next

end Changes

section Dependents
variable (graph : ResolvedComponentGraph)

/-- A required import of the component is bound to the provider. -/
def isBoundTo (component : ResolvedComponent) (provider : ComponentId) : Bool :=
  component.imports.any fun imported =>
    imported.required && imported.binding.any (·.exporter = provider)

def componentIds : List ComponentId := graph.components.values.map (·.id)

def directDependents (provider : ComponentId) : List {id // id ∈ componentIds graph} :=
  (graph.components.values.attach.filter fun component => isBoundTo component.1 provider).map
    fun component => ⟨component.1.id,List.mem_map_of_mem component.2⟩

/-- The recursive calls share one set, which also tells them where not to go. -/
def collectRequiredDependents (harness : ResolvedHarness) (provider : ComponentId)
    (affected : BTreeSet ComponentId) : BTreeSet ComponentId :=
  markAll (directDependents harness.componentGraph)
    (directDependents harness.componentGraph provider) affected

end Dependents

section Plan
variable (previous next : ResolvedHarness)

def changeAction (change : ComponentChange) : Option ReconciliationAction :=
  match change.kind with
  | .added => some (.activateComponent change.component)
  | .removed => some (.stopComponent change.component)
  | .reconfigured => none

/-- The loop over the component changes, as far as it is about `restart`. -/
def addRestarts (restart : BTreeSet ComponentId) (change : ComponentChange) :
    BTreeSet ComponentId :=
  match change.kind with
  | .added | .removed => restart
  | .reconfigured =>
    collectRequiredDependents next change.component
      (collectRequiredDependents previous change.component (restart.insert change.component ()))

def invalidationAction (change : ResourceChange) : Option ReconciliationAction :=
  if change.invalidationTargets.keys.isEmpty then none
  else some (.invalidateResourceDerivedState change.resource change.invalidationTargets)

def transitionPlan (diff : GraphDiff) : List ReconciliationAction :=
  let restart := diff.components.foldl (addRestarts previous next) .empty
  diff.components.filterMap changeAction ++ restart.keys.map .restartComponent ++
    diff.bindings.map .rebindImport ++ diff.interposition.map .reconfigureInterposition ++
      diff.resources.filterMap invalidationAction

end Plan
end PhenixConductor.Harness

/-! ## Which components are restarted

The walks over the dependents of the reconfigured components share one set of
marks. A walk in one graph goes around the components that a walk in the other
graph has marked, and misses what depends on a reconfigured component only through
them.
-/
namespace PhenixConductor.Harness
open Collections Contract Component Relation
variable (previous next : ResolvedHarness)

/-- A required import of the first component is bound to the second. -/
def Requires (graph : ResolvedComponentGraph) (a b : ComponentId) : Prop :=
  ∃ component ∈ graph.components.values, component.id = a ∧ isBoundTo component b = true

instance (graph : ResolvedComponentGraph) (a b : ComponentId) : Decidable (Requires graph a b) :=
  inferInstanceAs (Decidable (∃ component ∈ graph.components.values,
    component.id = a ∧ isBoundTo component b = true))

/-- All that reach a component through one or more required bindings. -/
def dependents (harness : ResolvedHarness) (x : ComponentId) : Set ComponentId :=
  {y | TransGen (Requires harness.componentGraph) y x}

/-- The reconfigured components, in the order of their ids. -/
def reconfigured : List ComponentId :=
  ((componentChanges previous next).filter (·.kind = .reconfigured)).map (·.component)

/-- What the components of a list affect: themselves and their dependents in either graph. -/
def Affected (changed : List ComponentId) : Set ComponentId :=
  {y | ∃ x ∈ changed, y = x ∨ y ∈ dependents previous x ∨ y ∈ dependents next x}

/-- The restarts of the plan hold every reconfigured component and its dependents in each
of the two graphs. -/
def RestartComplete : Prop :=
  ∀ y ∈ Affected previous next (reconfigured previous next),
    .restartComponent y ∈ transitionPlan previous next (GraphDiff.between previous next)

/-- Every dependent of a reconfigured component, in the active graph and then in the
candidate graph, is affected by what comes before or depends on it through components
none of which is. -/
def NotCutOff (changed : List ComponentId) : Prop :=
  ∀ before x after, changed = before ++ x :: after →
    Uncut (fun a b => Requires previous.componentGraph b a) (insert x (Affected previous next before)) x ∧
    Uncut (fun a b => Requires next.componentGraph b a)
      (insert x (Affected previous next before) ∪ dependents previous x) x

theorem follows_directDependents (graph : ResolvedComponentGraph) :
    Follows (directDependents graph) = fun a b => Requires graph b a := by
  funext a b
  apply propext
  simp only [Follows, directDependents, Requires, List.mem_map, List.mem_filter, List.mem_attach,
    true_and]
  constructor
  · rintro ⟨_,⟨component,hbound,rfl⟩,rfl⟩
    exact ⟨component.1,component.2,rfl,hbound⟩
  · rintro ⟨component,hcomponent,rfl,hbound⟩
    exact ⟨_,⟨⟨component,hcomponent⟩,hbound,rfl⟩,rfl⟩

theorem dependents_eq (harness : ResolvedHarness) (x : ComponentId) :
    dependents harness x = {y | TransGen (fun a b => Requires harness.componentGraph b a) x y} := by
  ext y
  exact transGen_swap.symm

theorem collectRequiredDependents_complete (harness : ResolvedHarness) (x : ComponentId)
    (affected : BTreeSet ComponentId) :
    marks (collectRequiredDependents harness x affected) = marks affected ∪ dependents harness x ↔
      Uncut (fun a b => Requires harness.componentGraph b a) (marks affected) x := by
  rw [dependents_eq, ← follows_directDependents]
  exact markAll_next_complete _ x affected

theorem collectRequiredDependents_subset (harness : ResolvedHarness) (x : ComponentId)
    (affected : BTreeSet ComponentId) :
    marks affected ⊆ marks (collectRequiredDependents harness x affected) ∧
      marks (collectRequiredDependents harness x affected) ⊆
        marks affected ∪ dependents harness x := by
  rw [dependents_eq, ← follows_directDependents]
  constructor
  · intro y hy
    exact (mem_markAll_next _ x affected y).mpr (.inl hy)
  · intro y hy
    rcases (mem_markAll_next _ x affected y).mp hy with hy | hy
    · exact .inl hy
    · exact .inr (transGen_of_avoiding hy)

/-- The restarts after the reconfigured components of a list. -/
def restartsOf (changed : List ComponentId) : BTreeSet ComponentId :=
  changed.foldl (fun restart x => addRestarts previous next restart ⟨x,.reconfigured⟩) .empty

theorem foldl_addRestarts (changes : List ComponentChange) (restart : BTreeSet ComponentId) :
    changes.foldl (addRestarts previous next) restart =
      ((changes.filter (·.kind = .reconfigured)).map (·.component)).foldl
        (fun restart x => addRestarts previous next restart ⟨x,.reconfigured⟩) restart := by
  induction changes generalizing restart with
  | nil => rfl
  | cons change changes ih =>
    rcases change with ⟨component,kind⟩
    cases kind <;> simp [ih, addRestarts]

theorem restartComponent_mem (y : ComponentId) :
    .restartComponent y ∈ transitionPlan previous next (GraphDiff.between previous next) ↔
      y ∈ marks (restartsOf previous next (reconfigured previous next)) := by
  have hactions : ∀ change, changeAction change ≠ some (.restartComponent y) := by
    rintro ⟨component,kind⟩
    cases kind <;> simp [changeAction]
  have hresources : ∀ change, invalidationAction change ≠ some (.restartComponent y) := by
    intro change
    unfold invalidationAction
    split_ifs <;> simp
  rw [restartsOf, reconfigured, ← foldl_addRestarts]
  simp [transitionPlan, GraphDiff.between, marks, hactions, hresources]

variable {previous next}

theorem affected_append (before : List ComponentId) (x : ComponentId) :
    Affected previous next (before ++ [x]) =
      insert x (Affected previous next before) ∪ dependents previous x ∪ dependents next x := by
  ext y
  simp only [Affected, List.mem_append, List.mem_singleton, Set.mem_ofPred_eq, Set.mem_union,
    Set.mem_insert_iff]
  constructor
  · rintro ⟨z,hz | rfl,hy⟩
    · exact .inl (.inl (.inr ⟨z,hz,hy⟩))
    · rcases hy with hy | hy | hy
      · exact .inl (.inl (.inl hy))
      · exact .inl (.inr hy)
      · exact .inr hy
  · rintro (((rfl | ⟨z,hz,hy⟩) | hy) | hy)
    · exact ⟨y,.inr rfl,.inl rfl⟩
    · exact ⟨z,.inl hz,hy⟩
    · exact ⟨x,.inr rfl,.inr (.inl hy)⟩
    · exact ⟨x,.inr rfl,.inr (.inr hy)⟩

theorem NotCutOff.of_append {changed : List ComponentId} {x : ComponentId}
    (h : NotCutOff previous next (changed ++ [x])) : NotCutOff previous next changed := by
  intro before y after hsplit
  apply h before y (after ++ [x])
  rw [hsplit, List.append_assoc, List.cons_append]

/-- Walks that are not cut off mark all that is affected. -/
theorem marks_restartsOf {changed : List ComponentId} (h : NotCutOff previous next changed) :
    marks (restartsOf previous next changed) = Affected previous next changed := by
  induction changed using List.reverseRecOn with
  | nil =>
    simp [restartsOf, marks, Affected, BTreeMap.empty]
  | append_singleton changed x ih =>
    obtain ⟨hprevious,hnext⟩ := h changed x [] rfl
    have hbefore := ih h.of_append
    rw [restartsOf] at hbefore
    rw [restartsOf, List.foldl_append, List.foldl_cons, List.foldl_nil, addRestarts,
      affected_append]
    generalize List.foldl _ _ changed = restart at hbefore
    have hfirst := collectRequiredDependents_complete previous x (restart.insert x ())
    rw [marks_insert, hbefore] at hfirst
    have hsecond := collectRequiredDependents_complete next x
      (collectRequiredDependents previous x (restart.insert x ()))
    rw [hfirst.mpr hprevious] at hsecond
    exact hsecond.mpr hnext

/-- With one reconfigured component nothing repairs a walk that is cut off. -/
theorem notCutOff_singleton {x : ComponentId}
    (h : Affected previous next [x] ⊆ marks (restartsOf previous next [x])) :
    NotCutOff previous next [x] := by
  intro before y after hsplit
  obtain ⟨rfl,rfl,rfl⟩ : before = [] ∧ x = y ∧ after = [] := by
    cases before with
    | nil => simpa using hsplit
    | cons z before => simp at hsplit
  have hnone : Affected previous next [] = ∅ := by simp [Affected]
  have hinsert : marks (BTreeMap.empty.insert x () : BTreeSet ComponentId) = {x} := by
    simp [marks, BTreeMap.empty]
  rw [hnone, insert_empty_eq]
  have hfirst : Uncut (fun a b => Requires previous.componentGraph b a) {x} x := uncut_singleton _ x
  refine ⟨hfirst,?_⟩
  have hwalk := collectRequiredDependents_complete previous x (.insert .empty x ())
  rw [hinsert] at hwalk
  have hmarks := hwalk.mpr hfirst
  rw [← hmarks, ← collectRequiredDependents_complete, hmarks]
  apply Set.Subset.antisymm
  · rw [← hmarks]
    exact (collectRequiredDependents_subset next x _).2
  · intro y hy
    apply h
    rw [← List.nil_append [x], affected_append, hnone, insert_empty_eq]
    exact hy

/-- The plan restarts all that is affected when no walk is cut off. Where one component
is reconfigured it does so only then. -/
theorem transitionPlan_restarts (previous next : ResolvedHarness) :
    (NotCutOff previous next (reconfigured previous next) → RestartComplete previous next) ∧
    ∀ x, reconfigured previous next = [x] →
      (RestartComplete previous next ↔ NotCutOff previous next (reconfigured previous next)) := by
  have hcomplete : NotCutOff previous next (reconfigured previous next) →
      RestartComplete previous next := by
    intro h y hy
    rw [restartComponent_mem, marks_restartsOf h]
    exact hy
  refine ⟨hcomplete,fun x hx => ⟨fun h => ?_,hcomplete⟩⟩
  rw [hx]
  apply notCutOff_singleton
  intro y hy
  rw [← hx] at hy ⊢
  exact (restartComponent_mem previous next y).mp (h y hy)

/-! ### A dependent of the candidate graph that is left running -/

def search : InterfaceId := ⟨"phenix.search@1",by decide⟩
def oldSearch : ComponentId := ⟨"old-search",by decide⟩
def newSearch : ComponentId := ⟨"search",by decide⟩
def viewer : ComponentId := ⟨"viewer",by decide⟩

/-- The viewer uses the old search, and only the new search uses the disk. -/
def beforeChange : List ComponentManifest :=
  [demoComponent disk [] [storage],demoComponent oldSearch [] [search],
    demoComponent newSearch [storage] [search],demoComponent viewer [search] []]

/-- The disk is reconfigured and the old search removed, so the viewer is bound anew. -/
def afterChange : List ComponentManifest :=
  [demoComponent disk [] [storage,demoInterface],demoComponent newSearch [storage] [search],
    demoComponent viewer [search] []]

/-- The viewer needs the new search, and that needs the disk. -/
def demoRank (id : ComponentId) : ℕ := if id = viewer then 2 else if id = newSearch then 1 else 0

/-- What the two graphs are, and where the walks go. -/
theorem exists_demoGraphs : ∃ graph graph',
    uncheckedGraph [demoPlugin] (sortByKey (·.id) beforeChange) (.new []) ⟨.empty⟩ = some graph ∧
    uncheckedGraph [demoPlugin] (sortByKey (·.id) afterChange) (.new []) ⟨.empty⟩ = some graph' ∧
    Descends demoRank graph ∧ Descends demoRank graph' ∧ graph.listeners = [] ∧
    graph'.listeners = [] ∧ Requires graph' viewer newSearch ∧ Requires graph' newSearch disk ∧
    viewer ∉ (markAll (directDependents graph') (directDependents graph' disk)
      (markAll (directDependents graph) (directDependents graph disk)
        (.insert .empty disk ()))).keys := by
  have hrun : (match uncheckedGraph [demoPlugin] (sortByKey (·.id) beforeChange) (.new []) ⟨.empty⟩,
      uncheckedGraph [demoPlugin] (sortByKey (·.id) afterChange) (.new []) ⟨.empty⟩ with
    | some graph,some graph' => graph.listeners.isEmpty && graph'.listeners.isEmpty &&
        decide (Descends demoRank graph ∧ Descends demoRank graph' ∧
          Requires graph' viewer newSearch ∧ Requires graph' newSearch disk ∧
          viewer ∉ (markAll (directDependents graph') (directDependents graph' disk)
            (markAll (directDependents graph) (directDependents graph disk)
              (.insert .empty disk ()))).keys)
    | some _,none | none,_ => false) = true := by decide +kernel
  split at hrun
  · next graph graph' hgraph hgraph' =>
    simp only [Bool.and_eq_true, List.isEmpty_iff, decide_eq_true_eq] at hrun
    obtain ⟨⟨hlisteners,hlisteners'⟩,hrank,hrank',hrest⟩ := hrun
    exact ⟨graph,graph',hgraph,hgraph',hrank,hrank',hlisteners,hlisteners',hrest⟩
  · cases hrun
  · cases hrun

/-- The viewer reaches the disk through the new search in the candidate graph. The walk in
the active graph has marked the new search, so the walk in the candidate graph stops there. -/
theorem viewer_not_restarted : ∃ previous next, demoResolve [] beforeChange = .ok previous ∧
    demoResolve [] afterChange = .ok next ∧ ¬RestartComplete previous next := by
  obtain ⟨graph,graph',hgraph,hgraph',hrank,hrank',hlisteners,hlisteners',hviewer,hsearch,hmissing⟩ :=
    exists_demoGraphs
  have hempty : ∀ components, resolveResources components (.new []) [] = .ok [] := fun _ => rfl
  obtain ⟨previous,hprevious,hbefore,rfl⟩ := exists_demoResolve (hempty _) hgraph hrank hlisteners
  obtain ⟨next,hnext,hafter,rfl⟩ := exists_demoResolve (hempty _) hgraph' hrank' hlisteners'
  have hchanged : reconfigured previous next = [disk] := by
    unfold reconfigured componentChanges componentChange indexComponents
    rw [hbefore, hafter]
    decide +kernel
  refine ⟨previous,next,hprevious,hnext,fun h => hmissing ?_⟩
  have haffected : viewer ∈ Affected previous next (reconfigured previous next) := by
    rw [hchanged]
    exact ⟨disk,by simp,.inr (.inr (.head hviewer (.single hsearch)))⟩
  have hmarked := (restartComponent_mem previous next viewer).mp (h viewer haffected)
  rw [hchanged] at hmarked
  exact hmarked

end PhenixConductor.Harness
