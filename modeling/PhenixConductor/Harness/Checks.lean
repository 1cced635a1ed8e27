import PhenixConductor.Harness.Resolver

/-! # What the checks of a resolution say

The checks of the resources and of the layer policies fall into two parts: what they
ask of their own input, which a resolved harness has passed for good, and what they
ask of the plugins, the components and the ceiling.
-/
namespace PhenixConductor.Harness
open Collections Contract Component Kernel OrderDual

theorem refuse_eq_ok {α ε : Type} {error : α → ε} {found : Option α} :
    refuse error found = .ok () ↔ found = none := by
  cases found <;> simp [refuse]

section Resources
variable {components : List ComponentManifest} {authorityCeiling : Authority}
  {resources resources' : List SkillResourceMetadata}

/-- The components export what a resource requires, and the ceiling permits it. -/
def RequirementsMet (components : List ComponentManifest) (authorityCeiling : Authority)
    (resource : SkillResourceMetadata) : Prop :=
  (∀ interface ∈ resource.requiredInterfaces.keys,
    ∃ component ∈ components, ∃ exported ∈ component.exports, exported.interface = interface) ∧
  ∀ capability ∈ resource.requiredCapabilities.keys, authorityCeiling.permits capability = true

variable {resource : SkillResourceMetadata}

theorem checkRequirements_eq_ok : checkRequirements components authorityCeiling resource = .ok () ↔
      RequirementsMet components authorityCeiling resource := by
  rw [checkRequirements, seq_eq_ok, refuse_eq_ok, refuse_eq_ok, List.find?_eq_none,
    List.find?_eq_none, RequirementsMet]
  apply and_congr
  · simp [exportedInterfaces]
  · simp

theorem requirementsMet_perm {components' : List ComponentManifest}
    (h : components.Perm components') : RequirementsMet components authorityCeiling resource ↔
      RequirementsMet components' authorityCeiling resource := by
  simp only [RequirementsMet, h.mem_iff]

/-- The resources of a selection are in the order of their identities, none twice, and they
agree with each other. -/
def Selected (resources : List SkillResourceMetadata) : Prop :=
  ∃ selected, selectResources resources = .ok selected ∧ selected.values = resources ∧
    ∀ resource ∈ resources, checkRelations selected resource = .ok ()

/-- Selecting what was selected selects it again. -/
theorem selectResources_values {selected : BTreeMap String SkillResourceMetadata}
    (h : selectResources resources = .ok selected) :
    selectResources selected.values = .ok selected := by
  obtain ⟨hvalid,-,hget⟩ := register_eq_ok.mp h
  have hmem : ∀ v, v ∈ selected.values ↔ v ∈ resources := by
    intro v
    rw [selected.mem_values]
    constructor
    · rintro ⟨k,hk⟩
      exact ((hget k v).mp hk).1
    · intro hv
      exact ⟨v.identity,(hget v.identity v).mpr ⟨hv,rfl⟩⟩
  have hkeys : selected.values.map (·.identity) = selected.keys :=
    selected.map_values fun k v hk => ((hget k v).mp hk).2
  apply register_eq_ok.mpr
  refine ⟨fun v hv => hvalid v ((hmem v).mp hv),hkeys ▸ selected.nodup_keys,fun k v => ?_⟩
  rw [hget, hmem]

theorem resolveResources_eq_ok :
    resolveResources components authorityCeiling resources = .ok resources' ↔
      ∃ selected, selectResources resources = .ok selected ∧
        (∀ resource ∈ selected.values, checkRelations selected resource = .ok () ∧
          RequirementsMet components authorityCeiling resource) ∧ resources' = selected.values := by
  rw [resolveResources, bind_eq_ok]
  apply exists_congr
  intro selected
  rw [seq_eq_ok, forM_eq_ok, Except.ok.injEq, eq_comm (a := resources')]
  simp only [seq_eq_ok, checkRequirements_eq_ok]

theorem selected_of_resolveResources
    (h : resolveResources components authorityCeiling resources = .ok resources') :
    Selected resources' := by
  obtain ⟨selected,hselected,hchecks,rfl⟩ := resolveResources_eq_ok.mp h
  exact ⟨selected,selectResources_values hselected,rfl,fun resource hresource =>
    (hchecks resource hresource).1⟩

/-- A selection can only fail the checks of what it requires, and is not changed. -/
theorem Selected.resolveResources_eq_ok (h : Selected resources) :
    resolveResources components authorityCeiling resources = .ok resources' ↔
      resources' = resources ∧
        ∀ resource ∈ resources, RequirementsMet components authorityCeiling resource := by
  obtain ⟨selected,hselected,hvalues,hrelations⟩ := h
  rw [Harness.resolveResources_eq_ok]
  constructor
  · rintro ⟨selected',hselected',hchecks,rfl⟩
    obtain rfl : selected = selected' := Except.ok.inj (hselected.symm.trans hselected')
    rw [hvalues] at hchecks ⊢
    exact ⟨rfl,fun resource hresource => (hchecks resource hresource).2⟩
  · rintro ⟨rfl,hmet⟩
    refine ⟨selected,hselected,?_,hvalues.symm⟩
    rw [hvalues]
    exact fun resource hresource => ⟨hrelations resource hresource,hmet resource hresource⟩

end Resources

section Layers
variable {plugins : List PluginManifest} {authorityCeiling : Authority} {service : ServiceId}
  {layers : List LayerPolicy} {layerPolicies : LayerPolicies}

/-- A layer that is enabled and required has a plugin that provides it. -/
def LayerMet (plugins : List PluginManifest) (authorityCeiling : Authority) (service : ServiceId)
    (layer : LayerPolicy) : Prop :=
  layer.enabled = true → layer.required = true → ∃ manifest ∈ plugins, manifest.id = layer.plugin ∧
    ∃ contribution ∈ manifest.services, contribution.service = service ∧
      contribution.role = .layer ∧ authorityCeiling.permitsAll contribution.requiredAuthority = true

theorem layerMet_perm {plugins' : List PluginManifest} (h : plugins.Perm plugins')
    {layer : LayerPolicy} : LayerMet plugins authorityCeiling service layer ↔
      LayerMet plugins' authorityCeiling service layer := by
  simp only [LayerMet, h.mem_iff]

theorem layerAvailable_iff {plugin : PluginId} :
    layerAvailable plugins authorityCeiling service plugin = true ↔
      ∃ manifest ∈ plugins, manifest.id = plugin ∧ ∃ contribution ∈ manifest.services,
        contribution.service = service ∧ contribution.role = .layer ∧
          authorityCeiling.permitsAll contribution.requiredAuthority = true := by
  simp [layerAvailable, and_assoc]

theorem validateLayer_eq_ok {seen seen' : BTreeSet PluginId} {layer : LayerPolicy} :
    validateLayer plugins authorityCeiling service seen layer = .ok seen' ↔
      layer.plugin ∉ seen.keys ∧ LayerMet plugins authorityCeiling service layer ∧
        seen' = seen.insert layer.plugin () := by
  rw [validateLayer, LayerMet, ← layerAvailable_iff]
  split_ifs with hseen hoptional havailable
  · simp [hseen]
  · constructor
    · rintro ⟨⟩
      refine ⟨hseen,fun henabled hrequired => ?_,rfl⟩
      simp [henabled, hrequired] at hoptional
    · rintro ⟨-,-,rfl⟩
      rfl
  · constructor
    · rintro ⟨⟩
      exact ⟨hseen,fun _ _ => havailable,rfl⟩
    · rintro ⟨-,-,rfl⟩
      rfl
  · rw [Bool.not_eq_true', Bool.not_eq_false, Bool.and_eq_true] at hoptional
    simp [havailable, hoptional]

theorem foldlM_validateLayer {seen : BTreeSet PluginId} :
    (∃ seen', layers.foldlM (validateLayer plugins authorityCeiling service) seen = .ok seen') ↔
      (layers.map (·.plugin)).Nodup ∧ (∀ layer ∈ layers, layer.plugin ∉ seen.keys) ∧
        ∀ layer ∈ layers, LayerMet plugins authorityCeiling service layer := by
  induction layers generalizing seen with
  | nil => simp [pure, Except.pure]
  | cons layer layers ih =>
    simp only [List.foldlM_cons, bind_eq_ok, validateLayer_eq_ok]
    rw [exists_comm]
    simp only [exists_and_left, List.map_cons, List.nodup_cons, List.forall_mem_cons,
      List.mem_map, not_exists, not_and]
    constructor
    · rintro ⟨_,⟨hnew,hmet,rfl⟩,hrest⟩
      obtain ⟨hnodup,hfresh,hall⟩ := ih.mp hrest
      refine ⟨⟨fun other hother hsame => hfresh other hother (by simp [hsame]),hnodup⟩,⟨hnew,?_⟩,
        hmet,hall⟩
      intro other hother hseen
      exact hfresh other hother (by simp [hseen])
    · rintro ⟨⟨hfirst,hnodup⟩,⟨hnew,hfresh⟩,hmet,hall⟩
      refine ⟨_,⟨hnew,hmet,rfl⟩,ih.mpr ⟨hnodup,fun other hother hseen => ?_,hall⟩⟩
      rcases BTreeMap.mem_keys_insert seen () |>.mp hseen with hsame | hseen
      · exact hfirst other hother hsame
      · exact hfresh other hother hseen

theorem foldlM_validateLayer_empty :
    (∃ seen, layers.foldlM (validateLayer plugins authorityCeiling service) .empty = .ok seen) ↔
      (layers.map (·.plugin)).Nodup ∧
        ∀ layer ∈ layers, LayerMet plugins authorityCeiling service layer := by
  rw [foldlM_validateLayer]
  simp [BTreeMap.empty]

theorem validateLayerPolicies_eq_ok :
    validateLayerPolicies plugins authorityCeiling layerPolicies = .ok () ↔
      ∀ service layers, layerPolicies.get? service = some layers →
        (layers.map (·.plugin)).Nodup ∧
          ∀ layer ∈ layers, LayerMet plugins authorityCeiling service layer := by
  rw [validateLayerPolicies, forM_eq_ok, Prod.forall]
  apply forall_congr'
  intro service
  apply forall_congr'
  intro layers
  rw [BTreeMap.mem_toList]
  apply imp_congr_right
  intro _
  rw [← foldlM_validateLayer_empty, bind_eq_ok]
  constructor
  · rintro ⟨seen,hseen,-⟩
    exact ⟨seen,hseen⟩
  · rintro ⟨seen,hseen⟩
    exact ⟨seen,hseen,rfl⟩

/-- The fields that the layers are compared by, as one key. -/
def layerKey (layer : LayerPolicy) : ℤᵒᵈ ×ₗ PluginId :=
  toLex (toDual layer.priority,layer.plugin)

theorem compareLayers_isLE (a b : LayerPolicy) :
    (compareLayers a b).isLE = true ↔ layerKey a ≤ layerKey b := by
  unfold compareLayers layerKey
  rw [isLE_then_iff, Prod.Lex.toLex_le_toLex, toDual_lt_toDual, toDual_inj, isLE_compare_iff,
    eq_comm (a := b.priority)]

theorem get?_sortLayers : (sortLayers layerPolicies).get? service =
    (layerPolicies.get? service).map (sortByKey layerKey) := by
  rw [sortLayers, BTreeMap.get?_mapVal]
  congr 1
  funext layers
  exact insertionSort_eq_sortByKey compareLayers_isLE layers

/-- Sorted layers stay as they are. -/
theorem sortLayers_idem (layerPolicies : LayerPolicies) :
    sortLayers (sortLayers layerPolicies) = sortLayers layerPolicies := by
  ext service layers
  rw [get?_sortLayers, get?_sortLayers, Option.map_map]
  congr! 2
  funext layers
  exact (sortByKey_pairwise layerKey layers).insertionSort_eq

end Layers
end PhenixConductor.Harness
