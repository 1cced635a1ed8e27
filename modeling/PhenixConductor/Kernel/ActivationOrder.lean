import PhenixConductor.Kernel.Plugins
import PhenixConductor.Collections.Marking
import PhenixConductor.Collections.Digraph

/-! # The activation order

A depth-first search puts every plugin behind the plugins that it depends on and behind the
provider of its runtime.
-/
namespace PhenixConductor.Kernel
open Collections Contract Component Relation
variable (manifests : Manifests) (bindings : RuntimeBindings)

/-- The plugins that `visit` visits before it pushes a plugin, in its order. -/
def requirements (manifest : PluginManifest) (plugin : PluginId) : List PluginId :=
  manifest.dependencies ++ ((bindings.get? plugin).map (·.provider)).toList

/-- The `visit` of `dependency_order`. The plugins that it calls done are those of
the order so far. -/
def visit (plugin : PluginId) (visiting : BTreeSet PluginId) (order : List PluginId) :
    Except KernelError (List PluginId) :=
  if plugin ∈ order then .ok order
  else if hnew : plugin ∈ visiting.keys then .error (.dependencyCycle plugin)
  else match hget : manifests.get? plugin with
    -- every plugin that is visited has a manifest
    | none => .ok order
    | some manifest => do
      have := unmarkedCount_insert_lt (manifests.mem_keys_iff.mpr (by rw [hget]; rfl)) hnew
      let order ← (requirements bindings manifest plugin).foldlM
        (fun order required => visit required (visiting.insert plugin ()) order) order
      .ok (order ++ [plugin])
termination_by unmarkedCount manifests.keys visiting

def validateDependencyIds : Except KernelError Unit :=
  manifests.values.forM fun manifest => manifest.dependencies.forM fun dependency =>
    if (manifests.get? dependency).isSome then .ok ()
    else .error (.unknownDependency manifest.id dependency)

def dependencyOrder : Except KernelError (List PluginId) := do
  validateDependencyIds manifests
  manifests.keys.foldlM (fun order plugin => visit manifests bindings plugin .empty order) []

/-- What a visit does to the order: it adds plugins, none of which is in it or is
being visited. -/
structure Extends (visiting : BTreeSet PluginId) (order order' : List PluginId) : Prop where
  kept : order <+: order'
  nodup : order.Nodup → order'.Nodup
  added : ∀ plugin ∈ order', plugin ∈ order ∨ plugin ∈ manifests.keys ∧ plugin ∉ visiting.keys

variable {manifests bindings} {visiting : BTreeSet PluginId} {order order' : List PluginId}

theorem Extends.refl (visiting : BTreeSet PluginId) (order : List PluginId) :
    Extends manifests visiting order order :=
  ⟨List.prefix_refl order,id,fun _ h => .inl h⟩

theorem Extends.trans {order'' : List PluginId} (h : Extends manifests visiting order order')
    (h' : Extends manifests visiting order' order'') : Extends manifests visiting order order'' := by
  refine ⟨h.kept.trans h'.kept,h'.nodup ∘ h.nodup,?_⟩
  intro plugin hplugin
  rcases h'.added plugin hplugin with hold | hnew
  · exact h.added plugin hold
  · exact .inr hnew

/-- A plugin is pushed after the visits that it asked for. -/
theorem Extends.push {plugin : PluginId}
    (h : Extends manifests (visiting.insert plugin ()) order order') (hdone : plugin ∉ order)
    (hnew : plugin ∉ visiting.keys) (hmem : plugin ∈ manifests.keys) :
    Extends manifests visiting order (order' ++ [plugin]) := by
  have hfresh : plugin ∉ order' := by
    intro hplugin
    rcases h.added plugin hplugin with hold | ⟨-,hnew⟩
    · exact hdone hold
    · exact hnew (by simp)
  constructor
  · exact h.kept.trans (List.prefix_append _ _)
  · intro hnodup
    exact List.nodup_append.mpr ⟨h.nodup hnodup,List.nodup_singleton _,by
      intro a ha b hb hab
      rw [List.mem_singleton.mp hb] at hab
      exact hfresh (hab ▸ ha)⟩
  · intro other hother
    rcases List.mem_append.mp hother with hother | hother
    · rcases h.added other hother with hold | ⟨hkey,hfree⟩
      · exact .inl hold
      · exact .inr ⟨hkey,fun hvisiting => hfree (by simp [hvisiting])⟩
    · rw [List.mem_singleton.mp hother]
      exact .inr ⟨hmem,hnew⟩

/-- A loop of visits. -/
theorem foldlM_extends {f : List PluginId → PluginId → Except KernelError (List PluginId)}
    (hf : ∀ order plugin order', f order plugin = .ok order' →
      Extends manifests visiting order order' ∧ (plugin ∈ manifests.keys → plugin ∈ order'))
    {plugins : List PluginId} (h : plugins.foldlM f order = .ok order') :
    Extends manifests visiting order order' ∧
      ∀ plugin ∈ plugins, plugin ∈ manifests.keys → plugin ∈ order' := by
  induction plugins generalizing order with
  | nil =>
    cases h
    exact ⟨.refl visiting _,by simp⟩
  | cons plugin rest ih =>
    rw [List.foldlM_cons, bind_eq_ok] at h
    obtain ⟨middle,hmiddle,h⟩ := h
    obtain ⟨hfirst,hplugin⟩ := hf order plugin middle hmiddle
    obtain ⟨hrest,hall⟩ := ih h
    refine ⟨hfirst.trans hrest,?_⟩
    intro other hother hmem
    rcases List.mem_cons.mp hother with rfl | hother
    · exact hrest.kept.subset (hplugin hmem)
    · exact hall other hother hmem

theorem visit_extends (plugin : PluginId) (visiting : BTreeSet PluginId) (order : List PluginId)
    {order' : List PluginId} (h : visit manifests bindings plugin visiting order = .ok order') :
    Extends manifests visiting order order' ∧ (plugin ∈ manifests.keys → plugin ∈ order') := by
  rw [visit] at h
  split_ifs at h with hdone hnew
  · cases h
    exact ⟨.refl visiting order,fun _ => hdone⟩
  · split at h
    · next hget =>
      cases h
      exact ⟨.refl visiting order,fun hmem => absurd hmem (manifests.get?_eq_none.mp hget)⟩
    · next manifest hget =>
      have hmem : plugin ∈ manifests.keys := manifests.mem_keys_iff.mpr (by rw [hget]; rfl)
      have := unmarkedCount_insert_lt hmem hnew
      obtain ⟨middle,hmiddle,h⟩ := bind_eq_ok.mp h
      cases h
      have hrequired := foldlM_extends (fun order required _ =>
        visit_extends required (visiting.insert plugin ()) order) hmiddle
      exact ⟨hrequired.1.push hdone hnew hmem,fun _ => by simp⟩
termination_by unmarkedCount manifests.keys visiting

/-- The order holds every plugin once. -/
theorem dependencyOrder_perm (h : dependencyOrder manifests bindings = .ok order) :
    order.Nodup ∧ ∀ plugin, plugin ∈ order ↔ plugin ∈ manifests.keys := by
  rw [dependencyOrder, seq_eq_ok] at h
  obtain ⟨hextends,hall⟩ := foldlM_extends (fun order plugin _ =>
    visit_extends plugin .empty order) h.2
  refine ⟨hextends.nodup List.nodup_nil,fun plugin => ⟨?_,fun hmem => hall plugin hmem hmem⟩⟩
  intro hplugin
  rcases hextends.added plugin hplugin with hnil | hkey
  · cases hnil
  · exact hkey.1

/-- The edges that a visit follows. -/
def Requires (manifests : Manifests) (bindings : RuntimeBindings) (plugin other : PluginId) :
    Prop :=
  ∃ manifest, manifests.get? plugin = some manifest ∧ other ∈ requirements bindings manifest plugin

theorem Requires.mem_keys {plugin other : PluginId} (h : Requires manifests bindings plugin other) :
    plugin ∈ manifests.keys := by
  obtain ⟨manifest,hget,-⟩ := h
  rw [manifests.mem_keys_iff, hget]
  rfl

theorem visit_topological (hclosed : ∀ a b, Requires manifests bindings a b → b ∈ manifests.keys)
    (plugin : PluginId) (visiting : BTreeSet PluginId) (order : List PluginId)
    {order' : List PluginId} (h : visit manifests bindings plugin visiting order = .ok order')
    (horder : Topological (Requires manifests bindings) order) :
    Topological (Requires manifests bindings) order' := by
  rw [visit] at h
  split_ifs at h with hdone hnew
  · cases h
    exact horder
  · split at h
    · cases h
      exact horder
    · next manifest hget =>
      have := unmarkedCount_insert_lt (manifests.mem_keys_iff.mpr (by rw [hget]; rfl)) hnew
      obtain ⟨middle,hmiddle,h⟩ := bind_eq_ok.mp h
      cases h
      have hrequired := (foldlM_extends (fun order required _ =>
        visit_extends required (visiting.insert plugin ()) order) hmiddle).2
      refine Topological.concat ?_ fun other hother => ?_
      · exact foldlM_invariant (fun required _ order next horder hnext =>
          visit_topological hclosed required (visiting.insert plugin ()) order hnext horder)
          horder hmiddle
      · have hkey := hclosed plugin other hother
        obtain ⟨_,hsame,hother⟩ := hother
        cases hget.symm.trans hsame
        exact hrequired other hother hkey
termination_by unmarkedCount manifests.keys visiting

/-- A visit fails at a plugin that leads back to itself, where those being visited lead to
the plugin that is visited next. -/
theorem visit_eq_error (plugin : PluginId) (visiting : BTreeSet PluginId) (order : List PluginId)
    {error : KernelError} (h : visit manifests bindings plugin visiting order = .error error)
    (hpath : ∀ other ∈ visiting.keys, TransGen (Requires manifests bindings) other plugin) :
    ∃ found, error = .dependencyCycle found ∧ TransGen (Requires manifests bindings) found found := by
  rw [visit] at h
  split_ifs at h with hdone hvisiting
  · cases h
    exact ⟨plugin,rfl,hpath plugin hvisiting⟩
  · split at h
    · cases h
    · next manifest hget =>
      have := unmarkedCount_insert_lt (manifests.mem_keys_iff.mpr (by rw [hget]; rfl)) hvisiting
      rcases bind_eq_error.mp h with h | ⟨_,-,h⟩
      · obtain ⟨required,hrequired,middle,herror⟩ := foldlM_eq_error h
        have hedge : Requires manifests bindings plugin required := ⟨manifest,hget,hrequired⟩
        apply visit_eq_error required (visiting.insert plugin ()) middle herror
        intro other hother
        rw [BTreeMap.mem_keys_insert] at hother
        rcases hother with rfl | hother
        · exact .single hedge
        · exact (hpath other hother).tail hedge
      · cases h
termination_by unmarkedCount manifests.keys visiting

theorem validateDependencyIds_ne_cycle (plugin : PluginId) :
    validateDependencyIds manifests ≠ .error (.dependencyCycle plugin) := by
  intro h
  obtain ⟨manifest,-,hmanifest⟩ := forM_eq_error h
  obtain ⟨dependency,-,hdependency⟩ := forM_eq_error hmanifest
  split_ifs at hdependency
  cases hdependency

theorem dependencyOrder_topological
    (hclosed : ∀ a b, Requires manifests bindings a b → b ∈ manifests.keys)
    (h : dependencyOrder manifests bindings = .ok order) :
    Topological (Requires manifests bindings) order := by
  rw [dependencyOrder, seq_eq_ok] at h
  exact foldlM_invariant (fun plugin _ order next horder hnext =>
    visit_topological hclosed plugin .empty order hnext horder) (.nil _) h.2

theorem dependencyOrder_eq_error {error : KernelError} (hids : validateDependencyIds manifests = .ok ())
    (h : dependencyOrder manifests bindings = .error error) :
    ∃ found, error = .dependencyCycle found ∧ TransGen (Requires manifests bindings) found found := by
  rw [dependencyOrder, hids] at h
  obtain ⟨plugin,-,order,herror⟩ := foldlM_eq_error h
  exact visit_eq_error plugin .empty order herror fun _ hother => absurd hother List.not_mem_nil

theorem dependencyOrder_acyclic
    (hclosed : ∀ a b, Requires manifests bindings a b → b ∈ manifests.keys)
    (h : dependencyOrder manifests bindings = .ok order) : Acyclic (Requires manifests bindings) :=
  (dependencyOrder_topological hclosed h).acyclic fun _ _ hab =>
    ((dependencyOrder_perm h).2 _).mpr hab.mem_keys
end PhenixConductor.Kernel
