import PhenixConductor.Harness.Resolver

/-! # Choosing the provider of a store

Before a store is opened, its provider is chosen among the listed ones.
-/
namespace PhenixConductor.Persistence
open Collections Contract Harness Relation List
open Configuration (isBlank)

structure StoreBindingId where
  text : String
  valid : isBlank text = false
deriving DecidableEq

structure StoreBinding where
  id : StoreBindingId
  storageFormat : String

inductive PersistenceBootstrapDependency
  | plugin (id : PluginId)
  | targetStore
deriving DecidableEq

/-- The features and the formats are sets. -/
structure PersistenceProviderDescriptor where
  plugin : PluginId
  supportedFeatures : List BackendFeature
  compatibleStorageFormats : List String
  bootstrapDependencies : List PersistenceBootstrapDependency

inductive PersistenceProviderTransition
  | compatibleFormat
  | migration (operation : String)
  | exportImport (operation : String)
deriving DecidableEq

structure ResolvedPersistenceBootstrap where
  provider : PersistenceProviderDescriptor
  binding : StoreBinding
  requiredFeatures : List BackendFeature
  transition : Option PersistenceProviderTransition

inductive PersistenceBootstrapError
  | duplicateProvider (provider : PluginId)
  | providerUnavailable (provider : PluginId)
  | bootstrapDependencyUnavailable (provider dependency : PluginId)
  | bootstrapCycle (path : List PluginId)
  | targetStoreBootstrapCycle (provider : PluginId)
  | unsupportedFeatures (provider : PluginId) (missing : List BackendFeature)
  | storageFormatUnsupported (provider : PluginId) (storageFormat : String)
  | providerChangeRequiresTransition (binding : StoreBindingId)
      (activeProvider candidateProvider : PluginId)
  | storageFormatChangeRequiresTransition (binding : StoreBindingId)
      (activeFormat candidateFormat : String)
  | compatibleFormatMismatch (activeFormat candidateFormat : String)
  | emptyTransitionOperation

section Search
variable (providers : BTreeMap PluginId PersistenceProviderDescriptor)
  (preStorePlugins : BTreeSet PluginId)

mutual

/-- `visit`: the plugins that are complete afterwards. -/
def visit (plugin : PluginId) (visiting : List PluginId) (complete : BTreeSet PluginId) :
    Except PersistenceBootstrapError (BTreeSet PluginId) :=
  if plugin ∈ complete.keys then .ok complete
  else if hnew : plugin ∈ visiting then
    .error (.bootstrapCycle (visiting.dropWhile (· ≠ plugin) ++ [plugin]))
  else match hget : providers.get? plugin with
    | none => .ok complete
    | some provider => do
      have := offPath_append_lt (providers.mem_keys_iff.mpr (by rw [hget]; rfl)) hnew
      let complete ← visitDependencies plugin provider.bootstrapDependencies
        (visiting ++ [plugin]) complete
      .ok (complete.insert plugin ())
termination_by (offPath providers.keys visiting,0)

def visitDependencies (plugin : PluginId) (dependencies : List PersistenceBootstrapDependency)
    (visiting : List PluginId) (complete : BTreeSet PluginId) :
    Except PersistenceBootstrapError (BTreeSet PluginId) :=
  match dependencies with
  | [] => .ok complete
  | .targetStore :: _ => .error (.targetStoreBootstrapCycle plugin)
  | .plugin dependency :: dependencies =>
    if dependency ∉ preStorePlugins.keys ∧ dependency ∉ providers.keys then
      .error (.bootstrapDependencyUnavailable plugin dependency)
    else do
      let complete ← visit dependency visiting complete
      visitDependencies plugin dependencies visiting complete
termination_by (offPath providers.keys visiting,dependencies.length + 1)

end

def validateBootstrapDependencies (selected : PluginId) : Except PersistenceBootstrapError Unit := do
  let _ ← visit providers preStorePlugins selected [] .empty

end Search

def validateTransition (active : Option ResolvedPersistenceBootstrap)
    (candidateProvider : PersistenceProviderDescriptor) (candidateBinding : StoreBinding)
    (transition : Option PersistenceProviderTransition) : Except PersistenceBootstrapError Unit :=
  match active with
  | none => .ok ()
  | some active =>
    if active.binding.id ≠ candidateBinding.id then .ok ()
    else if active.provider.plugin ≠ candidateProvider.plugin ∧ transition = none then
      .error (.providerChangeRequiresTransition candidateBinding.id active.provider.plugin
        candidateProvider.plugin)
    else if active.binding.storageFormat ≠ candidateBinding.storageFormat ∧ transition = none then
      .error (.storageFormatChangeRequiresTransition candidateBinding.id
        active.binding.storageFormat candidateBinding.storageFormat)
    else if transition = some .compatibleFormat ∧
        active.binding.storageFormat ≠ candidateBinding.storageFormat then
      .error (.compatibleFormatMismatch active.binding.storageFormat candidateBinding.storageFormat)
    else .ok ()

def PersistenceProviderTransition.operation : PersistenceProviderTransition → Option String
  | .migration operation | .exportImport operation => some operation
  | .compatibleFormat => none

def validateTransitionOperation (transition : Option PersistenceProviderTransition) :
    Except PersistenceBootstrapError Unit :=
  if (transition.bind (·.operation)).any isBlank then .error .emptyTransitionOperation else .ok ()

/-- The descriptors by the ids of their plugins. -/
def indexProviders (providers : List PersistenceProviderDescriptor) :
    Except PersistenceBootstrapError (BTreeMap PluginId PersistenceProviderDescriptor) :=
  providers.foldlM (fun byId provider =>
    if (byId.get? provider.plugin).isSome then .error (.duplicateProvider provider.plugin)
    else .ok (byId.insert provider.plugin provider)) .empty

def BackendFeature.all : List BackendFeature :=
  [.transactions,.uniqueKeys,.foreignKeys,.orderedAppend,.indexedRange,.migrations]

def requiredFeatures (schemas : List DurableSchemaRegistration) : List BackendFeature :=
  BackendFeature.all.filter fun feature =>
    schemas.any (feature ∈ ·.schema.requiredFeatures) ∨
      feature = .migrations ∧ schemas.any (!·.migrations.isEmpty)

def resolvePersistenceBootstrap (selectedProvider : PluginId)
    (providers : List PersistenceProviderDescriptor) (preStorePlugins : BTreeSet PluginId)
    (binding : StoreBinding) (schemas : List DurableSchemaRegistration)
    (active : Option ResolvedPersistenceBootstrap)
    (transition : Option PersistenceProviderTransition) :
    Except PersistenceBootstrapError ResolvedPersistenceBootstrap := do
  let providersById ← indexProviders providers
  match providersById.get? selectedProvider with
  | none => .error (.providerUnavailable selectedProvider)
  | some provider =>
    validateBootstrapDependencies providersById preStorePlugins provider.plugin
    let missing := (requiredFeatures schemas).filter (· ∉ provider.supportedFeatures)
    ensure (missing = []) (.unsupportedFeatures provider.plugin missing)
    ensure (binding.storageFormat ∈ provider.compatibleStorageFormats)
      (.storageFormatUnsupported provider.plugin binding.storageFormat)
    validateTransition active provider binding transition
    validateTransitionOperation transition
    return ⟨provider,binding,requiredFeatures schemas,transition⟩

/-! ## What the search finds -/

/-- A listed provider depends on a plugin. -/
def DependsOn (providers : List PersistenceProviderDescriptor) (a b : PluginId) : Prop :=
  ∃ provider ∈ providers, provider.plugin = a ∧ .plugin b ∈ provider.bootstrapDependencies

/-- Everything that a listed provider depends on is at hand before the store. -/
def Provided (providers : List PersistenceProviderDescriptor) (preStorePlugins : BTreeSet PluginId)
    (a : PluginId) : Prop :=
  ∀ provider ∈ providers, provider.plugin = a → .targetStore ∉ provider.bootstrapDependencies ∧
    ∀ b, .plugin b ∈ provider.bootstrapDependencies →
      b ∈ preStorePlugins.keys ∨ b ∈ providers.map (·.plugin)

/-- A plugin whose dependencies end, all of them provided. -/
def Founded (providers : List PersistenceProviderDescriptor) (preStorePlugins : BTreeSet PluginId)
    (a : PluginId) : Prop :=
  Grounded (DependsOn providers) a ∧
    ∀ b, ReflTransGen (DependsOn providers) a b → Provided providers preStorePlugins b

/-- What an error of the search shows of what is reached from a plugin. -/
def Shows (providers : List PersistenceProviderDescriptor) (preStorePlugins : BTreeSet PluginId)
    (root : PluginId) : PersistenceBootstrapError → Prop
  | .bootstrapCycle path => ClosedWalk (DependsOn providers) path ∧
      ∀ a ∈ path, ReflTransGen (DependsOn providers) root a
  | .targetStoreBootstrapCycle a | .bootstrapDependencyUnavailable a _ =>
      ReflTransGen (DependsOn providers) root a ∧ ¬ Provided providers preStorePlugins a
  | _ => False

/-- A search that succeeds has completed founded plugins only, and found what it looked for. -/
def Searched (providers : List PersistenceProviderDescriptor) (preStorePlugins : BTreeSet PluginId)
    (root : PluginId) (finding : Prop) :
    Except PersistenceBootstrapError (BTreeSet PluginId) → Prop
  | .ok complete => (∀ a ∈ complete.keys, Founded providers preStorePlugins a) ∧ finding
  | .error error => Shows providers preStorePlugins root error

/-- The dependencies that a loop goes through are at hand and founded. -/
def AllFounded (providers : List PersistenceProviderDescriptor)
    (preStorePlugins : BTreeSet PluginId) (dependencies : List PersistenceBootstrapDependency) :
    Prop :=
  .targetStore ∉ dependencies ∧ ∀ b, .plugin b ∈ dependencies →
    (b ∈ preStorePlugins.keys ∨ b ∈ providers.map (·.plugin)) ∧ Founded providers preStorePlugins b

section Search
variable {providers : List PersistenceProviderDescriptor} {preStorePlugins : BTreeSet PluginId}
  {root plugin : PluginId} {byId : BTreeMap PluginId PersistenceProviderDescriptor}

/-- A provider is founded on what it depends on. -/
theorem founded_of_dependencies (hprovided : Provided providers preStorePlugins plugin)
    (h : ∀ b, DependsOn providers plugin b → Founded providers preStorePlugins b) :
    Founded providers preStorePlugins plugin := by
  refine ⟨Acc.intro _ fun b hb => (h b hb).1,fun b hb => ?_⟩
  rcases ReflTransGen.cases_head hb with rfl | ⟨c,hc,hb⟩
  · exact hprovided
  · exact (h c hc).2 b hb

theorem not_founded_of_shows {error : PersistenceBootstrapError}
    (h : Shows providers preStorePlugins root error) : ¬ Founded providers preStorePlugins root := by
  intro hfounded
  cases error with
  | bootstrapCycle path =>
    obtain ⟨⟨a,middle,rfl,hchain⟩,hreached⟩ := h
    have hgrounded := Grounded.reached hfounded.1 (hreached a (by simp))
    exact hgrounded.not_cyclic (transGen_of_isChain hchain)
  | targetStoreBootstrapCycle a => exact h.2 (hfounded.2 a h.1)
  | bootstrapDependencyUnavailable a b => exact h.2 (hfounded.2 a h.1)
  | _ => exact h

variable {result : Except PersistenceBootstrapError (BTreeSet PluginId)}

theorem Searched.bind {P Q : Prop}
    {f : BTreeSet PluginId → Except PersistenceBootstrapError (BTreeSet PluginId)}
    (h : Searched providers preStorePlugins root P result)
    (hnext : ∀ found : BTreeSet PluginId, (∀ a ∈ found.keys, Founded providers preStorePlugins a) → P → Searched providers preStorePlugins root Q (f found)) :
    Searched providers preStorePlugins root Q (result >>= f) := by
  cases result with
  | error error => exact h
  | ok found => exact hnext found h.1 h.2

theorem Searched.mono {P Q : Prop} (h : Searched providers preStorePlugins root P result)
    (hPQ : P → Q) : Searched providers preStorePlugins root Q result := by
  cases result with
  | error error => exact h
  | ok found => exact ⟨h.1,hPQ h.2⟩

section Indexed
variable (hget : ∀ a provider, byId.get? a = some provider ↔
  provider ∈ providers ∧ provider.plugin = a)
include hget

theorem mem_keys_indexed {a : PluginId} : a ∈ byId.keys ↔ a ∈ providers.map (·.plugin) := by
  simp [BTreeMap.mem_keys_iff, Option.isSome_iff_exists, hget]

variable {provider : PersistenceProviderDescriptor}

/-- An indexed provider is the only one under its id. -/
theorem eq_of_indexed {other : PersistenceProviderDescriptor} (h : byId.get? plugin = some provider)
    (hother : other ∈ providers) (hid : other.plugin = plugin) : other = provider :=
  Option.some.inj (((hget plugin other).mpr ⟨hother,hid⟩).symm.trans h)

theorem dependsOn_iff (h : byId.get? plugin = some provider) {b : PluginId} :
    DependsOn providers plugin b ↔ .plugin b ∈ provider.bootstrapDependencies := by
  constructor
  · rintro ⟨other,hother,hid,hb⟩
    exact eq_of_indexed hget h hother hid ▸ hb
  · intro hb
    exact ⟨provider,((hget _ _).mp h).1,((hget _ _).mp h).2,hb⟩

theorem visit_searched (plugin : PluginId) (visiting : List PluginId) (complete : BTreeSet PluginId)
    (hcomplete : ∀ a ∈ complete.keys, Founded providers preStorePlugins a)
    (hchain : (visiting ++ [plugin]).IsChain (DependsOn providers))
    (hreached : ∀ a ∈ visiting ++ [plugin], ReflTransGen (DependsOn providers) root a) :
    Searched providers preStorePlugins root (Founded providers preStorePlugins plugin)
      (visit byId preStorePlugins plugin visiting complete) := by
  -- the loop goes through dependencies of the plugin that the path ends with
  refine visit.induct byId preStorePlugins
    (fun plugin visiting complete =>
      (∀ a ∈ complete.keys, Founded providers preStorePlugins a) →
      (visiting ++ [plugin]).IsChain (DependsOn providers) →
      (∀ a ∈ visiting ++ [plugin], ReflTransGen (DependsOn providers) root a) →
      Searched providers preStorePlugins root (Founded providers preStorePlugins plugin)
        (visit byId preStorePlugins plugin visiting complete))
    (fun plugin dependencies visiting complete =>
      (∀ a ∈ complete.keys, Founded providers preStorePlugins a) →
      (∃ provider, byId.get? plugin = some provider ∧
        ∀ dependency ∈ dependencies, dependency ∈ provider.bootstrapDependencies) →
      (∀ b, DependsOn providers plugin b → (visiting ++ [b]).IsChain (DependsOn providers) ∧
        ∀ a ∈ visiting ++ [b], ReflTransGen (DependsOn providers) root a) →
      ReflTransGen (DependsOn providers) root plugin →
      Searched providers preStorePlugins root (AllFounded providers preStorePlugins dependencies)
        (visitDependencies byId preStorePlugins plugin dependencies visiting complete))
    ?known ?onPath ?foreign ?entered ?done ?store ?missing ?next plugin visiting complete hcomplete
    hchain hreached
  case known =>
    intro plugin visiting complete hknown hcomplete _ _
    rw [visit, if_pos hknown]
    exact ⟨hcomplete,hcomplete plugin hknown⟩
  case onPath =>
    intro plugin visiting complete hunknown hmem _ hchain hreached
    rw [visit, if_neg hunknown, dif_pos hmem]
    refine ⟨closedWalk_of_mem hmem hchain,fun a ha => hreached a ?_⟩
    exact (suffix_append_self_iff.mpr (dropWhile_suffix _)).subset ha
  case foreign =>
    intro plugin visiting complete hunknown hnew hnone hcomplete _ _
    rw [visit, if_neg hunknown, dif_neg hnew]
    have hforeign : ∀ provider ∈ providers, provider.plugin ≠ plugin := by
      intro provider hprovider hid
      rw [(hget plugin provider).mpr ⟨hprovider,hid⟩] at hnone
      cases hnone
    split
    · refine ⟨hcomplete,founded_of_dependencies ?_ ?_⟩
      · exact fun provider hprovider hid => absurd hid (hforeign provider hprovider)
      · rintro b ⟨provider,hprovider,hid,-⟩
        exact absurd hid (hforeign provider hprovider)
    · simp_all
  case entered =>
    intro plugin visiting complete hunknown hnew provider hprovider _ ih hcomplete hchain hreached
    have hself : ReflTransGen (DependsOn providers) root plugin := hreached plugin (by simp)
    have hall := ih hcomplete ⟨provider,hprovider,fun _ h => h⟩ (fun b hb => ⟨?_,?_⟩) hself
    · rw [visit, if_neg hunknown, dif_neg hnew]
      split
      · simp_all
      · next other hother =>
        obtain rfl := Option.some.inj (hprovider.symm.trans hother)
        refine hall.bind fun found hfound hdependencies => ?_
        have hplugin : Founded providers preStorePlugins plugin := by
          apply founded_of_dependencies
          · intro other hother hid
            obtain rfl := eq_of_indexed hget hprovider hother hid
            exact ⟨hdependencies.1,fun b hb => (hdependencies.2 b hb).1⟩
          · intro b hb
            exact (hdependencies.2 b ((dependsOn_iff hget hprovider).mp hb)).2
        refine ⟨fun a ha => ?_,hplugin⟩
        rcases (BTreeMap.mem_keys_insert _ _).mp ha with rfl | ha
        · exact hplugin
        · exact hfound a ha
    · rw [isChain_append]
      refine ⟨hchain,.singleton _,?_⟩
      simpa using hb
    · intro a ha
      rcases mem_append.mp ha with ha | ha
      · exact hreached a ha
      · cases mem_singleton.mp ha
        exact hself.tail hb
  case done =>
    intro plugin visiting complete hcomplete _ _ _
    rw [visitDependencies]
    exact ⟨hcomplete,by simp [AllFounded]⟩
  case store =>
    intro plugin visiting complete dependencies _ hprovider _ hself
    rw [visitDependencies]
    obtain ⟨provider,hprovider,hmem⟩ := hprovider
    refine ⟨hself,fun hprovided => ?_⟩
    obtain ⟨hlisted,hid⟩ := (hget plugin provider).mp hprovider
    exact (hprovided provider hlisted hid).1 (hmem _ mem_cons_self)
  case missing =>
    intro plugin visiting complete dependency dependencies hmissing _ hprovider _ hself
    rw [visitDependencies, if_pos hmissing]
    obtain ⟨provider,hprovider,hmem⟩ := hprovider
    refine ⟨hself,fun hprovided => ?_⟩
    obtain ⟨hlisted,hid⟩ := (hget plugin provider).mp hprovider
    rcases (hprovided provider hlisted hid).2 dependency (hmem _ mem_cons_self) with h | h
    · exact hmissing.1 h
    · exact hmissing.2 ((mem_keys_indexed hget).mpr h)
  case next =>
    intro plugin visiting complete dependency dependencies hpresent ihvisit ihrest hcomplete hprovider
      hpaths hself
    rw [visitDependencies, if_neg hpresent]
    obtain ⟨provider,hprovider,hmem⟩ := hprovider
    obtain ⟨hchain,hreached⟩ := hpaths dependency
      ((dependsOn_iff hget hprovider).mpr (hmem _ mem_cons_self))
    refine (ihvisit hcomplete hchain hreached).bind fun found hfound hdependency => ?_
    have hrest := ihrest found hfound
      ⟨provider,hprovider,fun other hother => hmem other (mem_cons_of_mem _ hother)⟩ hpaths hself
    refine hrest.mono fun hrest => ⟨?_,fun b hb => ?_⟩
    · simpa using hrest.1
    · rcases mem_cons.mp hb with heq | hb
      · cases heq
        refine ⟨?_,hdependency⟩
        rw [← mem_keys_indexed hget]
        by_contra hneither
        exact hpresent (not_or.mp hneither)
      · exact hrest.2 b hb

end Indexed
end Search

/-! ## When a provider is chosen -/

/-- What is reached from the selected provider can all be started before the store. -/
structure Bootable (providers : List PersistenceProviderDescriptor)
    (preStorePlugins : BTreeSet PluginId) (selected : PluginId) : Prop where
  available : ∀ b, ReflTransGen (DependsOn providers) selected b →
    b ∈ providers.map (·.plugin) ∨ b ∈ preStorePlugins.keys
  apart : ∀ provider ∈ providers, ReflTransGen (DependsOn providers) selected provider.plugin →
    .targetStore ∉ provider.bootstrapDependencies
  acyclic : Acyclic fun a b =>
    ReflTransGen (DependsOn providers) selected a ∧ DependsOn providers a b

/-- The features that the schemas need, with migrations where there are some. -/
def Needs (schemas : List DurableSchemaRegistration) (feature : BackendFeature) : Prop :=
  (∃ registration ∈ schemas, feature ∈ registration.schema.requiredFeatures) ∨
    feature = .migrations ∧ ∃ registration ∈ schemas, registration.migrations ≠ []

/-- The transition fits the active bootstrap. -/
structure TransitionFits (active : Option ResolvedPersistenceBootstrap) (selected : PluginId)
    (binding : StoreBinding) (transition : Option PersistenceProviderTransition) : Prop where
  named : ∀ operation, transition = some (.migration operation) ∨
    transition = some (.exportImport operation) → isBlank operation = false
  present : ∀ current, active = some current → current.binding.id = binding.id →
    current.provider.plugin ≠ selected ∨ current.binding.storageFormat ≠ binding.storageFormat →
      transition ≠ none
  compatible : ∀ current, active = some current → current.binding.id = binding.id →
    transition = some .compatibleFormat → current.binding.storageFormat = binding.storageFormat

section Choice
variable {providers : List PersistenceProviderDescriptor} {preStorePlugins : BTreeSet PluginId}
  {selected : PluginId} {active : Option ResolvedPersistenceBootstrap} {binding : StoreBinding}
  {transition : Option PersistenceProviderTransition} {schemas : List DurableSchemaRegistration}

theorem founded_iff (hselected : selected ∈ providers.map (·.plugin)) :
    Founded providers preStorePlugins selected ↔ Bootable providers preStorePlugins selected := by
  constructor
  · rintro ⟨hgrounded,hprovided⟩
    refine ⟨fun b hb => ?_,fun provider hprovider hreached => ?_,fun a ha => ?_⟩
    · rcases ReflTransGen.cases_tail hb with rfl | ⟨a,ha,provider,hprovider,hid,hb⟩
      · exact .inl hselected
      · exact ((hprovided a ha provider hprovider hid).2 b hb).symm
    · exact (hprovided _ hreached provider hprovider rfl).1
    · obtain ⟨_,⟨hreached,-⟩,-⟩ := TransGen.head'_iff.mp ha
      exact (hgrounded.reached hreached).not_cyclic (ha.lift id fun _ _ h => h.2)
  · intro h
    refine ⟨?_,fun a ha provider hprovider hid => ⟨?_,fun b hb => ?_⟩⟩
    · have hgrounded := grounded_of_acyclic (finite_toSet (providers.map (·.plugin)))
        (fun a b hab => ?_) h.acyclic selected
      · have hstep : ∀ a, ReflTransGen (DependsOn providers) selected a →
            Grounded (fun a b => ReflTransGen (DependsOn providers) selected a ∧
              DependsOn providers a b) a → Grounded (DependsOn providers) a := by
          intro a ha hgrounded
          induction hgrounded with
          | intro a _ ih => exact Acc.intro _ fun b hb => ih b ⟨ha,hb⟩ (ha.tail hb)
        exact hstep selected .refl hgrounded
      · obtain ⟨-,provider,hprovider,rfl,-⟩ := hab
        exact mem_map_of_mem hprovider
    · exact h.apart provider hprovider (hid ▸ ha)
    · exact (h.available b (ha.tail ⟨provider,hprovider,hid,hb⟩)).symm

theorem indexProviders_eq_ok (hdistinct : (providers.map (·.plugin)).Nodup) :
    ∃ byId, indexProviders providers = .ok byId ∧ ∀ a provider,
      byId.get? a = some provider ↔ provider ∈ providers ∧ provider.plugin = a := by
  suffices h : ∀ start : BTreeMap PluginId PersistenceProviderDescriptor,
      (∀ provider ∈ providers, start.get? provider.plugin = none) →
      ∃ byId, providers.foldlM (fun byId provider =>
        if (byId.get? provider.plugin).isSome then .error (.duplicateProvider provider.plugin)
        else .ok (byId.insert provider.plugin provider)) start =
          (.ok byId : Except PersistenceBootstrapError _) ∧ ∀ a provider,
        byId.get? a = some provider ↔
          start.get? a = some provider ∨ provider ∈ providers ∧ provider.plugin = a by
    simpa [indexProviders] using h .empty (by simp)
  induction providers with
  | nil => exact fun start _ => ⟨start,rfl,by simp⟩
  | cons first rest ih =>
    intro start hnew
    obtain ⟨hfirst,hrest⟩ := nodup_cons.mp hdistinct
    have hfresh : ∀ provider ∈ rest, provider.plugin ≠ first.plugin := fun provider hprovider heq =>
      hfirst (mem_map.mpr ⟨provider,hprovider,heq⟩)
    obtain ⟨byId,hbyId,hget⟩ := ih hrest (start.insert first.plugin first) fun provider hprovider => by
      rw [BTreeMap.get?_insert_of_ne _ _ (hfresh provider hprovider)]
      exact hnew provider (mem_cons_of_mem _ hprovider)
    refine ⟨byId,?_,fun a provider => ?_⟩
    · rw [foldlM_cons, hnew first mem_cons_self]
      exact hbyId
    · rw [hget, BTreeMap.get?_insert]
      split_ifs with heq
      · grind
      · grind

variable {provider : PersistenceProviderDescriptor}

theorem validateTransition_eq_ok : (validateTransition active provider binding transition = .ok () ∧
      validateTransitionOperation transition = .ok ()) ↔
        TransitionFits active provider.plugin binding transition := by
  have hnamed : validateTransitionOperation transition = .ok () ↔ ∀ operation,
      transition = some (.migration operation) ∨ transition = some (.exportImport operation) →
        isBlank operation = false := by
    unfold validateTransitionOperation
    rcases transition with _ | _ | _ | _ <;> simp [PersistenceProviderTransition.operation] <;>
      split_ifs <;> simp_all
  have hactive : validateTransition active provider binding transition = .ok () ↔
      ∀ current, active = some current → current.binding.id = binding.id →
        (current.provider.plugin ≠ provider.plugin ∨
          current.binding.storageFormat ≠ binding.storageFormat → transition ≠ none) ∧
        (transition = some .compatibleFormat →
          current.binding.storageFormat = binding.storageFormat) := by
    unfold validateTransition
    cases active with
    | none => simp
    | some current =>
      simp only [Option.some.injEq, forall_eq']
      split_ifs <;> grind
  constructor
  · rintro ⟨hvalid,hoperation⟩
    exact ⟨hnamed.mp hoperation,fun current hcurrent hid => (hactive.mp hvalid current hcurrent hid).1,
      fun current hcurrent hid => (hactive.mp hvalid current hcurrent hid).2⟩
  · intro h
    exact ⟨hactive.mpr fun current hcurrent hid =>
      ⟨h.present current hcurrent hid,h.compatible current hcurrent hid⟩,hnamed.mpr h.named⟩

theorem validateTransition_ne_cycle {path : List PluginId} :
    validateTransition active provider binding transition ≠ .error (.bootstrapCycle path) := by
  unfold validateTransition
  cases active with
  | none => simp
  | some current =>
    dsimp only
    split_ifs <;> simp

theorem validateTransitionOperation_ne_cycle {path : List PluginId} :
    validateTransitionOperation transition ≠ .error (.bootstrapCycle path) := by
  unfold validateTransitionOperation
  split_ifs <;> simp

theorem requiredFeatures_supported :
    (requiredFeatures schemas).filter (· ∉ provider.supportedFeatures) = [] ↔
      ∀ feature, Needs schemas feature → feature ∈ provider.supportedFeatures := by
  have hall : ∀ feature, feature ∈ BackendFeature.all := by
    intro feature
    cases feature <;> decide
  simp only [filter_eq_nil_iff, requiredFeatures, mem_filter, hall, Needs]
  refine forall_congr' fun feature => ?_
  simp only [any_eq_true, Bool.not_eq_true', isEmpty_eq_false_iff, decide_eq_true_eq,
    true_and]
  rw [not_not]

theorem validateBootstrapDependencies_searched
    {byId : BTreeMap PluginId PersistenceProviderDescriptor}
    (hget : ∀ a provider, byId.get? a = some provider ↔
      provider ∈ providers ∧ provider.plugin = a) :
    (validateBootstrapDependencies byId preStorePlugins selected = .ok () ↔
      Founded providers preStorePlugins selected) ∧
    ∀ error, validateBootstrapDependencies byId preStorePlugins selected = .error error →
      Shows providers preStorePlugins selected error := by
  have hsearched : Searched providers preStorePlugins selected
      (Founded providers preStorePlugins selected) (visit byId preStorePlugins selected [] .empty) :=
    visit_searched hget selected [] .empty (fun a ha => absurd ha not_mem_nil) (.singleton _)
      (by simp [ReflTransGen.refl])
  unfold validateBootstrapDependencies
  cases hvisit : visit byId preStorePlugins selected [] .empty with
  | error error =>
    rw [hvisit] at hsearched
    refine ⟨iff_of_false (by simp) (not_founded_of_shows hsearched),fun error' herror => ?_⟩
    cases herror
    exact hsearched
  | ok complete =>
    rw [hvisit] at hsearched
    exact ⟨iff_of_true rfl hsearched.2,fun error' herror => by cases herror⟩

end Choice

/-- A provider is chosen when it can be started before the store and fits what is asked, and
only then; a cycle that is reported is one that the provider comes to. -/
theorem resolvePersistenceBootstrap_iff (selected : PluginId)
    (providers : List PersistenceProviderDescriptor) (preStorePlugins : BTreeSet PluginId)
    (binding : StoreBinding) (schemas : List DurableSchemaRegistration)
    (active : Option ResolvedPersistenceBootstrap)
    (transition : Option PersistenceProviderTransition)
    (hdistinct : (providers.map (·.plugin)).Nodup) :
    ((∃ resolved, resolvePersistenceBootstrap selected providers preStorePlugins binding schemas
        active transition = .ok resolved) ↔
      (∃ provider ∈ providers, provider.plugin = selected ∧
        (∀ feature, Needs schemas feature → feature ∈ provider.supportedFeatures) ∧
        binding.storageFormat ∈ provider.compatibleStorageFormats) ∧
      Bootable providers preStorePlugins selected ∧
      TransitionFits active selected binding transition) ∧
    ∀ path, resolvePersistenceBootstrap selected providers preStorePlugins binding schemas
        active transition = .error (.bootstrapCycle path) →
      ClosedWalk (DependsOn providers) path ∧
        ∀ a ∈ path, ReflTransGen (DependsOn providers) selected a := by
  obtain ⟨byId,hbyId,hget⟩ := indexProviders_eq_ok hdistinct
  unfold resolvePersistenceBootstrap
  rw [hbyId, ok_bind]
  cases hprovider : byId.get? selected with
  | none =>
    refine ⟨iff_of_false (by simp) ?_,fun path h => by simp at h⟩
    rintro ⟨⟨provider,hlisted,hid,-⟩,-⟩
    rw [(hget selected provider).mpr ⟨hlisted,hid⟩] at hprovider
    cases hprovider
  | some provider =>
    obtain ⟨hlisted,rfl⟩ := (hget selected provider).mp hprovider
    obtain ⟨hfounded,hshows⟩ :
        (validateBootstrapDependencies byId preStorePlugins provider.plugin = .ok () ↔ _) ∧ _ :=
      validateBootstrapDependencies_searched hget
    rw [founded_iff (mem_map_of_mem hlisted)] at hfounded
    constructor
    · simp only [seq_eq_ok, exists_and_left, hfounded, ensure_eq_ok, requiredFeatures_supported]
      constructor
      · rintro ⟨hbootable,hfeatures,hformat,htransition,hoperation,-⟩
        exact ⟨⟨provider,hlisted,rfl,hfeatures,hformat⟩,hbootable,
          validateTransition_eq_ok.mp ⟨htransition,hoperation⟩⟩
      · rintro ⟨⟨other,hother,hid,hfeatures,hformat⟩,hbootable,hfits⟩
        obtain rfl := eq_of_indexed hget hprovider hother hid
        obtain ⟨htransition,hoperation⟩ := validateTransition_eq_ok.mpr hfits
        exact ⟨hbootable,hfeatures,hformat,htransition,hoperation,_,rfl⟩
    · intro path h
      rcases bind_eq_error.mp h with h | ⟨_,-,h⟩
      · exact hshows _ h
      rcases bind_eq_error.mp h with h | ⟨_,-,h⟩
      · cases (ensure_eq_error.mp h).2
      rcases bind_eq_error.mp h with h | ⟨_,-,h⟩
      · cases (ensure_eq_error.mp h).2
      rcases bind_eq_error.mp h with h | ⟨_,-,h⟩
      · exact absurd h validateTransition_ne_cycle
      rcases bind_eq_error.mp h with h | ⟨_,-,h⟩
      · exact absurd h validateTransitionOperation_ne_cycle
      · cases h

def compass : PluginId := ⟨"compass",by decide⟩

def guideBinding : StoreBinding := ⟨⟨"guide",by decide⟩,"pages"⟩

/-- A provider that needs itself is not chosen. -/
theorem resolvePersistenceBootstrap_selfish :
    ¬ ∃ resolved, resolvePersistenceBootstrap compass [⟨compass,[],["pages"],[.plugin compass]⟩]
      .empty guideBinding [] none none = .ok resolved := by
  intro h
  have hbootable := ((resolvePersistenceBootstrap_iff compass _ _ _ _ _ _ (by simp)).1.mp h).2.1
  exact hbootable.acyclic compass (.single ⟨.refl,by simp [DependsOn]⟩)

end PhenixConductor.Persistence
