import PhenixConductor.Contract.Compatible

/-! # Manifests

What a plugin and a component declare before anything runs: who owns whom, which
interfaces are imported and exported under which schemas, which events are
listened to, and the authority that each declaration asks for or is limited to.
-/
namespace PhenixConductor.Component
open Collections Contract

structure Authority where
  capabilities : BTreeSet CapabilityId

namespace Authority

def new (capabilities : List CapabilityId) : Authority := ⟨BTreeSet.collect capabilities⟩

def permits (self : Authority) (capability : CapabilityId) : Bool :=
  capability ∈ self.capabilities.keys

def permitsAll (self required : Authority) : Bool :=
  required.capabilities.keys.all self.permits

def attenuate (self requested : Authority) : Authority :=
  ⟨self.capabilities.filter requested.permits⟩

theorem ext_keys {a b : Authority} (h : a.capabilities.keys = b.capabilities.keys) : a = b := by
  rcases a with ⟨a⟩
  rcases b with ⟨b⟩
  congr 1
  exact BTreeMap.eq_iff.mpr ⟨h,fun k hk => (b.get?_of_mem (h ▸ hk)).trans rfl⟩

instance : DecidableEq Authority := fun a b =>
  decidable_of_iff (a.capabilities.keys = b.capabilities.keys)
    ⟨ext_keys,fun h => h ▸ rfl⟩

theorem permits_attenuate (self requested : Authority) (capability : CapabilityId) :
    (self.attenuate requested).permits capability =
      (self.permits capability && requested.permits capability) := by
  simp [permits, attenuate, BTreeMap.filter, Bool.decide_and]

/-- An authority is at most another when it permits nothing that the other does not. -/
instance : SemilatticeInf Authority where
  le a b := ∀ capability, a.permits capability = true → b.permits capability = true
  le_refl _ _ h := h
  le_trans _ _ _ hab hbc capability h := hbc capability (hab capability h)
  le_antisymm a b hab hba := by
    apply ext_keys
    apply a.capabilities.sorted.eq_of_mem_iff b.capabilities.sorted
    intro capability
    simpa [permits] using Iff.intro (hab capability) (hba capability)
  inf := attenuate
  inf_le_left a b capability := by
    rw [permits_attenuate, Bool.and_eq_true]
    exact And.left
  inf_le_right a b capability := by
    rw [permits_attenuate, Bool.and_eq_true]
    exact And.right
  le_inf a b c hab hac capability h := by
    rw [permits_attenuate, hab capability h, hac capability h]
    rfl

theorem attenuate_le_left (self requested : Authority) : self.attenuate requested ≤ self :=
  inf_le_left (a := self)

theorem attenuate_le_right (self requested : Authority) : self.attenuate requested ≤ requested :=
  inf_le_right (b := requested)

end Authority

/-- The content identity of an artifact: `sha256:` and 64 lowercase hexadecimal digits. -/
structure ArtifactRevision where
  text : String
  valid : "sha256:".toList <+: text.toList ∧ (text.toList.drop 7).length = 64 ∧
    ∀ c ∈ text.toList.drop 7, c.isDigit = true ∨ 'a' ≤ c ∧ c ≤ 'f'
  deriving DecidableEq

structure PluginArtifact where
  locator : String
  revision : ArtifactRevision
  configuration : BTreeMap String PhenixValue

/-- The derived `PartialEq`. -/
def PluginArtifact.partialEq (a b : PluginArtifact) : Bool :=
  a.locator = b.locator && a.revision = b.revision &&
    a.configuration.toList.isEqv b.configuration.toList fun x y =>
      x.1 = y.1 && x.2.partialEq y.2

inductive PluginExecution where
  | embedded
  | runtime (runtime : RuntimeId) (artifact : PluginArtifact)
  | resourceOnly

def PluginExecution.isResourceOnly : PluginExecution → Bool
  | .resourceOnly => true
  | _ => false

/-- The derived `PartialEq`. -/
def PluginExecution.partialEq : PluginExecution → PluginExecution → Bool
  | .embedded,.embedded => true
  | .runtime id artifact,.runtime id' artifact' =>
    id = id' && artifact.partialEq artifact'
  | .resourceOnly,.resourceOnly => true
  | _,_ => false

/-- The three schemas of one interface call. -/
structure InterfaceSchema where
  request : PhenixSchema
  response : PhenixSchema
  error : PhenixSchema
  deriving DecidableEq

/-- The default: any request and response, and no domain error. -/
def InterfaceSchema.default : InterfaceSchema := ⟨.any,.any,.never⟩

structure InterfaceSchemaMismatch where
  request : Option SchemaMismatch
  response : Option SchemaMismatch
  error : Option SchemaMismatch

inductive InterfaceCompatibility where
  | exact
  | compatible
  | incompatible (mismatch : InterfaceSchemaMismatch)

def mismatchOf : SchemaCompatibility → Option SchemaMismatch
  | .incompatible mismatch => some mismatch
  | .exact | .compatible => none

/-- Requests flow to the provider, responses and errors back from it. -/
def InterfaceSchema.acceptsProvider (self provider : InterfaceSchema) : InterfaceCompatibility :=
  let request := provider.request.accepts self.request
  let response := self.response.accepts provider.response
  let error := self.error.accepts provider.error
  if (mismatchOf request).isSome || (mismatchOf response).isSome || (mismatchOf error).isSome then
    .incompatible ⟨mismatchOf request,mismatchOf response,mismatchOf error⟩
  else if request = .exact && response = .exact && error = .exact then .exact
  else .compatible

structure ComponentImport where
  interface : InterfaceId
  schema : InterfaceSchema
  required : Bool
  authority : Authority
  deriving DecidableEq

/-- `priority` is an `i32`, which is only compared. -/
structure ComponentExport where
  interface : InterfaceId
  schema : InterfaceSchema
  priority : ℤ
  requiredAuthority : Authority
  deriving DecidableEq

inductive ListenerProjection where
  | project | exact
  deriving DecidableEq

inductive EventFailurePolicy where
  | ignore | warn | failDelivery
  deriving DecidableEq

structure ComponentListener where
  id : SubscriptionId
  event : EventTypeId
  eventVersion : ℕ
  method : String
  payloadSchema : PhenixSchema
  projection : ListenerProjection
  dependencies : List SubscriptionId
  failurePolicy : EventFailurePolicy
  requiredAuthority : Authority
  deriving DecidableEq

structure ComponentManifest where
  id : ComponentId
  owner : PluginId
  imports : List ComponentImport
  exports : List ComponentExport
  listeners : List ComponentListener
  maximumAuthority : Authority
  deriving DecidableEq

inductive ServiceRole where
  | terminal | layer
  deriving DecidableEq

structure ServiceContribution where
  service : ServiceId
  role : ServiceRole
  priority : ℤ
  requiredAuthority : Authority
  deriving DecidableEq

structure PluginManifest where
  id : PluginId
  version : ℕ
  execution : PluginExecution
  dependencies : List PluginId
  services : List ServiceContribution
  resourceNamespaces : List ResourceNamespace
  maximumAuthority : Authority

/-- The derived `PartialEq`. -/
def PluginManifest.partialEq (a b : PluginManifest) : Bool :=
  a.id = b.id && a.version = b.version && a.execution.partialEq b.execution &&
    a.dependencies = b.dependencies && a.services = b.services &&
    a.resourceNamespaces = b.resourceNamespaces && a.maximumAuthority = b.maximumAuthority

theorem isEqv_symm {α : Type} {r : α → α → Bool} (hr : ∀ x y, r x y = true → r y x = true)
    {l m : List α} (h : l.isEqv m r = true) : m.isEqv l r = true := by
  induction l generalizing m with
  | nil =>
    cases m with
    | nil => rfl
    | cons y m => cases h
  | cons x l ih =>
    cases m with
    | nil => cases h
    | cons y m =>
      rw [List.isEqv, Bool.and_eq_true] at h ⊢
      exact ⟨hr x y h.1,ih h.2⟩

theorem PluginArtifact.partialEq_symm {a b : PluginArtifact} (h : a.partialEq b = true) :
    b.partialEq a = true := by
  unfold partialEq at h ⊢
  simp only [Bool.and_eq_true, decide_eq_true_eq] at h ⊢
  obtain ⟨⟨hlocator,hrevision⟩,hconfiguration⟩ := h
  refine ⟨⟨hlocator.symm,hrevision.symm⟩,isEqv_symm ?_ hconfiguration⟩
  intro x y hxy
  simp only [Bool.and_eq_true, decide_eq_true_eq] at hxy ⊢
  exact ⟨hxy.1.symm,PhenixValue.partialEq_symm hxy.2⟩

theorem PluginExecution.partialEq_symm {a b : PluginExecution} (h : a.partialEq b = true) :
    b.partialEq a = true := by
  cases a <;> cases b <;> simp_all [partialEq, PluginArtifact.partialEq_symm]

theorem PluginManifest.partialEq_symm {a b : PluginManifest} (h : a.partialEq b = true) :
    b.partialEq a = true := by
  unfold partialEq at h ⊢
  simp only [Bool.and_eq_true, decide_eq_true_eq] at h ⊢
  obtain ⟨⟨⟨⟨⟨⟨hid,hversion⟩,hexecution⟩,hdependencies⟩,hservices⟩,hnamespaces⟩,hauthority⟩ := h
  exact ⟨⟨⟨⟨⟨⟨hid.symm,hversion.symm⟩,PluginExecution.partialEq_symm hexecution⟩,
    hdependencies.symm⟩,hservices.symm⟩,hnamespaces.symm⟩,hauthority.symm⟩

/-- `!=` and `==` agree, whichever manifest stands first. -/
theorem PluginManifest.partialEq_comm (a b : PluginManifest) : a.partialEq b = b.partialEq a := by
  apply Bool.eq_iff_iff.mpr
  exact ⟨PluginManifest.partialEq_symm,PluginManifest.partialEq_symm⟩

end PhenixConductor.Component
