import PhenixConductor.Component.Manifest
import PhenixConductor.Collections.SortKey

/-! # Configuration contributions

A contribution sets one version of one namespace with some precedence.
-/
namespace PhenixConductor.Configuration
open Collections Contract Component

structure ConfigContributionSource where
  frontend : ConfigurationFrontendId
  sourceIdentity : String
  sourceRevision : String
  deriving DecidableEq

/-- `contractVersion` is a `u64` and `precedence` an `i32`; both are only compared. -/
structure ConfigContribution where
  source : ConfigContributionSource
  namespc : ConfigNamespace
  contractVersion : ℕ
  precedence : ℤ
  value : PhenixValue
  requestedAuthority : Authority

inductive ConfigMergeError where
  | invalidContractVersion (namespc : ConfigNamespace)
  | missingSourceIdentity (namespc : ConfigNamespace)
  | missingSourceRevision (namespc : ConfigNamespace)
  | conflictingContributions (namespc : ConfigNamespace) (contractVersion : ℕ) (precedence : ℤ)

structure ConfigContributionAttribution where
  source : ConfigContributionSource
  requestedAuthority : Authority
  deriving DecidableEq

structure ResolvedConfigContribution where
  namespc : ConfigNamespace
  contractVersion : ℕ
  value : PhenixValue
  attributions : List ConfigContributionAttribution
  grantedAuthority : Authority

structure ResolvedConfigContributions where
  entries : List ResolvedConfigContribution

/-- The derived `PartialEq`. -/
def ResolvedConfigContribution.partialEq (a b : ResolvedConfigContribution) : Bool :=
  a.namespc = b.namespc && a.contractVersion = b.contractVersion && a.value.partialEq b.value &&
    a.attributions = b.attributions && a.grantedAuthority = b.grantedAuthority

/-- The derived `PartialEq`. -/
def ResolvedConfigContributions.partialEq (a b : ResolvedConfigContributions) : Bool :=
  a.entries.isEqv b.entries ResolvedConfigContribution.partialEq

/-- The characters that `str::trim` removes. -/
def isWhiteSpace (c : Char) : Bool :=
  0x9 ≤ c.toNat && c.toNat ≤ 0xd || c.toNat = 0x20 || c.toNat = 0x85 || c.toNat = 0xa0 ||
    c.toNat = 0x1680 || 0x2000 ≤ c.toNat && c.toNat ≤ 0x200a || c.toNat = 0x2028 ||
    c.toNat = 0x2029 || c.toNat = 0x202f || c.toNat = 0x205f || c.toNat = 0x3000

/-- `text.trim().is_empty()` -/
def isBlank (text : String) : Bool := text.toList.all isWhiteSpace

/-- `domain_id_type!`: any text that is not blank. -/
structure DomainId where
  text : String
  valid : isBlank text = false

theorem DomainId.text_injective : Function.Injective DomainId.text := by
  rintro ⟨a,_⟩ ⟨b,_⟩ rfl
  rfl

instance : LinearOrder DomainId := LinearOrder.lift' DomainId.text DomainId.text_injective

namespace ConfigContribution

def validate (contribution : ConfigContribution) : Except ConfigMergeError Unit :=
  if contribution.contractVersion = 0 then .error (.invalidContractVersion contribution.namespc)
  else if isBlank contribution.source.sourceIdentity then
    .error (.missingSourceIdentity contribution.namespc)
  else if isBlank contribution.source.sourceRevision then
    .error (.missingSourceRevision contribution.namespc)
  else .ok ()

/-- The key of the entry that a contribution belongs to. -/
def key (contribution : ConfigContribution) : ConfigNamespace ×ₗ ℕ :=
  toLex (contribution.namespc,contribution.contractVersion)

def attribution (contribution : ConfigContribution) : ConfigContributionAttribution :=
  ⟨contribution.source,contribution.requestedAuthority⟩

/-- The entry that a contribution makes on its own. -/
def candidate (authorityCeiling : Authority) (contribution : ConfigContribution) :
    ResolvedConfigContribution where
  namespc := contribution.namespc
  contractVersion := contribution.contractVersion
  value := contribution.value
  attributions := [contribution.attribution]
  grantedAuthority := authorityCeiling.attenuate contribution.requestedAuthority

end ConfigContribution

/-- The end of both comparisons. Capabilities are compared in lexicographic order. -/
def compareAttributions (left right : ConfigContributionAttribution) : Ordering :=
  (compare left.source.frontend right.source.frontend).then
    ((compare left.source.sourceIdentity right.source.sourceIdentity).then
      ((compare left.source.sourceRevision right.source.sourceRevision).then
        (compare left.requestedAuthority.capabilities.keys right.requestedAuthority.capabilities.keys)))

def compareContributions (left right : ConfigContribution) : Ordering :=
  (compare left.namespc right.namespc).then
    ((compare left.contractVersion right.contractVersion).then
      ((compare right.precedence left.precedence).then
        (compareAttributions left.attribution right.attribution)))

abbrev Resolving := BTreeMap (ConfigNamespace ×ₗ ℕ) (ℤ × ResolvedConfigContribution)

/-- A source that was already attributed with this authority is not repeated. -/
def addAttribution (existing : ResolvedConfigContribution)
    (attribution : ConfigContributionAttribution) : ResolvedConfigContribution :=
  if attribution ∈ existing.attributions then existing
  else
    let attributions := existing.attributions ++ [attribution]
    { existing with
      attributions := attributions.insertionSort fun left right =>
        (compareAttributions left right).isLE }

/-- One turn of the fold. -/
def mergeContribution (authorityCeiling : Authority) (resolved : Resolving)
    (contribution : ConfigContribution) : Except ConfigMergeError Resolving :=
  let candidate := contribution.candidate authorityCeiling
  match resolved.get? contribution.key with
  | none => .ok (resolved.insert contribution.key (contribution.precedence,candidate))
  | some (currentPrecedence,existing) =>
    if contribution.precedence > currentPrecedence then
      .ok (resolved.insert contribution.key (contribution.precedence,candidate))
    else if contribution.precedence = currentPrecedence then
      if !existing.value.partialEq candidate.value ||
          existing.grantedAuthority ≠ candidate.grantedAuthority then
        .error (.conflictingContributions contribution.namespc contribution.contractVersion
          contribution.precedence)
      else
        .ok (resolved.insert contribution.key
          (currentPrecedence,addAttribution existing contribution.attribution))
    else .ok resolved

def ResolvedConfigContributions.tryResolve (contributions : List ConfigContribution)
    (authorityCeiling : Authority) : Except ConfigMergeError ResolvedConfigContributions := do
  contributions.forM ConfigContribution.validate
  let sorted := contributions.insertionSort fun left right => (compareContributions left right).isLE
  let resolved ← sorted.foldlM (mergeContribution authorityCeiling) .empty
  .ok ⟨resolved.values.map (·.2)⟩

end PhenixConductor.Configuration
