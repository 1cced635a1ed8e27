import PhenixConductor.Collections.JsonText
import PhenixConductor.Collections.Transactions
import PhenixConductor.Persistence.Refinement

/-! # The artifact store and its read cache

An artifact is stored once under the identity of its content.
-/
namespace PhenixConductor.Artifacts
open Collections
open Configuration (isBlank)

structure ArtifactProvenance where
  producer : String
  providerIdentity : Option String
  configurationIdentity : Option String
  sourceObservations : BTreeMap String String
deriving DecidableEq

structure ArtifactRecord where
  id : String
  contentIdentity : String
  content : List UInt8
  provenance : ArtifactProvenance
deriving DecidableEq

structure NormalizedReadRequest where
  resource : String
  parameters : BTreeMap String String
  presentationHint : Option String
deriving DecidableEq

structure ReadProviderIdentity where
  provider : String
  contractVersion : String
  implementationIdentity : String
  configurationIdentity : String
deriving DecidableEq

structure ReadResultRecord where
  id : String
  requestIdentity : String
  provider : ReadProviderIdentity
  artifactId : String
  contentIdentity : String
  dependencies : BTreeMap String String
  invocationProvenance : String
deriving DecidableEq

inductive RevalidationVerdict
  | stillValid
  | invalid
  | unknown
deriving DecidableEq

structure RevalidationRecord where
  resultId : String
  provider : ReadProviderIdentity
  currentDependencies : BTreeMap String String
  verdict : RevalidationVerdict
  provenance : String
deriving DecidableEq

inductive ArtifactCommand
  | store (content : List UInt8) (provenance : ArtifactProvenance)
  | get (id contentIdentity : String)
  | recordRead (request : NormalizedReadRequest) (provider : ReadProviderIdentity)
      (invocationProvenance : String) (content : List UInt8)
      (dependencies : BTreeMap String String)
  | lookupRead (request : NormalizedReadRequest) (provider : ReadProviderIdentity)
      (dependencies : BTreeMap String String)
  | revalidate (resultId : String) (provider : ReadProviderIdentity)
      (currentDependencies : BTreeMap String String) (verdict : RevalidationVerdict)
      (provenance : String)

inductive ArtifactResponse
  | stored (artifact : ArtifactRecord) (reused : Bool)
  | artifact (artifact : Option ArtifactRecord)
  | readRecorded (result : ReadResultRecord) (artifact : ArtifactRecord) (reused : Bool)
  | readLookup (result : Option ReadResultRecord)
  | revalidated (record : RevalidationRecord)

/-! ## Identities -/

/-- `normalized_request_identity`: the presentation hint is left out. -/
def normalizedRequestIdentity (request : NormalizedReadRequest) : Except String String :=
  if isBlank request.resource then .error "read resource must not be empty"
  else .ok ("request:" ++ String.ofList
    (jsonArray [quote request.resource,quoteMap request.parameters]))

def quoteProvider (provider : ReadProviderIdentity) : List Char :=
  quoteEntries [("provider",provider.provider),("contract_version",provider.contractVersion),
    ("implementation_identity",provider.implementationIdentity),
    ("configuration_identity",provider.configurationIdentity)]

def readResultIdentity (requestIdentity : String) (provider : ReadProviderIdentity)
    (contentIdentity : String) (dependencies : BTreeMap String String) : String :=
  "read:" ++ String.ofList (jsonArray [quote requestIdentity,quoteProvider provider,
    quote contentIdentity,quoteMap dependencies])

/-- `read_index_key`, behind `read-index/` -/
def readIndexPlace (requestIdentity : String) (provider : ReadProviderIdentity) : String :=
  String.ofList (jsonArray [quote requestIdentity,quoteProvider provider])

def RevalidationVerdict.name : RevalidationVerdict → String
  | .stillValid => "still_valid"
  | .invalid => "invalid"
  | .unknown => "unknown"

/-- `revalidation_key`, behind `revalidation/` -/
def revalidationPlace (record : RevalidationRecord) : String :=
  String.ofList (jsonObject [("result_id",quote record.resultId),
    ("provider",quoteProvider record.provider),
    ("current_dependencies",quoteMap record.currentDependencies),
    ("verdict",quote record.verdict.name),("provenance",quote record.provenance)])

/-- `{byte:02x}` -/
def hexByte (byte : UInt8) : List Char :=
  [hexDigit (byte.toNat / 16),hexDigit (byte.toNat % 16)]

def exactContentIdentity (content : List UInt8) : String :=
  "exact:" ++ Nat.repr content.length ++ ":" ++ String.ofList (content.flatMap hexByte)

def artifactIdentity (contentIdentity : String) : String := "artifact:" ++ contentIdentity

/-! ## Records -/

/-- The records of the plugin's namespace, each under a key with a start of its own. -/
inductive ArtifactCell
  | artifact (id : String)
  | readResult (id : String)
  | readIndex (place : String)
  | revalidation (place : String)
deriving DecidableEq

namespace ArtifactCell

def key : ArtifactCell → String
  | .artifact id => "artifact/" ++ id
  | .readResult id => "read-result/" ++ id
  | .readIndex place => "read-index/" ++ place
  | .revalidation place => "revalidation/" ++ place

abbrev Content : ArtifactCell → Type
  | .artifact _ => ArtifactRecord
  | .readResult _ => ReadResultRecord
  | .readIndex _ => String
  | .revalidation _ => RevalidationRecord

instance decidableContent : (cell : ArtifactCell) → DecidableEq cell.Content
  | .artifact _ => inferInstanceAs (DecidableEq ArtifactRecord)
  | .readResult _ => inferInstanceAs (DecidableEq ReadResultRecord)
  | .readIndex _ => inferInstanceAs (DecidableEq String)
  | .revalidation _ => inferInstanceAs (DecidableEq RevalidationRecord)

end ArtifactCell

abbrev ArtifactStore := Cells ArtifactCell.Content

/-- The plugin calls no other service. -/
abbrev NoReply : Empty → Type := fun _ => Unit

abbrev ArtifactM := StoreScript ArtifactCell.Content NoReply String

def storeError : CommitError ArtifactCell → String
  | .failed error => error
  | .assertion cell =>
    Persistence.assertionFailed "phenix.artifacts" "phenix.artifacts.state" cell.key

/-- `read_durable`, with the decoding of what is stored -/
def readDurable (cell : ArtifactCell) : ArtifactM (Option cell.Content) := do
  let value ← askRead cell
  Script.ofExcept value

def transactDurable (operations : List (CellOp ArtifactCell.Content)) : ArtifactM Unit := do
  let result ← askCommit operations
  Script.ofExcept (result.mapError storeError)

/-! ## Commands -/

structure StoredArtifact where
  artifact : ArtifactRecord
  reused : Bool

def storeArtifact (content : List UInt8) (provenance : ArtifactProvenance) :
    ArtifactM StoredArtifact := do
  let contentIdentity := exactContentIdentity content
  let id := artifactIdentity contentIdentity
  let stored ← readDurable (.artifact id)
  match stored with
  | some existing =>
    if existing.contentIdentity ≠ contentIdentity ∨ existing.content ≠ content then
      Script.fail ("artifact identity collision: " ++ id)
    else return ⟨existing,true⟩
  | none => do
    let artifact : ArtifactRecord := ⟨id,contentIdentity,content,provenance⟩
    transactDurable [.assert (.artifact id) none,.put (.artifact id) artifact]
    return ⟨artifact,false⟩

def readExact (id contentIdentity : String) : ArtifactM (Option ArtifactRecord) := do
  let stored ← readDurable (.artifact id)
  return stored.filter (·.contentIdentity = contentIdentity)

/-- The artifact is read only where the other conditions hold. -/
def lookupRead (request : NormalizedReadRequest) (provider : ReadProviderIdentity)
    (dependencies : BTreeMap String String) : ArtifactM (Option ReadResultRecord) := do
  let requestIdentity ← Script.ofExcept (normalizedRequestIdentity request)
  let indexed ← readDurable (.readIndex (readIndexPlace requestIdentity provider))
  match indexed with
  | none => return none
  | some resultId => do
    let stored ← readDurable (.readResult resultId)
    match stored with
    | none => Script.fail ("missing indexed read result: " ++ resultId)
    | some result =>
      if result.requestIdentity ≠ requestIdentity ∨ result.provider ≠ provider ∨
          result.dependencies ≠ dependencies then return none
      else do
        let artifact ← readExact result.artifactId result.contentIdentity
        return artifact.map fun _ => result

/-- The provenance of an artifact that a read records. -/
def readProvenance (provider : ReadProviderIdentity) (invocationProvenance : String)
    (dependencies : BTreeMap String String) : ArtifactProvenance :=
  ⟨invocationProvenance,some provider.provider,some provider.configurationIdentity,dependencies⟩

def readResult (requestIdentity : String) (provider : ReadProviderIdentity)
    (artifact : ArtifactRecord) (dependencies : BTreeMap String String)
    (invocationProvenance : String) : ReadResultRecord where
  id := readResultIdentity requestIdentity provider artifact.contentIdentity dependencies
  requestIdentity := requestIdentity
  provider := provider
  artifactId := artifact.id
  contentIdentity := artifact.contentIdentity
  dependencies := dependencies
  invocationProvenance := invocationProvenance

def recordRead (request : NormalizedReadRequest) (provider : ReadProviderIdentity)
    (invocationProvenance : String) (content : List UInt8)
    (dependencies : BTreeMap String String) : ArtifactM ArtifactResponse := do
  let reusable ← lookupRead request provider dependencies
  match reusable with
  | some result => do
    let stored ← readExact result.artifactId result.contentIdentity
    match stored with
    | none => Script.fail ("missing artifact for reusable read result: " ++ result.id)
    | some artifact => return .readRecorded result artifact true
  | none => do
    let stored ← storeArtifact content
      (readProvenance provider invocationProvenance dependencies)
    let requestIdentity ← Script.ofExcept (normalizedRequestIdentity request)
    let result := readResult requestIdentity provider stored.artifact dependencies
      invocationProvenance
    let existing ← readDurable (.readResult result.id)
    match existing with
    | some existing =>
      if existing ≠ result then Script.fail ("read result identity collision: " ++ result.id)
      else return .readRecorded result stored.artifact false
    | none => do
      transactDurable [
        .assert (.readResult result.id) none,
        .put (.readResult result.id) result,
        .put (.readIndex (readIndexPlace requestIdentity provider)) result.id]
      return .readRecorded result stored.artifact false

def revalidate (resultId : String) (provider : ReadProviderIdentity)
    (currentDependencies : BTreeMap String String) (verdict : RevalidationVerdict)
    (provenance : String) : ArtifactM ArtifactResponse := do
  let stored ← readDurable (.readResult resultId)
  match stored with
  | none => Script.fail ("unknown read result: " ++ resultId)
  | some result => do
    let artifact ← readExact result.artifactId result.contentIdentity
    if artifact.isNone then Script.fail ("missing artifact for read result: " ++ resultId)
    else
      let record : RevalidationRecord :=
        ⟨resultId,provider,currentDependencies,verdict,provenance⟩
      transactDurable [.put (.revalidation (revalidationPlace record)) record]
      return .revalidated record

def handle : ArtifactCommand → ArtifactM ArtifactResponse
  | .store content provenance => do
    let stored ← storeArtifact content provenance
    return .stored stored.artifact stored.reused
  | .get id contentIdentity => do
    return .artifact (← readExact id contentIdentity)
  | .recordRead request provider invocationProvenance content dependencies =>
    recordRead request provider invocationProvenance content dependencies
  | .lookupRead request provider dependencies => do
    return .readLookup (← lookupRead request provider dependencies)
  | .revalidate resultId provider currentDependencies verdict provenance =>
    revalidate resultId provider currentDependencies verdict provenance

end PhenixConductor.Artifacts
