import PhenixConductor.Collections.Firsts
import PhenixConductor.Execution.UsagePolicy

/-! # Model routing

The plugin keeps the published capabilities of model targets in memory and in a durable
snapshot; a command that changes the memory replaces the snapshot in one transaction, and
restores the memory from the old snapshot if that fails.
-/
namespace PhenixConductor.Models
open Collections Execution

/-! ## Targets and candidates -/

/-- `V` stands for the values of options. -/
structure ModelTarget (V : Type) where
  providerPlugin : String
  model : String
  options : BTreeMap String V
deriving DecidableEq

structure RoutingProfile (V : Type) where
  id : String
  defaultTarget : ModelTarget V
  fallbackTargets : List (ModelTarget V)
  callableTargets : BTreeMap String (ModelTarget V)
deriving DecidableEq

inductive ContextControl
  | replaceableTurns
  | appendOnlyWithResetReplay
  | opaqueManaged
deriving DecidableEq

structure ModelLimits where
  contextWindowTokens : U64
  maxOutputTokens : Option U64
deriving DecidableEq

inductive CapacityKnowledge
  | known (limits : ModelLimits)
  | configuredConservative (limits : ModelLimits)
  | unknown
deriving DecidableEq

structure EffectiveModelCapabilities (V : Type) where
  target : ModelTarget V
  generation : String
  context : ContextControl
  capacity : CapacityKnowledge
  optional : BTreeSet String
deriving DecidableEq

inductive RoutingEstimateSource
  | static
  | historical
  | learned
deriving DecidableEq

structure RoutingEstimate where
  source : RoutingEstimateSource
  expectedQualityMillis : Option ℕ
  expectedLatencyMs : Option ℕ
  expectedCostMicrounits : Option ℕ
  confidenceMillis : Option ℕ
deriving DecidableEq

structure RoutingCandidate (V : Type) where
  capabilities : EffectiveModelCapabilities V
  estimate : Option RoutingEstimate
  ordinal : ℕ
deriving DecidableEq

inductive RouteEligibility
  | eligible
  | missingCapabilities (capabilities : List String)
  | insufficientContextCapacity
  | unknownContextCapacity
deriving DecidableEq

inductive RoutingEstimateMode
  | ignore
  | preferTrusted (minConfidenceMillis : ℕ)
deriving DecidableEq

structure RouteSelectionPolicy where
  revision : String
  estimates : RoutingEstimateMode
  maxCandidateAttempts : ℕ
deriving DecidableEq

structure RouteDecision (V : Type) where
  target : ModelTarget V
  capabilityGeneration : String
  policyRevision : String
  candidateOrdinal : ℕ
  estimate : Option RoutingEstimate
deriving DecidableEq

structure RejectedRoutingCandidate (V : Type) where
  target : ModelTarget V
  ordinal : ℕ
  reason : RouteEligibility
deriving DecidableEq

structure RouteSelection (V : Type) where
  decision : RouteDecision V
  rejected : List (RejectedRoutingCandidate V)
deriving DecidableEq

inductive RouteSelectionError (V : Type)
  | noEligibleCandidates (rejected : List (RejectedRoutingCandidate V))
  | candidateAttemptLimitExceeded (eligible allowed : ℕ)
deriving DecidableEq

variable {V E I : Type}

/-- `u32::try_from(len).unwrap_or(u32::MAX)` -/
def u32OfLength (n : ℕ) : ℕ := min n (2 ^ 32 - 1)

/-- `RoutingRequirements::evaluate` -/
def evaluate (requirements : RoutingRequirements) (capabilities : EffectiveModelCapabilities V) :
    RouteEligibility :=
  let required := BTreeSet.collect
    (requirements.requiredCapabilities.keys ++ requirements.context.requiredCapabilities.keys)
  let missing := required.keys.filter (· ∉ capabilities.optional.keys)
  if missing ≠ [] then .missingCapabilities missing
  else
    let requiredContext :=
      saturatingAdd requirements.context.totalInputTokens requirements.context.outputReserveTokens
    match capabilities.capacity with
    | .known limits | .configuredConservative limits =>
      if limits.contextWindowTokens < requiredContext ∨
          limits.maxOutputTokens.any (· < requirements.context.outputReserveTokens) then
        .insufficientContextCapacity
      else .eligible
    | .unknown => if requirements.requireKnownCapacity then .unknownContextCapacity else .eligible

def trustedEstimate (candidate : RoutingCandidate V) (minimum : ℕ) : Option RoutingEstimate :=
  candidate.estimate.filter fun estimate => minimum ≤ estimate.confidenceMillis.getD 0

def compareCandidates (left right : RoutingCandidate V) : RoutingEstimateMode → Ordering
  | .ignore => compare left.ordinal right.ordinal
  | .preferTrusted minConfidenceMillis =>
    match trustedEstimate left minConfidenceMillis, trustedEstimate right minConfidenceMillis with
    | some leftEstimate, some rightEstimate =>
      (compare (rightEstimate.expectedQualityMillis.getD 0)
        (leftEstimate.expectedQualityMillis.getD 0)).then
      ((compare (leftEstimate.expectedCostMicrounits.getD (2 ^ 64 - 1))
        (rightEstimate.expectedCostMicrounits.getD (2 ^ 64 - 1))).then
      ((compare (leftEstimate.expectedLatencyMs.getD (2 ^ 64 - 1))
        (rightEstimate.expectedLatencyMs.getD (2 ^ 64 - 1))).then
      (compare left.ordinal right.ordinal)))
    | some _, none => .lt
    | none, some _ => .gt
    | none, none => compare left.ordinal right.ordinal

def rejected (requirements : RoutingRequirements) (candidate : RoutingCandidate V) :
    Option (RejectedRoutingCandidate V) :=
  match evaluate requirements candidate.capabilities with
  | .eligible => none
  | reason => some ⟨candidate.capabilities.target,candidate.ordinal,reason⟩

/-- The eligible candidates that may be attempted. -/
def attempted (eligible : List (RoutingCandidate V)) (policy : RouteSelectionPolicy) :
    List (RoutingCandidate V) :=
  if policy.maxCandidateAttempts < u32OfLength eligible.length then
    (eligible.insertionSort fun left right => left.ordinal ≤ right.ordinal).take
      policy.maxCandidateAttempts
  else eligible

def selectRoute (candidates : List (RoutingCandidate V)) (requirements : RoutingRequirements)
    (policy : RouteSelectionPolicy) : Except (RouteSelectionError V) (RouteSelection V) :=
  let eligible := candidates.filter fun candidate =>
    evaluate requirements candidate.capabilities = .eligible
  let rejected := candidates.filterMap (rejected requirements)
  if eligible = [] then .error (.noEligibleCandidates rejected)
  else
    match (attempted eligible policy).insertionSort fun left right =>
      compareCandidates left right policy.estimates ≠ .gt with
    | [] => .error (.candidateAttemptLimitExceeded (u32OfLength eligible.length)
        policy.maxCandidateAttempts)
    | winner :: _ => .ok
      { decision :=
          { target := winner.capabilities.target
            capabilityGeneration := winner.capabilities.generation
            policyRevision := policy.revision
            candidateOrdinal := winner.ordinal
            estimate := winner.estimate }
        rejected }

/-! ## The routing state -/

/-- `E` stands for the evidence of finished calls. -/
structure RoutingRuntimeState (V E : Type) where
  capabilities : BTreeMap String (EffectiveModelCapabilities V)
  estimates : BTreeMap String RoutingEstimate
  evidence : BTreeMap String (List E)
deriving DecidableEq

def RoutingRuntimeState.default : RoutingRuntimeState V E := ⟨.empty,.empty,.empty⟩

inductive RoutingRuntimeError (V : Type)
  | invalidTargetIdentity
  | missingEffectiveCapabilities (target : ModelTarget V)
  | staleCapabilityGeneration (target : ModelTarget V) (decision current : String)
  | selection (error : RouteSelectionError V)
deriving DecidableEq

/-- `I` stands for input, tools and continuation of a call. -/
structure ModelInferenceRequest (V I : Type) where
  model : String
  options : BTreeMap String V
  payload : I

/-- The JSON library: the texts of values, and the values of texts. -/
structure JsonLibrary (V E I : Type) where
  target : ModelTarget V → Option String
  runtime : RoutingRuntimeState V E → Except String String
  readRuntime : String → Except String (RoutingRuntimeState V E)
  profile : RoutingProfile V → Except String String
  readProfile : String → Except String (RoutingProfile V)
  index : List String → Except String String
  readIndex : String → Except String (List String)
  request : ModelInferenceRequest V I → Except String String

variable (json : JsonLibrary V E I)

def targetKey (target : ModelTarget V) : Except (RoutingRuntimeError V) String :=
  match json.target target with
  | some key => .ok key
  | none => .error .invalidTargetIdentity

namespace RoutingRuntimeState

def publishCapabilities (self : RoutingRuntimeState V E)
    (capabilities : EffectiveModelCapabilities V) :
    Except (RoutingRuntimeError V) (RoutingRuntimeState V E) := do
  let key ← targetKey json capabilities.target
  return { self with capabilities := self.capabilities.insert key capabilities }

def validateDecision (self : RoutingRuntimeState V E) (decision : RouteDecision V) :
    Except (RoutingRuntimeError V) (EffectiveModelCapabilities V) := do
  let key ← targetKey json decision.target
  match self.capabilities.get? key with
  | none => .error (.missingEffectiveCapabilities decision.target)
  | some current =>
    if current.generation ≠ decision.capabilityGeneration then
      .error (.staleCapabilityGeneration decision.target decision.capabilityGeneration
        current.generation)
    else .ok current

def recordEvidence (self : RoutingRuntimeState V E) (decision : RouteDecision V) (evidence : E) :
    Except (RoutingRuntimeError V) (RoutingRuntimeState V E) := do
  let _ ← self.validateDecision json decision
  let key ← targetKey json decision.target
  return { self with
    evidence := self.evidence.insert key ((self.evidence.get? key).getD [] ++ [evidence]) }

/-- The targets of a profile in the order of its candidates, with repetitions. -/
def ordered (profile : RoutingProfile V) (callableId : Option String) : List (ModelTarget V) :=
  ((callableId.bind profile.callableTargets.get?).getD profile.defaultTarget) ::
    profile.fallbackTargets

/-- The loop of `candidates`: the keys seen and the candidates found so far. -/
def collectCandidates (self : RoutingRuntimeState V E) :
    List (ModelTarget V) → List String → List (RoutingCandidate V) →
      Except (RoutingRuntimeError V) (List (RoutingCandidate V))
  | [], _, candidates => .ok candidates
  | target :: rest, seen, candidates => do
    let key ← targetKey json target
    if key ∈ seen then collectCandidates self rest seen candidates
    else
      match self.capabilities.get? key with
      | none => .error (.missingEffectiveCapabilities target)
      | some capabilities =>
        collectCandidates self rest (key :: seen) (candidates ++
          [⟨capabilities,self.estimates.get? key,u32OfLength candidates.length⟩])

def candidates (self : RoutingRuntimeState V E) (profile : RoutingProfile V)
    (callableId : Option String) : Except (RoutingRuntimeError V) (List (RoutingCandidate V)) :=
  self.collectCandidates json (ordered profile callableId) [] []

def resolve (self : RoutingRuntimeState V E) (profile : RoutingProfile V)
    (callableId : Option String) (requirements : RoutingRequirements)
    (policy : RouteSelectionPolicy) : Except (RoutingRuntimeError V) (RouteSelection V) := do
  let candidates ← self.candidates json profile callableId
  (selectRoute candidates requirements policy).mapError .selection

end RoutingRuntimeState

/-! ## The service -/

inductive RoutingServiceStateError
  | invalidSnapshot (error : String)
  | snapshotTooLarge (bytes allowed : ℕ)
deriving DecidableEq

def routingRuntimeKey : String := "runtime/routing-state"

def maxRoutingSnapshotBytes : ℕ := 4 * 1024 * 1024

/-- `RoutingServiceState::restore` -/
def restore (snapshot : Option String) :
    Except RoutingServiceStateError (RoutingRuntimeState V E) :=
  match snapshot with
  | none => .ok .default
  | some bytes =>
    if maxRoutingSnapshotBytes < bytes.utf8ByteSize then
      .error (.snapshotTooLarge bytes.utf8ByteSize maxRoutingSnapshotBytes)
    else (json.readRuntime bytes).mapError .invalidSnapshot

/-- `RoutingServiceState::snapshot` -/
def snapshot (runtime : RoutingRuntimeState V E) : Except RoutingServiceStateError String := do
  let bytes ← (json.runtime runtime).mapError .invalidSnapshot
  if maxRoutingSnapshotBytes < bytes.utf8ByteSize then
    .error (.snapshotTooLarge bytes.utf8ByteSize maxRoutingSnapshotBytes)
  else .ok bytes

inductive ModelCommand (V E : Type)
  | registerProfile (profile : RoutingProfile V)
  | getProfile (id : String)
  | listProfiles
  | setProviderAuthenticated (providerPlugin : String) (authenticated : Bool)
  | publishCapabilities (capabilities : EffectiveModelCapabilities V)
  | listCandidates (profileId : String) (callableId : Option String)
  | resolveWithRequirements (profileId : String) (callableId : Option String)
    (requirements : RoutingRequirements) (policy : RouteSelectionPolicy)
  | recordEvidence (decision : RouteDecision V) (evidence : E)

inductive ModelResponse (V : Type)
  | profile (profile : Option (RoutingProfile V))
  | profiles (profiles : List (String × List String))
  | authentication (providerPlugin : String) (authenticated : Bool)
  | capabilities (capabilities : EffectiveModelCapabilities V)
  | candidates (candidates : List (RoutingCandidate V))
  | decision (selection : RouteSelection V)
  | evidenceRecorded
  | ready (decision : RouteDecision V) (request : String)
deriving DecidableEq

/-- An error text, or one that shows a value in its debug form. -/
inductive ModelError (V : Type)
  | text (text : String)
  | runtime (context : String) (error : RoutingRuntimeError V)
  | service (context : String) (error : RoutingServiceStateError)
deriving DecidableEq

/-- The plugin, and its part of the durable store. -/
structure ModelState (V E : Type) where
  authenticated : BTreeSet String
  routing : RoutingRuntimeState V E
  durable : String → Option String

/-- The failures of the durable store during a command. -/
structure Fates where
  read : String → Option String
  transact : Option String

abbrev ModelM (V E : Type) := EStateM (ModelError V) (ModelState V E)

variable (fates : Fates)

def readRaw (key : String) : ModelM V E (Option String) := do
  match fates.read key with
  | some error => throw (.text error)
  | none => return (← get).durable key

/-- `transact_durable` -/
def transactDurable (durable : String → Option String) (ops : List (MapOp String String)) :
    Except String (String → Option String) :=
  match fates.transact with
  | some error => .error error
  | none => (MapOp.commit durable ops).mapError fun key => s!"durable assertion failed: {key}"

def profileKey (id : String) : String := "profile/" ++ id

def profileIndex : String := "index/profiles"

def readProfile (id : String) : ModelM V E (Option (RoutingProfile V)) := do
  match ← readRaw fates (profileKey id) with
  | none => return none
  | some value => return some (← check ((json.readProfile value).mapError .text))

def requireProfile (id : String) : ModelM V E (RoutingProfile V) := do
  match ← readProfile json fates id with
  | none => throw (.text s!"unknown routing profile: {id}")
  | some profile => return profile

/-- An update of the routing state in memory. -/
def updateRouting (context : String) (update : RoutingRuntimeState V E →
    Except (RoutingRuntimeError V) (RoutingRuntimeState V E)) : ModelM V E Unit := do
  let s ← get
  let routing ← check ((update s.routing).mapError (.runtime context))
  set { s with routing }

/-- `handle_state_command` -/
def handleStateCommand : ModelCommand V E → Option (ModelM V E (ModelResponse V))
  | .publishCapabilities capabilities => some do
    updateRouting "routing capability publication failed" fun routing =>
      routing.publishCapabilities json capabilities
    return .capabilities capabilities
  | .listCandidates profileId callableId => some do
    let profile ← requireProfile json fates profileId
    let candidates ← check (((← get).routing.candidates json profile callableId).mapError
      (.runtime "routing candidate construction failed"))
    return .candidates candidates
  | .resolveWithRequirements profileId callableId requirements policy => some do
    let profile ← requireProfile json fates profileId
    let selection ← check (((← get).routing.resolve json profile callableId requirements
      policy).mapError (.runtime "routing selection failed"))
    return .decision selection
  | .recordEvidence decision evidence => some do
    updateRouting "routing evidence recording failed" fun routing =>
      routing.recordEvidence json decision evidence
    return .evidenceRecorded
  | _ => none

/-! ## The plugin -/

/-- The memory goes back to the snapshot before the command. -/
def rollback (previous : Option String) : ModelM V E Unit := do
  let routing ← check ((restore json previous).mapError (.service "routing state rollback failed"))
  modify fun s => { s with routing }

def persistRuntimeState (previous : Option String) : ModelM V E Unit := do
  let s ← get
  match snapshot json s.routing with
  | .error error => do
    rollback json previous
    throw (.service "routing state snapshot failed" error)
  | .ok next =>
    match transactDurable fates s.durable
      [.assert routingRuntimeKey previous,.put routingRuntimeKey next] with
    | .error error => do
      rollback json previous
      throw (.text error)
    | .ok durable => set { s with durable }

/-- The ids of an index that may not be there yet. -/
def indexedIds (index : Option String) : Except (ModelError V) (List String) :=
  match index with
  | none => .ok []
  | some value => (json.readIndex value).mapError .text

def isRegistered (ids : List String) (id : String) : ModelM V E Bool :=
  if id ∈ ids then pure true else Option.isSome <$> readRaw fates (profileKey id)

/-- What `insert_profile` writes. -/
def profileOps (profile : RoutingProfile V) (oldIndex : Option String) (ids : List String) :
    Except String (List (MapOp String String)) := do
  let value ← json.profile profile
  let index ← json.index ((ids ++ [profile.id]).insertionSort (· ≤ ·))
  return [.assert (profileKey profile.id) none,.assert profileIndex oldIndex,
    .put (profileKey profile.id) value,.put profileIndex index]

def insertProfile (profile : RoutingProfile V) : ModelM V E Unit := do
  let oldIndex ← readRaw fates profileIndex
  let ids ← check (indexedIds json oldIndex)
  if ← isRegistered fates ids profile.id then
    throw (.text s!"routing profile already registered: {profile.id}")
  else
    let s ← get
    let durable ← check ((do
      let ops ← profileOps json profile oldIndex ids
      transactDurable fates s.durable ops).mapError .text)
    set { s with durable }

def descriptor (profile : RoutingProfile V) : String × List String :=
  (profile.id,(BTreeSet.collect (profile.defaultTarget.providerPlugin ::
    (profile.fallbackTargets ++ profile.callableTargets.values).map (·.providerPlugin))).keys)

def loadProfiles : ModelM V E (List (RoutingProfile V)) := do
  let ids ← check (indexedIds json (← readRaw fates profileIndex))
  ids.mapM fun id => do
    match ← readProfile json fates id with
    | none => throw (.text s!"missing routing profile: {id}")
    | some profile => return profile

def mutatesRuntime : ModelCommand V E → Bool
  | .publishCapabilities _ | .recordEvidence .. => true
  | _ => false

def previousRuntime (command : ModelCommand V E) : ModelM V E (Option String) :=
  if mutatesRuntime command then readRaw fates routingRuntimeKey else pure none

def handleRouting (command : ModelCommand V E) : ModelM V E (ModelResponse V) := do
  let previous ← previousRuntime fates command
  match handleStateCommand json fates command with
  | some run => do
    let response ← run
    if mutatesRuntime command then persistRuntimeState json fates previous
    return response
  | none =>
    match command with
    | .registerProfile profile => do
      insertProfile json fates profile
      return .profile (some profile)
    | .getProfile id => return .profile (← readProfile json fates id)
    | .listProfiles => return .profiles ((← loadProfiles json fates).map descriptor)
    | .setProviderAuthenticated providerPlugin authenticated => do
      modify fun s => { s with authenticated :=
        if authenticated then s.authenticated.insert providerPlugin ()
        else s.authenticated.erase providerPlugin }
      return .authentication providerPlugin authenticated
    | _ => throw (.text "routing state command was not handled")

/-- `validate_dispatch` and `encode_request`. -/
def prepareResolved (decision : RouteDecision V) (payload : I) : ModelM V E (ModelResponse V) := do
  let s ← get
  let _ ← check ((s.routing.validateDecision json decision).mapError
    (.runtime "resolved routing decision is invalid"))
  unless decision.target.providerPlugin ∈ s.authenticated.keys do
    throw (.text s!"provider authentication required: {decision.target.providerPlugin}")
  let request ← check ((json.request
    ⟨decision.target.model,decision.target.options,payload⟩).mapError .text)
  return .ready decision request

/-- An invocation of the routing service or of `PrepareResolved`. -/
inductive Invocation (V E I : Type)
  | routing (command : ModelCommand V E)
  | prepareResolved (decision : RouteDecision V) (payload : I)

def handle : Invocation V E I → ModelM V E (ModelResponse V)
  | .routing command => handleRouting json fates command
  | .prepareResolved decision payload => prepareResolved json decision payload

end PhenixConductor.Models
