import PhenixConductor.Persistence.Refinement
import PhenixConductor.Runtime.Dispatch
import PhenixConductor.Collections.Stateful

/-! # Prepared mutations

The owner of a namespace prepares a transaction in the scope of an invocation and gets a handle
for it.
-/
namespace PhenixConductor.Runtime
open Collections Contract Component Harness Persistence PhenixConductor.Kernel

def handlePrefix : String := "pm:"

def handleHexLength : ℕ := 64

def hexDigit (c : Char) : Bool := c.isDigit || 'a' ≤ c && c ≤ 'f'

/-- `PreparedMutationHandle::parse`. The digits are ASCII, so characters are bytes. -/
def validateHandle (value : String) : Except String Unit :=
  if handlePrefix.toList <+: value.toList then
    let digest := value.toList.drop handlePrefix.length
    if digest.length ≠ handleHexLength || !digest.all hexDigit then
      .error "prepared mutation handle must contain 64 lowercase hexadecimal digits"
    else .ok ()
  else .error "prepared mutation handle has an invalid prefix"

structure PreparedMutationHandle where
  text : String
  valid : validateHandle text = .ok ()

namespace PreparedMutationHandle

theorem text_injective : Function.Injective text := by
  rintro ⟨a,ha⟩ ⟨b,hb⟩ h
  cases h
  rfl

instance : LinearOrder PreparedMutationHandle := LinearOrder.lift' text text_injective

def hexByte (byte : UInt8) : List Char :=
  [Nat.digitChar (byte.toNat / 16),Nat.digitChar (byte.toNat % 16)]

theorem hexDigit_digitChar {n : ℕ} (h : n < 16) : hexDigit (Nat.digitChar n) := by
  have hall : ∀ n : Fin 16, hexDigit (Nat.digitChar n) := by decide
  exact hall ⟨n,h⟩

theorem hexDigit_of_mem_hexByte {byte : UInt8} {c : Char} (h : c ∈ hexByte byte) : hexDigit c := by
  have hbyte := byte.toNat_lt
  rcases List.mem_pair.mp h with rfl | rfl
  · exact hexDigit_digitChar (by omega)
  · exact hexDigit_digitChar (by omega)

def ofRandom (random : Fin 32 → UInt8) : List Char :=
  (List.finRange 32).flatMap fun i => hexByte (random i)

theorem ofRandom_length (random : Fin 32 → UInt8) :
    (ofRandom random).length = handleHexLength := by
  simp [ofRandom, hexByte, List.length_flatMap, handleHexLength]

/-- `generate`, from the bytes that the random source has filled in. -/
def generate (random : Fin 32 → UInt8) : PreparedMutationHandle where
  text := handlePrefix ++ String.ofList (ofRandom random)
  valid := by
    have htext : (handlePrefix ++ String.ofList (ofRandom random)).toList =
        handlePrefix.toList ++ ofRandom random := by simp
    have hdigest : (handlePrefix.toList ++ ofRandom random).drop handlePrefix.length =
        ofRandom random := List.drop_left
    have hdigits : (ofRandom random).all hexDigit := by
      apply List.all_eq_true.mpr
      intro c hc
      obtain ⟨i,-,hc⟩ := List.mem_flatMap.mp hc
      exact hexDigit_of_mem_hexByte hc
    simp [validateHandle, htext, hdigest, ofRandom_length, hdigits]

end PreparedMutationHandle

/-- `preparation` is the number of the call that prepared the mutation. The source does not
keep it. -/
structure PreparedMutation where
  transaction : NamespaceTransaction
  authority : Authority
  coordinator : PluginId
  preparation : ℕ

abbrev ThreadId := ℕ

/-- The scope of one invocation, which its threads share. -/
structure PreparedMutationScope where
  generation : Option GraphGenerationId
  prepared : BTreeMap PreparedMutationHandle PreparedMutation
  coordinators : List (ThreadId × PluginId)

/-- What the random source does in one call: it fills in some bytes, and then fails. -/
structure RandomSource where
  draws : List (Fin 32 → UInt8)
  failure : String

namespace PreparedMutationScope
variable (self : PreparedMutationScope)

def new (generation : Option GraphGenerationId) : PreparedMutationScope :=
  ⟨generation,.empty,[]⟩

/-- The beginning of `with_coordinator`. -/
def pushCoordinator (thread : ThreadId) (coordinator : PluginId) : PreparedMutationScope :=
  { self with coordinators := self.coordinators ++ [(thread,coordinator)] }

/-- The guard of `with_coordinator` is dropped. It has pushed a frame, so there is one. -/
def dropCoordinator (thread : ThreadId) : PreparedMutationScope :=
  { self with coordinators := (self.coordinators.reverse.eraseP (·.1 = thread)).reverse }

def coordinator (thread : ThreadId) (owner : PluginId) : PluginId :=
  ((self.coordinators.reverse.find? (·.1 = thread)).map (·.2)).getD owner

/-- The loop of `prepare` for a handle that is not in use. -/
def freshHandle (failure : String) :
    List (Fin 32 → UInt8) → Except String PreparedMutationHandle
  | [] => .error ("cannot generate prepared mutation handle: " ++ failure)
  | random :: draws =>
    if .generate random ∈ self.prepared.keys then freshHandle failure draws
    else .ok (.generate random)

theorem freshHandle_eq_ok {failure : String} {draws : List (Fin 32 → UInt8)}
    {handle : PreparedMutationHandle} (h : self.freshHandle failure draws = .ok handle) :
    handle ∉ self.prepared.keys := by
  induction draws with
  | nil => cases h
  | cons random draws ih =>
    unfold freshHandle at h
    split at h
    · exact ih h
    · next hfresh =>
      cases h
      exact hfresh

/-- What `prepare` puts into the map. -/
def mutation (preparation : ℕ) (thread : ThreadId) (owner : PluginId) (namespc : ResourceNamespace)
    (operations : List TransactionOp) (authority : Authority) : PreparedMutation where
  transaction := ⟨owner,namespc,operations⟩
  authority := authority
  coordinator := self.coordinator thread owner
  preparation := preparation

def prepare (preparation : ℕ) (random : RandomSource) (thread : ThreadId) (owner : PluginId)
    (namespc : ResourceNamespace) (operations : List TransactionOp) (authority : Authority) :
    Except String (PreparedMutationHandle × PreparedMutationScope) := do
  let handle ← self.freshHandle random.failure random.draws
  let mutation := self.mutation preparation thread owner namespc operations authority
  return (handle,{ self with prepared := self.prepared.insert handle mutation })

end PreparedMutationScope

/-- The variables of the loop of `consume`. -/
structure Consumption where
  prepared : BTreeMap PreparedMutationHandle PreparedMutation
  participants : List PreparedMutation
  missing : Option PreparedMutationHandle

def Consumption.take (self : Consumption) (handle : PreparedMutationHandle) : Consumption :=
  let prepared := self.prepared.erase handle
  match self.prepared.get? handle with
  | some participant => ⟨prepared,self.participants ++ [participant],self.missing⟩
  | none => ⟨prepared,self.participants,some (self.missing.getD handle)⟩

theorem Consumption.foldl_take (self : Consumption) (handles : List PreparedMutationHandle) :
    (handles.foldl take self).prepared = handles.foldl BTreeMap.erase self.prepared ∧
      (handles.foldl take self).participants =
        self.participants ++ drain self.prepared handles := by
  induction handles generalizing self with
  | nil => exact ⟨rfl,(List.append_nil _).symm⟩
  | cons handle handles ih =>
    obtain ⟨hprepared,hparticipants⟩ := ih (self.take handle)
    have hstep : (self.take handle).prepared = self.prepared.erase handle := by
      unfold take
      split <;> rfl
    refine ⟨by rw [List.foldl_cons, hprepared, hstep, List.foldl_cons],?_⟩
    rw [List.foldl_cons, hparticipants, hstep, drain, ← List.append_assoc]
    unfold take
    split <;> simp [*]

namespace PreparedMutationScope
variable (self : PreparedMutationScope)

/-- Every handle is taken out of the map, also when one of them is missing. -/
def consume (handles : List PreparedMutationHandle) :
    Except PreparedMutationHandle (List PreparedMutation) × PreparedMutationScope :=
  let consumed := handles.foldl Consumption.take ⟨self.prepared,[],none⟩
  (match consumed.missing with
    | some handle => .error handle
    | none => .ok consumed.participants,
  { self with prepared := consumed.prepared })

theorem consume_snd (handles : List PreparedMutationHandle) : (self.consume handles).2 =
    { self with prepared := handles.foldl BTreeMap.erase self.prepared } := by
  dsimp only [consume]
  rw [(Consumption.foldl_take _ handles).1]

theorem consume_eq_ok {handles : List PreparedMutationHandle} {participants : List PreparedMutation}
    (h : (self.consume handles).1 = .ok participants) :
    participants = drain self.prepared handles := by
  dsimp only [consume] at h
  split at h
  · cases h
  · cases h
    exact (Consumption.foldl_take _ handles).2

def clear : PreparedMutationScope := { self with prepared := .empty }

end PreparedMutationScope

/-- The host of a provider within the scope of an invocation. A host without a token is not
cancelled. -/
structure ScopedHost (runtime : InvocationContext) extends PluginHost runtime where
  graphGeneration : Option GraphGenerationId
  cancelled : Bool

def persistenceWrite : CapabilityId := ⟨"kernel.persistence.write",by decide⟩

/-- What changes the scope, also when it fails. -/
abbrev ScopeM := EStateM KernelError PreparedMutationScope

def requireActivePlugin (runtime : InvocationContext) (plugin : PluginId) :
    Except KernelError Unit :=
  if runtime.states.get? plugin = some .active && plugin ∈ runtime.instances.keys then .ok ()
  else .error (.pluginNotActive plugin)

namespace ScopedHost
variable {runtime : InvocationContext} (self : ScopedHost runtime)

def requireCapability (capability : CapabilityId) : Except KernelError Unit :=
  if self.authority.permits capability then .ok ()
  else .error (.hostOperationDenied self.plugin capability.text)

def requirePersistenceOperation (capability : CapabilityId) (namespc : ResourceNamespace) :
    Except KernelError Unit := do
  self.requireCapability capability
  if runtime.config.resourceOwner namespc ≠ some self.plugin then
    throw (.hostOperationDenied self.plugin (capability.text ++ ":" ++ namespc.text))

def requireNotCancelled (operation : String) : ScopeM Unit := do
  if self.cancelled then
    modify (·.clear)
    throw (.hostOperationDenied self.plugin (operation ++ " after call cancellation"))

def requirePreparedScopeGeneration : ScopeM Unit := do
  if (← get).generation ≠ self.graphGeneration then
    modify (·.clear)
    throw (.hostOperationDenied self.plugin
      "prepared mutation scope belongs to another graph generation")

def prepareDurableTransaction (preparation : ℕ) (random : RandomSource) (thread : ThreadId)
    (namespc : ResourceNamespace) (operations : List TransactionOp) :
    ScopeM PreparedMutationHandle := do
  check (self.requirePersistenceOperation persistenceWrite namespc)
  check (requireActivePlugin runtime self.plugin)
  self.requireNotCancelled "prepare durable transaction"
  self.requirePreparedScopeGeneration
  match (← get).prepare preparation random thread self.plugin namespc operations self.authority with
  | .ok (handle,scope) => set scope; return handle
  | .error message => throw (.persistence self.plugin message)

/-- Whether a component of this plugin imports one of the owner, with the right to write. -/
def authorizedImport (owner : PluginId) : Bool :=
  (runtime.componentGraph.components.values.filter (·.owningPlugin = self.plugin)).flatMap
      (·.imports) |>.flatMap (fun imported => imported.binding.toList ++ imported.fallbacks)
    |>.any fun binding =>
      binding.owningPlugin = owner && binding.effectiveAuthority.permits persistenceWrite

/-- One turn of the loop of `transact_prepared` over the participants. -/
def requireParticipant (participant : PreparedMutation) : Except KernelError Unit := do
  let owner := participant.transaction.owner
  let namespc := participant.transaction.namespc
  let operation := persistenceWrite.text ++ ":" ++ owner.text ++ ":" ++ namespc.text
  if !participant.authority.permits persistenceWrite then
    throw (.hostOperationDenied self.plugin ("prepared mutation from " ++ owner.text ++
      " lacks attenuated persistence write authority"))
  if runtime.config.resourceOwner namespc ≠ some owner then
    throw (.hostOperationDenied self.plugin operation)
  if owner = self.plugin then return
  requireActivePlugin runtime owner
  if !self.authorizedImport owner then
    throw (.hostOperationDenied self.plugin (operation ++ " without authorized typed import"))

/-- `transact_prepared` up to the call of `transact_many`. -/
def participants (handles : List PreparedMutationHandle) : ScopeM (List PreparedMutation) := do
  check (self.requireCapability persistenceWrite)
  self.requireNotCancelled "commit prepared durable transactions"
  self.requirePreparedScopeGeneration
  if handles.isEmpty then
    throw (.hostOperationDenied self.plugin
      "commit prepared durable transactions without participants")
  let consumed := (← get).consume handles
  set consumed.2
  let participants ← check (consumed.1.mapError fun _ => .hostOperationDenied self.plugin
    "prepared mutation is unavailable in this invocation scope")
  if participants.any (·.coordinator ≠ self.plugin) then
    throw (.hostOperationDenied self.plugin
      "prepared mutation was issued to another coordinator")
  if !participants.any (·.transaction.owner = self.plugin) then
    throw (.hostOperationDenied self.plugin
      "prepared commit requires a caller-owned participant")
  check (participants.forM self.requireParticipant)
  return participants

/-- `backend` is what `transact_many` makes of the transactions. -/
def transactPrepared (backend : List NamespaceTransaction → Except String Unit)
    (handles : List PreparedMutationHandle) : ScopeM Unit := do
  let participants ← self.participants handles
  check ((backend (participants.map (·.transaction))).mapError (.persistence self.plugin ·))

/-! ### What the calls can do -/

/-- The ways in which a commit goes, up to the call of the backend. -/
inductive Attempt (handles : List PreparedMutationHandle) (scope : PreparedMutationScope) :
    EStateM.Result KernelError PreparedMutationScope (List PreparedMutation) → Prop
  | denied (error : KernelError) : self.authority.permits persistenceWrite = false →
      Attempt handles scope (.error error scope)
  | cleared (error : KernelError) : self.authority.permits persistenceWrite = true →
      Attempt handles scope (.error error scope.clear)
  | unnamed (error : KernelError) : self.authority.permits persistenceWrite = true →
      handles = [] → Attempt handles scope (.error error scope)
  | refused (error : KernelError) : self.authority.permits persistenceWrite = true →
      Attempt handles scope (.error error (scope.consume handles).2)
  | passed (participants : List PreparedMutation) :
      self.authority.permits persistenceWrite = true →
      (scope.consume handles).1 = .ok participants →
      (∀ participant ∈ participants, participant.coordinator = self.plugin) →
      (∃ participant ∈ participants, participant.transaction.owner = self.plugin) →
      (∀ participant ∈ participants, self.requireParticipant participant = .ok ()) →
      Attempt handles scope (.ok participants (scope.consume handles).2)

theorem requireNotCancelled_eq (operation : String) (scope : PreparedMutationScope) :
    self.requireNotCancelled operation scope = if self.cancelled then .error
      (.hostOperationDenied self.plugin (operation ++ " after call cancellation")) scope.clear
      else .ok () scope := by
  unfold requireNotCancelled
  split_ifs <;> rfl

theorem requirePreparedScopeGeneration_eq (scope : PreparedMutationScope) :
    self.requirePreparedScopeGeneration scope = if scope.generation ≠ self.graphGeneration then
      .error (.hostOperationDenied self.plugin
        "prepared mutation scope belongs to another graph generation") scope.clear
      else .ok () scope := by
  unfold requirePreparedScopeGeneration
  rw [stateful_bind_ok (stateful_get scope)]
  split_ifs <;> rfl

theorem attempt (handles : List PreparedMutationHandle) (scope : PreparedMutationScope) :
    self.Attempt handles scope (self.participants handles scope) := by
  unfold participants
  by_cases hpermits : self.authority.permits persistenceWrite = true
  swap
  · rw [requireCapability, if_neg hpermits]
    exact .denied _ (by simpa using hpermits)
  rw [requireCapability, if_pos hpermits, stateful_bind_ok (check_ok _ _), stateful_bind,
    requireNotCancelled_eq]
  by_cases hcancelled : self.cancelled = true
  · rw [if_pos hcancelled]
    exact .cleared _ hpermits
  rw [if_neg hcancelled]
  dsimp only
  rw [stateful_bind, requirePreparedScopeGeneration_eq]
  by_cases hgeneration : scope.generation ≠ self.graphGeneration
  · rw [if_pos hgeneration]
    exact .cleared _ hpermits
  rw [if_neg hgeneration]
  dsimp only
  by_cases hempty : handles.isEmpty = true
  · rw [if_pos hempty]
    exact .unnamed _ hpermits (List.isEmpty_iff.mp hempty)
  rw [if_neg hempty, stateful_bind_ok (stateful_get scope), stateful_bind_ok (stateful_set scope _)]
  cases hconsumed : (scope.consume handles).1 with
  | error handle => exact .refused _ hpermits
  | ok participants =>
    rw [Except.mapError, stateful_bind_ok (check_ok participants _)]
    by_cases hcoordinator : participants.any (·.coordinator ≠ self.plugin) = true
    · rw [if_pos hcoordinator]
      exact .refused _ hpermits
    rw [if_neg hcoordinator]
    by_cases howner : participants.any (·.transaction.owner = self.plugin) = true
    swap
    · rw [if_pos (by simpa using howner)]
      exact .refused _ hpermits
    rw [if_neg (by simpa using howner)]
    cases hrequired : participants.forM self.requireParticipant with
    | error error =>
      exact .refused _ hpermits
    | ok =>
      exact .passed participants hpermits hconsumed (by simpa using hcoordinator)
        (by simpa using howner) (forM_eq_ok.mp hrequired)

/-- The ways in which a preparation goes. -/
inductive Prepares (preparation : ℕ) (thread : ThreadId) (namespc : ResourceNamespace)
    (operations : List TransactionOp) (scope : PreparedMutationScope) :
    EStateM.Result KernelError PreparedMutationScope PreparedMutationHandle → Prop
  | denied (error : KernelError) :
      Prepares preparation thread namespc operations scope (.error error scope)
  | cleared (error : KernelError) :
      Prepares preparation thread namespc operations scope (.error error scope.clear)
  | prepared (handle : PreparedMutationHandle) :
      self.authority.permits persistenceWrite = true →
      runtime.config.resourceOwner namespc = some self.plugin →
      handle ∉ scope.prepared.keys →
      Prepares preparation thread namespc operations scope (.ok handle { scope with
        prepared := scope.prepared.insert handle <|
          scope.mutation preparation thread self.plugin namespc operations self.authority })

theorem requirePersistenceOperation_eq_ok {capability : CapabilityId} {namespc : ResourceNamespace}
    (h : self.requirePersistenceOperation capability namespc = .ok ()) :
    self.authority.permits capability = true ∧
      runtime.config.resourceOwner namespc = some self.plugin := by
  obtain ⟨hcapability,h⟩ := seq_eq_ok.mp h
  unfold requireCapability at hcapability
  split_ifs at hcapability h with hpermits howner
  exact ⟨hpermits,not_not.mp howner⟩

theorem prepares (preparation : ℕ) (random : RandomSource) (thread : ThreadId)
    (namespc : ResourceNamespace) (operations : List TransactionOp)
    (scope : PreparedMutationScope) :
    self.Prepares preparation thread namespc operations scope
      (self.prepareDurableTransaction preparation random thread namespc operations scope) := by
  unfold prepareDurableTransaction
  cases hpermitted : self.requirePersistenceOperation persistenceWrite namespc with
  | error error => exact .denied error
  | ok =>
  obtain ⟨hpermits,howner⟩ := self.requirePersistenceOperation_eq_ok hpermitted
  rw [stateful_bind_ok (check_ok _ _)]
  cases requireActivePlugin runtime self.plugin with
  | error error => exact .denied error
  | ok =>
  rw [stateful_bind_ok (check_ok _ _), stateful_bind, requireNotCancelled_eq]
  by_cases hcancelled : self.cancelled = true
  · rw [if_pos hcancelled]
    exact .cleared _
  rw [if_neg hcancelled]
  dsimp only
  rw [stateful_bind, requirePreparedScopeGeneration_eq]
  by_cases hgeneration : scope.generation ≠ self.graphGeneration
  · rw [if_pos hgeneration]
    exact .cleared _
  rw [if_neg hgeneration]
  dsimp only
  rw [stateful_bind_ok (stateful_get scope), PreparedMutationScope.prepare]
  cases hfresh : scope.freshHandle random.failure random.draws with
  | error message => exact .denied _
  | ok handle => exact .prepared handle hpermits howner (scope.freshHandle_eq_ok hfresh)

end ScopedHost
end PhenixConductor.Runtime
