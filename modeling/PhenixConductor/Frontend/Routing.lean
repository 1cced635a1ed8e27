import PhenixConductor.Collections.Digraph
import PhenixConductor.Execution.Task

/-! # The frontend routing service

Frontend connections advertise providers, root executions are bound to a connection, and a call
waits under its correlation id for the answer of the connection that it was sent to.
-/
namespace PhenixConductor.Frontend
open Collections Execution

/-! ## Data -/

structure FrontendProviderDescriptor where
  id : String
  capabilities : BTreeSet String
deriving DecidableEq

structure LiveFrontendProvider where
  connectionId : String
  descriptor : FrontendProviderDescriptor
deriving DecidableEq

structure FrontendServiceRequest (V : Type) where
  correlationId : ℕ
  connectionId : String
  provider : String
  method : String
  params : V
deriving DecidableEq

structure FrontendServiceResult (V : Type) where
  correlationId : ℕ
  result : V
deriving DecidableEq

inductive FrontendCommand (V : Type)
  | setProviders (connectionId : String) (providers : List FrontendProviderDescriptor)
  | disconnect (connectionId : String)
  | catalog
  | bindRoot (executionId connectionId : String)
  | releaseRoot (executionId : String)
  | beginExecutionCall (executionId provider method : String) (params : V)
  | beginDirectCall (connectionId provider method : String) (params : V)
  | completeCall (connectionId : String) (correlationId : ℕ) (result : V)
deriving DecidableEq

inductive FrontendResponse (V : Type)
  | providers (providers : List LiveFrontendProvider)
  | request (request : FrontendServiceRequest V)
  | result (result : FrontendServiceResult V)
  | updated
deriving DecidableEq

structure PendingCall where
  connectionId : String
deriving DecidableEq

structure FrontendState where
  providers : BTreeMap String (BTreeMap String FrontendProviderDescriptor)
  rootRoutes : BTreeMap String String
  pending : BTreeMap ℕ PendingCall
  nextCorrelationId : ℕ
deriving DecidableEq

/-- The state of a started plugin. -/
def FrontendState.start : FrontendState := ⟨.empty,.empty,.empty,1⟩

/-- What the execution service answers to the lookups of one command; it knows no other execution. -/
abbrev Answers := BTreeMap String (Except String (Option ExecutionRecord))

variable {V : Type} {answers : Answers} {id execution root : String}

/-! ## Lookups -/

def executionLookup (answers : Answers) (executionId : String) :
    Except String (Option ExecutionRecord) :=
  (answers.get? executionId).getD (.ok none)

/-- The loop of `execution_root`. -/
def walk (answers : Answers) : ℕ → List String → String → Except String String
  | 0, _, _ => .error "execution parent cycle while resolving frontend route"
  | n + 1, visited, current =>
    if current ∈ visited then .error "execution parent cycle while resolving frontend route"
    else match executionLookup answers current with
      | .error error => .error error
      | .ok none => .error s!"unknown execution: {current}"
      | .ok (some execution) =>
        match execution.parentExecution with
        | some parent => walk answers n (current :: visited) parent
        | none => .ok current

/-- A walk that meets more executions than the service knows meets one of them twice. -/
def executionRoot (answers : Answers) (executionId : String) : Except String String :=
  walk answers (answers.keys.length + 1) [] executionId

/-! ## Commands -/

def validateId (label value : String) : Except String Unit :=
  if Configuration.isBlank value then .error (label ++ " must not be empty") else .ok ()

def validateProvider (provider : FrontendProviderDescriptor) : Except String Unit := do
  validateId "frontend provider id" provider.id
  if provider.capabilities.keys.any Configuration.isBlank then
    .error "frontend provider capabilities must not be empty strings"
  else .ok ()

/-- The providers of an advertisement under their ids. -/
def indexProviders (providers : List FrontendProviderDescriptor) :
    Except String (BTreeMap String FrontendProviderDescriptor) :=
  providers.foldlM (fun indexed provider => do
    validateProvider provider
    if (indexed.get? provider.id).isSome then
      .error "duplicate frontend provider id in advertisement"
    else .ok (indexed.insert provider.id provider)) .empty

def catalog (s : FrontendState) : List LiveFrontendProvider :=
  s.providers.toList.flatMap fun (connectionId,providers) => providers.values.map (⟨connectionId,·⟩)

/-- `BTreeMap::retain` -/
def retain {K W : Type} [LinearOrder K] (m : BTreeMap K W) (keep : W → Bool) : BTreeMap K W :=
  m.filter fun k => (m.get? k).any keep

/-- `begin_call`: the numbers of calls are `u64`. -/
def beginCall (connectionId provider method : String) (params : V) :
    EStateM String FrontendState (FrontendResponse V) := do
  check (validateId "frontend connection id" connectionId)
  check (validateId "frontend provider id" provider)
  check (validateId "frontend method" method)
  let s ← get
  unless (s.providers.get? connectionId).any fun providers => (providers.get? provider).isSome do
    throw s!"frontend connection {connectionId} does not advertise provider {provider}"
  let correlationId := s.nextCorrelationId
  if correlationId + 1 < 2 ^ 64 then
    set { s with
      nextCorrelationId := correlationId + 1
      pending := s.pending.insert correlationId ⟨connectionId⟩ }
    pure (.request ⟨correlationId,connectionId,provider,method,params⟩)
  else throw "frontend correlation id exhausted"

def setProviders (connectionId : String) (providers : List FrontendProviderDescriptor) :
    EStateM String FrontendState (FrontendResponse V) := do
  check (validateId "frontend connection id" connectionId)
  let indexed ← check (indexProviders providers)
  modify fun s => { s with providers := s.providers.insert connectionId indexed }
  pure .updated

def disconnect (connectionId : String) : EStateM String FrontendState (FrontendResponse V) := do
  modify fun s => { s with
    providers := s.providers.erase connectionId
    rootRoutes := retain s.rootRoutes fun owner => owner ≠ connectionId
    pending := retain s.pending fun call => call.connectionId ≠ connectionId }
  pure .updated

/-- The checks of `BindRoot` before it writes the route. -/
def bindable (answers : Answers) (executionId connectionId : String) (s : FrontendState) :
    Except String Unit := do
  validateId "execution id" executionId
  unless (s.providers.get? connectionId).isSome do
    throw s!"unknown frontend connection: {connectionId}"
  match ← executionLookup answers executionId with
  | none => throw s!"unknown execution: {executionId}"
  | some execution =>
    if execution.parentExecution.isSome then
      throw "only root executions may be bound to a frontend connection"
    if execution.state ≠ .active then throw "only active root executions may be bound"

def bindRoot (answers : Answers) (executionId connectionId : String) :
    EStateM String FrontendState (FrontendResponse V) := do
  let s ← get
  check (bindable answers executionId connectionId s)
  set { s with rootRoutes := s.rootRoutes.insert executionId connectionId }
  -- the route is written already when the bound one is noticed
  if (s.rootRoutes.get? executionId).isSome then
    throw s!"root execution already has a frontend route: {executionId}"
  pure .updated

def beginExecutionCall (answers : Answers) (executionId provider method : String) (params : V) :
    EStateM String FrontendState (FrontendResponse V) := do
  let root ← check (executionRoot answers executionId)
  let s ← get
  match s.rootRoutes.get? root with
  | none => throw s!"execution has no live frontend root route: {executionId}"
  | some connectionId => beginCall connectionId provider method params

def completeCall (connectionId : String) (correlationId : ℕ) (result : V) :
    EStateM String FrontendState (FrontendResponse V) := do
  let s ← get
  match s.pending.get? correlationId with
  | none => throw s!"unknown frontend correlation id: {correlationId}"
  | some pending =>
    set { s with pending := s.pending.erase correlationId }
    if pending.connectionId ≠ connectionId then
      modify fun s => { s with pending := s.pending.insert correlationId pending }
      throw "frontend response came from the wrong connection"
    pure (.result ⟨correlationId,result⟩)

def handle (answers : Answers) :
    FrontendCommand V → EStateM String FrontendState (FrontendResponse V)
  | .setProviders connectionId providers => setProviders connectionId providers
  | .disconnect connectionId => disconnect connectionId
  | .catalog => do return .providers (catalog (← get))
  | .bindRoot executionId connectionId => bindRoot answers executionId connectionId
  | .releaseRoot executionId => do
    modify fun s => { s with rootRoutes := s.rootRoutes.erase executionId }
    pure .updated
  | .beginExecutionCall executionId provider method params =>
    beginExecutionCall answers executionId provider method params
  | .beginDirectCall connectionId provider method params =>
    beginCall connectionId provider method params
  | .completeCall connectionId correlationId result =>
    completeCall connectionId correlationId result

/-- A command with what the execution service answers during it. -/
structure FrontendTurn (V : Type) where
  answers : Answers
  command : FrontendCommand V

def outcome (s : FrontendState) (turn : FrontendTurn V) :
    EStateM.Result String FrontendState (FrontendResponse V) :=
  handle turn.answers turn.command s

/-- The state that an outcome leaves. -/
def left : EStateM.Result String FrontendState (FrontendResponse V) → FrontendState
  | .ok _ t => t
  | .error _ t => t

def next (s : FrontendState) (turn : FrontendTurn V) : FrontendState := left (outcome s turn)

/-- The state that a started plugin is in after some commands. -/
def afterTurns (turns : List (FrontendTurn V)) : FrontendState := runAll next .start turns

end PhenixConductor.Frontend
