import PhenixConductor.Runtime.Kernel
import PhenixConductor.Collections.CallForest
import PhenixConductor.Collections.Runs

/-! # Service dispatch

A call of the kernel goes through the chain of a service: its layers, and then its terminal.
-/
namespace PhenixConductor.Runtime
open Collections Contract Component PhenixConductor.Kernel

/-- What no dispatch changes. -/
structure InvocationContext where
  componentGraph : ResolvedComponentGraph
  config : KernelConfig
  states : BTreeMap PluginId PluginState
  instances : BTreeMap PluginId InstanceId

def Kernel.invocationContext {H : Type} (self : Kernel H) : InvocationContext where
  componentGraph := self.componentGraph
  config := self.config
  states := self.states
  instances := self.instances

/-- A chain as `prepare_active_chain` leaves it. Its providers have manifests. -/
structure ActiveChain (runtime : InvocationContext) extends ResolvedServiceChain where
  registered : runtime.config.Registered toResolvedServiceChain

structure ComponentServiceEndpoint where
  component : ComponentId
  service : ServiceId
  deriving DecidableEq

structure ServiceDispatchGuards where
  callStack : Finset PluginId
  activeServices : Finset ServiceId
  activeComponentEndpoints : Finset ComponentServiceEndpoint
  terminalComponent : Option ComponentId

structure ContinuationState (runtime : InvocationContext) where
  chain : ActiveChain runtime
  terminalComponent : Option ComponentId
  nextPosition : ℕ

structure PluginHost (runtime : InvocationContext) where
  plugin : PluginId
  authority : Authority
  callStack : Finset PluginId
  continuation : Option (ContinuationState runtime)
  activeServices : Finset ServiceId
  activeComponentEndpoints : Finset ComponentServiceEndpoint

/-- The number of a frame. -/
abbrev FrameId := ℕ

/-- What a provider was entered with: through `invoke` or `invoke_component` of the kernel, or
through one of the three calls of a host. -/
inductive CallEntry where
  | root
  | imported (handle : ResolvedImportHandle)
  | service (requestedAuthority : Authority)
  | continued (requestedAuthority : Authority)

def CallEntry.requestedAuthority : CallEntry → Option Authority
  | .service requestedAuthority | .continued requestedAuthority => some requestedAuthority
  | .root | .imported _ => none

/-- Where a call comes from. -/
structure CallOrigin where
  caller : Option FrameId
  entry : CallEntry
  input : List UInt8

/-- A provider that was entered. A shared invocation does not lock the instance. -/
structure Frame (runtime : InvocationContext) where
  origin : CallOrigin
  chain : ActiveChain runtime
  position : ℕ
  terminalComponent : Option ComponentId
  host : PluginHost runtime
  shared : Bool

/-- The provider at a position is a layer, or else the terminal. -/
def ActiveChain.isLayer {runtime : InvocationContext} (self : ActiveChain runtime)
    (position : ℕ) : Bool :=
  position < self.layers.length

def ActiveChain.provider {runtime : InvocationContext} (self : ActiveChain runtime)
    (position : ℕ) : ProviderBinding :=
  (self.layers[position]?).getD self.terminal

theorem ActiveChain.provider_mem {runtime : InvocationContext} (self : ActiveChain runtime)
    (position : ℕ) : self.provider position ∈ self.providers := by
  unfold ActiveChain.provider
  cases h : self.layers[position]? with
  | none => exact List.mem_append_right _ List.mem_cons_self
  | some layer => exact List.mem_append_left _ (List.mem_of_getElem? h)

def ActiveChain.manifest {runtime : InvocationContext} (self : ActiveChain runtime)
    (position : ℕ) : PluginManifest :=
  runtime.config.manifests.val (self.provider position).plugin
    (self.registered _ (self.provider_mem position))

section Dispatching
variable (runtime : InvocationContext)

/-- One turn of the loop of `prepare_active_chain`. -/
def keepActiveLayer (service : ServiceId) (layers : List ProviderBinding)
    (layer : ProviderBinding) : Except KernelError (List ProviderBinding) :=
  if runtime.states.get? layer.plugin = some .active then .ok (layers ++ [layer])
  else if ((runtime.config.layerPolicy service).find? (·.plugin = layer.plugin)).any
      (·.required) then .error (.requiredLayerUnavailable service layer.plugin)
  else .ok layers

variable {configured layers : List ProviderBinding}

theorem keepActiveLayer_subset {service : ServiceId}
    (h : configured.foldlM (keepActiveLayer runtime service) [] = .ok layers) :
    layers ⊆ configured := by
  refine foldlM_invariant (I := (· ⊆ configured)) ?_ (List.nil_subset configured) h
  intro layer hlayer kept next hkept hnext
  unfold keepActiveLayer at hnext
  split at hnext
  · cases hnext
    exact List.append_subset.mpr ⟨hkept,by simpa using hlayer⟩
  · split at hnext
    · cases hnext
    · cases hnext
      exact hkept

theorem keepActiveLayer_length {service : ServiceId}
    (h : configured.foldlM (keepActiveLayer runtime service) [] = .ok layers) :
    layers.length ≤ configured.length := by
  simpa using foldlM_length_le (s := []) (fun kept layer next hnext => by
    unfold keepActiveLayer at hnext
    split_ifs at hnext <;> cases hnext <;> simp) h

theorem registered_of_subset {config : KernelConfig} {chain : ResolvedServiceChain}
    (registered : config.Registered chain) (h : layers ⊆ chain.layers) :
    config.Registered { chain with layers := layers } := by
  intro provider hprovider
  apply registered
  rcases List.mem_append.mp hprovider with hlayer | hterminal
  · exact List.mem_append_left _ (h hlayer)
  · exact List.mem_append_right _ hterminal

def prepareActiveChain (chain : ResolvedServiceChain) (registered : runtime.config.Registered chain) :
    Except KernelError (ActiveChain runtime) :=
  match hlayers : chain.layers.foldlM (keepActiveLayer runtime chain.service) [] with
  | .error error => .error error
  | .ok layers =>
    if runtime.states.get? chain.terminal.plugin ≠ some .active then
      .error (.pluginNotActive chain.terminal.plugin)
    else .ok
      { chain with
        layers := layers
        registered := registered_of_subset registered (keepActiveLayer_subset runtime hlayers) }

theorem prepareActiveChain_eq_ok {chain : ResolvedServiceChain}
    (registered : runtime.config.Registered chain) {active : ActiveChain runtime}
    (h : prepareActiveChain runtime chain registered = .ok active) :
    active.service = chain.service ∧ active.layers.length ≤ chain.layers.length := by
  unfold prepareActiveChain at h
  split at h
  · cases h
  · next layers hlayers =>
    split at h
    · cases h
    · cases h
      exact ⟨rfl,keepActiveLayer_length runtime hlayers⟩

/-- A chain is resolved and then prepared. -/
def activeChain (resolved : Except KernelError ResolvedServiceChain)
    (registered : ∀ chain, resolved = .ok chain → runtime.config.Registered chain) :
    Except KernelError (ActiveChain runtime) :=
  match resolved,registered with
  | .error error,_ => .error error
  | .ok chain,registered => prepareActiveChain runtime chain (registered chain rfl)

theorem activeChain_eq_ok {resolved : Except KernelError ResolvedServiceChain}
    {registered : ∀ chain, resolved = .ok chain → runtime.config.Registered chain}
    {active : ActiveChain runtime} (h : activeChain runtime resolved registered = .ok active) :
    ∃ chain, resolved = .ok chain ∧ active.service = chain.service ∧
      active.layers.length ≤ chain.layers.length := by
  cases resolved with
  | error error => cases h
  | ok chain => exact ⟨chain,rfl,prepareActiveChain_eq_ok runtime (registered chain rfl) h⟩

/-- The provider at a position is entered with what its manifest leaves of an authority. -/
def enterProvider (origin : CallOrigin) (chain : ActiveChain runtime) (position : ℕ)
    (callerAuthority : Authority) (guards : ServiceDispatchGuards) (shared : Bool) :
    Frame runtime where
  origin := origin
  chain := chain
  position := position
  terminalComponent := guards.terminalComponent
  host :=
    { plugin := (chain.provider position).plugin
      authority := callerAuthority.attenuate (chain.manifest position).maximumAuthority
      callStack := insert (chain.provider position).plugin guards.callStack
      continuation :=
        if chain.isLayer position then some ⟨chain,guards.terminalComponent,position + 1⟩ else none
      activeServices := guards.activeServices
      activeComponentEndpoints := guards.activeComponentEndpoints }
  shared := shared

/- `locked` tells which instances are locked, and `offersShared` whether the instance has a shared
invocation. A plugin that is not on the call stack waits for its lock. -/
variable (locked : PluginId → Bool) (offersShared : Bool) (origin : CallOrigin)

def invokeResolvedChainWith (chain : ActiveChain runtime) (position : ℕ)
    (callerAuthority : Authority) (guards : ServiceDispatchGuards) :
    Except KernelError (Frame runtime) :=
  let plugin := (chain.provider position).plugin
  if runtime.states.get? plugin ≠ some .active then .error (.pluginNotActive plugin)
  else if plugin ∉ runtime.instances.keys then .error (.wrongExecutionKind plugin)
  else
    let reentered := decide (plugin ∈ guards.callStack)
    let shared := offersShared && !(reentered && locked plugin)
    if reentered && !shared then
      .error (.hostOperationDenied plugin ("causal plugin re-entry:" ++ chain.service.text))
    else .ok (enterProvider runtime origin chain position callerAuthority guards shared)

def invokeServiceWith (service : ServiceId) (callerAuthority : Authority)
    (binding : Option PluginId) (guards : ServiceDispatchGuards) :
    Except KernelError (Frame runtime) :=
  if service ∈ guards.activeServices then .error (.causalServiceReentry service)
  else do
    let chain ← activeChain runtime (runtime.config.resolveChain service callerAuthority binding)
      fun _ => KernelConfig.resolveChain_registered
    invokeResolvedChainWith runtime locked offersShared origin chain 0 callerAuthority
      { guards with
        activeServices := insert service guards.activeServices
        terminalComponent := none }

def invokeComponentServiceWith (service : ServiceId) (component : ComponentId)
    (binding : PluginId) (callerAuthority : Authority) (guards : ServiceDispatchGuards) :
    Except KernelError (Frame runtime) :=
  if ⟨component,service⟩ ∈ guards.activeComponentEndpoints then
    .error (.causalServiceReentry service)
  else match runtime.componentGraph.component component with
    | none => .error (.componentGraph (.unknownComponent component))
    | some resolved =>
      if resolved.owningPlugin ≠ binding then
        .error (.hostOperationDenied binding ("resolved component " ++ component.text ++
          " belongs to " ++ resolved.owningPlugin.text ++ ", not " ++ binding.text))
      else do
        let chain ← activeChain runtime
          (runtime.config.resolveComponentChain service callerAuthority binding)
          fun _ => KernelConfig.resolveComponentChain_registered
        invokeResolvedChainWith runtime locked offersShared origin chain 0 callerAuthority
          { callStack := guards.callStack
            activeServices := insert service guards.activeServices
            activeComponentEndpoints :=
              insert ⟨component,service⟩ guards.activeComponentEndpoints
            terminalComponent := some component }

end Dispatching

inductive ComponentInvocationError where
  | unboundImport (component : ComponentId) (interface : InterfaceId)
  | graph (error : ComponentGraphError)
  | encode (message : String)
  | kernel (error : KernelError)

/-- `ServiceId::parse` of an interface, which passes the checks of an identifier. -/
def importService (interface : InterfaceId) : ServiceId :=
  ⟨interface.text,(seq_eq_ok.mp interface.valid).1⟩

namespace PluginHost
variable {runtime : InvocationContext} (self : PluginHost runtime) (id : FrameId)
  (locked : PluginId → Bool) (offersShared : Bool)

def guards (terminalComponent : Option ComponentId) : ServiceDispatchGuards where
  callStack := self.callStack
  activeServices := self.activeServices
  activeComponentEndpoints := self.activeComponentEndpoints
  terminalComponent := terminalComponent

def providerAvailable (runtime : InvocationContext) (handle : ResolvedImportHandle) : Bool :=
  runtime.states.get? handle.owningPlugin = some .active &&
    handle.owningPlugin ∈ runtime.instances.keys

/-- The handle that an import of a component goes through. -/
def importHandle (component : ComponentId) (interface : InterfaceId) :
    Except ComponentInvocationError ResolvedImportHandle :=
  match runtime.componentGraph.component component with
  | none => .error (.graph (.unknownComponent component))
  | some resolved =>
    if resolved.owningPlugin ≠ self.plugin then
      .error (.kernel (.hostOperationDenied self.plugin
        ("component import owned by " ++ resolved.owningPlugin.text)))
    else match runtime.componentGraph.providerPlan component interface with
      | .error error => .error (.graph error)
      | .ok none => .error (.unboundImport component interface)
      | .ok (some (primary,fallbacks)) =>
        match (primary :: fallbacks).find? (providerAvailable runtime) with
        | some handle => .ok handle
        | none => .error (.kernel (.pluginNotActive primary.owningPlugin))

/-- `request` is what the encoder makes of the request. -/
def invokeImport (component : ComponentId) (interface : InterfaceId)
    (request : Except String (List UInt8)) : Except ComponentInvocationError (Frame runtime) := do
  let handle ← self.importHandle component interface
  let input ← request.mapError .encode
  let delegatedAuthority := self.authority.attenuate handle.effectiveAuthority
  (invokeComponentServiceWith runtime locked offersShared ⟨some id,.imported handle,input⟩
    (importService interface) handle.exporter handle.owningPlugin delegatedAuthority
    (self.guards (some handle.exporter))).mapError .kernel

def invokeServiceAbi (service : ServiceId) (input : List UInt8) (requestedAuthority : Authority)
    (binding : Option PluginId) : Except KernelError (Frame runtime) :=
  let delegatedAuthority := self.authority.attenuate requestedAuthority
  invokeServiceWith runtime locked offersShared ⟨some id,.service requestedAuthority,input⟩ service
    delegatedAuthority binding (self.guards none)

/-- `used` is what the swap finds in the flag of the continuation. -/
def continueService (used : Bool) (input : List UInt8) (requestedAuthority : Authority) :
    Except KernelError (Frame runtime) :=
  match self.continuation with
  | none => .error .continuationUnavailable
  | some continuation =>
    if used then .error (.continuationAlreadyUsed continuation.chain.service)
    else
      let delegatedAuthority := self.authority.attenuate requestedAuthority
      invokeResolvedChainWith runtime locked offersShared
        ⟨some id,.continued requestedAuthority,input⟩ continuation.chain continuation.nextPosition
        delegatedAuthority (self.guards continuation.terminalComponent)

end PluginHost

/-! ### Runs -/

inductive HostRequest where
  | invokeImport (component : ComponentId) (interface : InterfaceId)
      (request : Except String (List UInt8))
  | invokeServiceAbi (service : ServiceId) (input : List UInt8) (requestedAuthority : Authority)
      (binding : Option PluginId)
  | continueService (input : List UInt8) (requestedAuthority : Authority)

inductive LayerResult where
  | handled (output : List UInt8)
  | denied (message : String)

/-- What `invoke_layer` returns, or `invoke` and `invoke_component`. -/
inductive PluginAnswer where
  | layer (unwound : Unwound LayerResult)
  | terminal (unwound : Unwound (List UInt8))

/-- How the result of a provider reaches the caller. -/
def serviceResult (plugin : PluginId) (service : ServiceId) (unwound : Unwound LayerResult)
    (cancelled : Bool) : Except KernelError (List UInt8) :=
  match unwound with
  | .panicked => .error (.serviceInvoke plugin service "plugin invocation panicked")
  | .returned result =>
    if cancelled then .error (.serviceCancelled plugin service)
    else match result with
      | .ok (.handled output) => .ok output
      | .ok (.denied message) => .error (.serviceDenied plugin service message)
      | .error message => .error (.serviceInvoke plugin service message)

/-- A terminal can not deny. -/
def terminalResult : Unwound (List UInt8) → Unwound LayerResult
  | .panicked => .panicked
  | .returned result => .returned (result.map .handled)

/-- One call of the kernel. A frame without a result is running. -/
structure Dispatch (runtime : InvocationContext) where
  frames : List (Frame runtime)
  used : Finset FrameId
  results : List (FrameId × Except KernelError (List UInt8))

/-- A provider calls its host, or ends. -/
inductive DispatchAction where
  | request (caller : FrameId) (request : HostRequest) (offersShared : Bool)
  | finish (frame : FrameId) (answer : PluginAnswer) (cancelled : Bool)

namespace Dispatch
variable {runtime : InvocationContext} (self : Dispatch runtime)

def running (id : FrameId) : Bool := self.results.all (·.1 ≠ id)

/-- An instance is locked while a call that is not shared runs in it. -/
def locked (plugin : PluginId) : Bool :=
  self.frames.zipIdx.any fun (frame,id) =>
    self.running id && frame.host.plugin = plugin && !frame.shared

def enter (frame : Frame runtime) : Dispatch runtime := { self with frames := self.frames ++ [frame] }

/-- The swap of the flag of a continuation. -/
def swapUsed (id : FrameId) (host : PluginHost runtime) : Dispatch runtime :=
  if host.continuation.isSome then { self with used := insert id self.used } else self

/-- The frame that a request enters, and what it changes whether it succeeds or not. -/
def request (id : FrameId) (host : PluginHost runtime) (offersShared : Bool) :
    HostRequest → Except ComponentInvocationError (Frame runtime) × Dispatch runtime
  | .invokeImport component interface request =>
    (host.invokeImport id self.locked offersShared component interface request,self)
  | .invokeServiceAbi service input requestedAuthority binding =>
    ((host.invokeServiceAbi id self.locked offersShared service input requestedAuthority
      binding).mapError .kernel,self)
  | .continueService input requestedAuthority =>
    ((host.continueService id self.locked offersShared (id ∈ self.used) input
      requestedAuthority).mapError .kernel,self.swapUsed id host)

/-- A host does not outlive the call it is for: the calls made through it end before. -/
def finish (id : FrameId) (frame : Frame runtime) (answer : PluginAnswer) (cancelled : Bool) :
    Dispatch runtime :=
  if self.frames.zipIdx.any fun (callee,calleeId) =>
      self.running calleeId && callee.origin.caller = some id then self
  else
    let result := serviceResult frame.host.plugin frame.chain.service
    match answer,frame.chain.isLayer frame.position with
    | .layer unwound,true =>
      { self with results := self.results ++ [(id,result unwound cancelled)] }
    | .terminal unwound,false =>
      { self with results := self.results ++ [(id,result (terminalResult unwound) cancelled)] }
    | .layer _,false | .terminal _,true => self

/-- What is not possible changes nothing. -/
def step (self : Dispatch runtime) : DispatchAction → Dispatch runtime
  | .request caller request offersShared =>
    match (self.frames[caller]?).filter fun _ => self.running caller with
    | none => self
    | some frame =>
      match self.request caller frame.host offersShared request with
      | (.ok callee,self) => self.enter callee
      | (.error _,self) => self
  | .finish id answer cancelled =>
    match (self.frames[id]?).filter fun _ => self.running id with
    | none => self
    | some frame => self.finish id frame answer cancelled

end Dispatch

/-- The calls of `Kernel::invoke` and `Kernel::invoke_component`. -/
inductive KernelCall where
  | invoke (service : ServiceId) (input : List UInt8) (callerAuthority : Authority)
      (binding : Option PluginId)
  | invokeComponent (component : ComponentId) (service : ServiceId) (input : List UInt8)
      (callerAuthority : Authority) (binding : PluginId)

namespace KernelCall
variable (runtime : InvocationContext) (offersShared : Bool)

def callerAuthority : KernelCall → Authority
  | .invoke _ _ callerAuthority _ | .invokeComponent _ _ _ callerAuthority _ => callerAuthority

/-- Nothing is locked when the kernel is called. -/
def provider : KernelCall → Except KernelError (Frame runtime)
  | .invoke service input callerAuthority binding =>
    invokeServiceWith runtime (fun _ => false) offersShared ⟨none,.root,input⟩ service
      callerAuthority binding ⟨∅,∅,∅,none⟩
  | .invokeComponent component service input callerAuthority binding =>
    invokeComponentServiceWith runtime (fun _ => false) offersShared ⟨none,.root,input⟩ service
      component binding callerAuthority ⟨∅,∅,∅,some component⟩

def begin (call : KernelCall) : Dispatch runtime :=
  match call.provider runtime offersShared with
  | .ok frame => ⟨[frame],∅,[]⟩
  | .error _ => ⟨[],∅,[]⟩

/-- The frames after a run: what the providers do, in any order. -/
def run (call : KernelCall) (actions : List DispatchAction) : Dispatch runtime :=
  runAll Dispatch.step (call.begin runtime offersShared) actions

end KernelCall
end PhenixConductor.Runtime
