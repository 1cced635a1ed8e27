import PhenixConductor.Runtime.Dispatch
import PhenixConductor.Runtime.Reconciliation

/-! # Authority along the paths of a dispatch

The authority of a host is what its caller handed down, attenuated by the manifest of its
plugin, and a host hands down no more than it has.
-/
namespace PhenixConductor.Runtime
open Collections Contract Component PhenixConductor.Kernel
variable {runtime : InvocationContext} {locked : PluginId → Bool} {offersShared : Bool}
  {origin : CallOrigin} {granted : Authority} {guards : ServiceDispatchGuards}
  {frame : Frame runtime}

namespace Frame

/-- A provider runs with no more than the limits of a call: the maximum of the plugin that was
called, the authority that the caller asked for, and that of the handle of an import. -/
structure Within (frame call : Frame runtime) : Prop where
  maximum : ∀ manifest, runtime.config.manifest call.host.plugin = some manifest →
    frame.host.authority ≤ manifest.maximumAuthority
  requested : ∀ requestedAuthority, call.origin.entry.requestedAuthority = some requestedAuthority →
    frame.host.authority ≤ requestedAuthority
  imported : ∀ handle, call.origin.entry = .imported handle →
    frame.host.authority ≤ handle.effectiveAuthority

theorem Within.mono {call below : Frame runtime} (h : frame.Within call)
    (hle : below.host.authority ≤ frame.host.authority) : below.Within call where
  maximum manifest hmanifest := hle.trans (h.maximum manifest hmanifest)
  requested _ hrequested := hle.trans (h.requested _ hrequested)
  imported handle hhandle := hle.trans (h.imported handle hhandle)

/-- What the entry points of the dispatch make of an authority. -/
structure EnteredWith (origin : CallOrigin) (granted : Authority) (frame : Frame runtime) :
    Prop where
  origin : frame.origin = origin
  authority : frame.host.authority ≤ granted
  maximum : ∀ manifest, runtime.config.manifest frame.host.plugin = some manifest →
    frame.host.authority ≤ manifest.maximumAuthority

/-- A provider keeps to its own call when what it was granted does. -/
theorem EnteredWith.within (h : frame.EnteredWith origin granted)
    (hrequested : ∀ requestedAuthority,
      origin.entry.requestedAuthority = some requestedAuthority → granted ≤ requestedAuthority)
    (himported : ∀ handle, origin.entry = .imported handle → granted ≤ handle.effectiveAuthority) :
    frame.Within frame where
  maximum := h.maximum
  requested := by
    rw [h.origin]
    exact fun _ heq => h.authority.trans (hrequested _ heq)
  imported := by
    rw [h.origin]
    exact fun handle heq => h.authority.trans (himported handle heq)

end Frame

/-! ### The entry points -/

theorem enterProvider_enteredWith (chain : ActiveChain runtime) (position : ℕ) (shared : Bool) :
    (enterProvider runtime origin chain position granted guards shared).EnteredWith origin granted where
  origin := rfl
  authority := Authority.attenuate_le_left granted _
  maximum manifest hmanifest := by
    obtain ⟨_,rfl⟩ := runtime.config.manifests.get?_eq_some.mp hmanifest
    exact Authority.attenuate_le_right granted _

theorem invokeResolvedChainWith_eq_ok {chain : ActiveChain runtime} {position : ℕ}
    (h : invokeResolvedChainWith runtime locked offersShared origin chain position granted guards =
      .ok frame) : ∃ shared, frame = enterProvider runtime origin chain position granted guards shared := by
  unfold invokeResolvedChainWith at h
  dsimp only at h
  split at h
  · cases h
  · split at h
    · cases h
    · split at h
      · cases h
      · cases h
        exact ⟨_,rfl⟩

variable {service : ServiceId}

/-- A service that is not active is dispatched with its chain. -/
theorem invokeServiceWith_eq_ok {binding : Option PluginId}
    (h : invokeServiceWith runtime locked offersShared origin service granted binding guards = .ok frame) :
    service ∉ guards.activeServices ∧ ∃ resolved chain shared,
        runtime.config.resolveChain service granted binding = .ok resolved ∧
        chain.service = resolved.service ∧ chain.layers.length ≤ resolved.layers.length ∧
        frame = enterProvider runtime origin chain 0 granted
          { guards with
            activeServices := insert service guards.activeServices
            terminalComponent := none } shared := by
  unfold invokeServiceWith at h
  split at h
  · cases h
  · next hfresh =>
    obtain ⟨chain,hchain,h⟩ := bind_eq_ok.mp h
    obtain ⟨resolved,hresolved,hservice,hlength⟩ := activeChain_eq_ok runtime hchain
    obtain ⟨shared,hframe⟩ := invokeResolvedChainWith_eq_ok h
    exact ⟨hfresh,resolved,chain,shared,hresolved,hservice,hlength,hframe⟩

/-- An endpoint that is not active is dispatched with the chain of its service. -/
theorem invokeComponentServiceWith_eq_ok {component : ComponentId} {binding : PluginId}
    (h : invokeComponentServiceWith runtime locked offersShared origin service component binding granted guards = .ok frame) :
    ⟨component,service⟩ ∉ guards.activeComponentEndpoints ∧
        ∃ resolved chain shared,
          runtime.config.resolveComponentChain service granted binding = .ok resolved ∧
          chain.service = resolved.service ∧ chain.layers.length ≤ resolved.layers.length ∧
          frame = enterProvider runtime origin chain 0 granted
            { callStack := guards.callStack
              activeServices := insert service guards.activeServices
              activeComponentEndpoints :=
                insert ⟨component,service⟩ guards.activeComponentEndpoints
              terminalComponent := some component } shared := by
  unfold invokeComponentServiceWith at h
  split at h
  · cases h
  · next hfresh =>
    split at h
    · cases h
    · split at h
      · cases h
      · obtain ⟨chain,hchain,h⟩ := bind_eq_ok.mp h
        obtain ⟨resolved,hresolved,hservice,hlength⟩ := activeChain_eq_ok runtime hchain
        obtain ⟨shared,hframe⟩ := invokeResolvedChainWith_eq_ok h
        exact ⟨hfresh,resolved,chain,shared,hresolved,hservice,hlength,hframe⟩

theorem invokeResolvedChainWith_enteredWith {chain : ActiveChain runtime} {position : ℕ}
    (h : invokeResolvedChainWith runtime locked offersShared origin chain position granted guards =
      .ok frame) : frame.EnteredWith origin granted := by
  obtain ⟨shared,rfl⟩ := invokeResolvedChainWith_eq_ok h
  exact enterProvider_enteredWith chain position shared

theorem invokeServiceWith_enteredWith {binding : Option PluginId}
    (h : invokeServiceWith runtime locked offersShared origin service granted binding guards = .ok frame) :
    frame.EnteredWith origin granted := by
  obtain ⟨-,_,chain,shared,-,-,-,rfl⟩ := invokeServiceWith_eq_ok h
  exact enterProvider_enteredWith chain 0 shared

theorem invokeComponentServiceWith_enteredWith {component : ComponentId} {binding : PluginId}
    (h : invokeComponentServiceWith runtime locked offersShared origin service component binding granted guards = .ok frame) :
    frame.EnteredWith origin granted := by
  obtain ⟨-,_,chain,shared,-,-,-,rfl⟩ := invokeComponentServiceWith_eq_ok h
  exact enterProvider_enteredWith chain 0 shared

/-! ### The calls of a host -/

namespace PluginHost
variable {host : PluginHost runtime} {id : FrameId}

/-- A host hands down no more than it has and the call allows. -/
structure Delegates (host : PluginHost runtime) (frame : Frame runtime) : Prop where
  authority : frame.host.authority ≤ host.authority
  within : frame.Within frame

theorem invokeImport_delegates {component : ComponentId} {interface : InterfaceId}
    {request : Except String (List UInt8)}
    (h : host.invokeImport id locked offersShared component interface request = .ok frame) :
    frame.origin.caller = some id ∧ host.Delegates frame := by
  obtain ⟨handle,-,h⟩ := bind_eq_ok.mp h
  obtain ⟨input,-,h⟩ := bind_eq_ok.mp h
  have hentered := invokeComponentServiceWith_enteredWith (mapError_eq_ok.mp h)
  have hauthority := hentered.authority.trans (host.authority.attenuate_le_left _)
  refine ⟨by rw [hentered.origin],hauthority,hentered.within ?_ ?_⟩
  · intro _ hrequested
    cases hrequested
  · intro handle hhandle
    cases hhandle
    exact host.authority.attenuate_le_right _

variable {requestedAuthority : Authority}

/-- A call that asks for an authority. -/
theorem delegates_of_requested (hcaller : origin.caller = some id)
    (hrequested : origin.entry.requestedAuthority = some requestedAuthority)
    (h : frame.EnteredWith origin (host.authority.attenuate requestedAuthority)) :
    frame.origin.caller = some id ∧ host.Delegates frame := by
  have hauthority := h.authority.trans (host.authority.attenuate_le_left _)
  refine ⟨by rw [h.origin, hcaller],hauthority,h.within ?_ ?_⟩
  · intro _ hsome
    cases hrequested.symm.trans hsome
    exact host.authority.attenuate_le_right _
  · intro handle hhandle
    rw [hhandle] at hrequested
    cases hrequested

theorem invokeServiceAbi_delegates {service : ServiceId} {input : List UInt8}
    {binding : Option PluginId}
    (h : host.invokeServiceAbi id locked offersShared service input requestedAuthority binding = .ok frame) :
    frame.origin.caller = some id ∧ host.Delegates frame :=
  delegates_of_requested rfl rfl (invokeServiceWith_enteredWith h)

theorem continueService_delegates {used : Bool} {input : List UInt8}
    (h : host.continueService id locked offersShared used input requestedAuthority = .ok frame) :
    frame.origin.caller = some id ∧ host.Delegates frame := by
  unfold continueService at h
  split at h
  · cases h
  · split at h
    · cases h
    · exact delegates_of_requested rfl rfl (invokeResolvedChainWith_enteredWith h)

end PluginHost

/-! ### Runs -/

namespace Dispatch
variable (self : Dispatch runtime)

theorem request_frames (id : FrameId) (host : PluginHost runtime) (offersShared : Bool)
    (request : HostRequest) :
    (self.request id host offersShared request).2.frames = self.frames := by
  cases request with
  | invokeImport => rfl
  | invokeServiceAbi => rfl
  | continueService =>
    change (self.swapUsed id host).frames = self.frames
    unfold swapUsed
    split <;> rfl

theorem request_delegates {id : FrameId} {host : PluginHost runtime} {request : HostRequest}
    (h : (self.request id host offersShared request).1 = .ok frame) :
    frame.origin.caller = some id ∧ host.Delegates frame := by
  cases request with
  | invokeImport => exact PluginHost.invokeImport_delegates h
  | invokeServiceAbi => exact PluginHost.invokeServiceAbi_delegates (mapError_eq_ok.mp h)
  | continueService => exact PluginHost.continueService_delegates (mapError_eq_ok.mp h)

theorem finish_frames (id : FrameId) (answer : PluginAnswer) (cancelled : Bool) :
    (self.finish id frame answer cancelled).frames = self.frames := by
  unfold finish
  split
  · rfl
  · split <;> rfl

/-- What a step does to the frames and the flags. -/
inductive Changes (self next : Dispatch runtime) : Prop
  | same (frames : next.frames = self.frames) (used : self.used ⊆ next.used)
  | entered (id : FrameId) (caller frame : Frame runtime) (offersShared : Bool)
      (request : HostRequest) (found : self.frames[id]? = some caller)
      (success : (self.request id caller.host offersShared request).1 = .ok frame)
      (frames : next.frames = self.frames ++ [frame])
      (used : next.used = (self.request id caller.host offersShared request).2.used)

theorem request_used (id : FrameId) (host : PluginHost runtime) (offersShared : Bool)
    (request : HostRequest) :
    self.used ⊆ (self.request id host offersShared request).2.used := by
  cases request with
  | invokeImport => exact subset_rfl
  | invokeServiceAbi => exact subset_rfl
  | continueService =>
    change self.used ⊆ (self.swapUsed id host).used
    unfold swapUsed
    split
    · exact Finset.subset_insert _ _
    · exact subset_rfl

theorem finish_used (id : FrameId) (answer : PluginAnswer) (cancelled : Bool) :
    (self.finish id frame answer cancelled).used = self.used := by
  unfold finish
  split
  · rfl
  · split <;> rfl

theorem step_changes (action : DispatchAction) : self.Changes (self.step action) := by
  cases action with
  | request id request offersShared =>
    unfold step
    dsimp only
    split
    · exact .same rfl subset_rfl
    · next caller hcaller =>
      have hkept := self.request_frames id caller.host offersShared request
      have hused := self.request_used id caller.host offersShared request
      split
      · next frame next heq =>
        rw [heq] at hkept hused
        exact .entered id caller frame offersShared request (Option.filter_eq_some_iff.mp hcaller).1
          (by rw [heq]) (congrArg (· ++ [frame]) hkept) (by rw [heq]; rfl)
      · next heq =>
        rw [heq] at hkept hused
        exact .same hkept hused
  | finish id answer cancelled =>
    unfold step
    dsimp only
    split
    · exact .same rfl subset_rfl
    · exact .same (self.finish_frames id answer cancelled) (self.finish_used id answer cancelled).ge

end Dispatch

namespace KernelCall
variable (call : KernelCall)

/-- What the kernel grants to the first provider. -/
def Grants (call : KernelCall) (frame : Frame runtime) : Prop :=
  frame.host.authority ≤ call.callerAuthority ∧ frame.Within frame

theorem provider_enteredWith (h : call.provider runtime offersShared = .ok frame) :
    ∃ input, frame.EnteredWith ⟨none,.root,input⟩ call.callerAuthority := by
  cases call with
  | invoke => exact ⟨_,invokeServiceWith_enteredWith h⟩
  | invokeComponent => exact ⟨_,invokeComponentServiceWith_enteredWith h⟩

theorem begin_forest : CallForest (·.origin.caller) call.Grants (·.host.Delegates ·)
    (call.begin runtime offersShared).frames := by
  unfold begin
  split
  · next frame hprovider =>
    obtain ⟨input,hentered⟩ := call.provider_enteredWith hprovider
    refine .root .nil (by rw [hentered.origin]) ⟨hentered.authority,hentered.within ?_ ?_⟩
    · intro _ hrequested
      cases hrequested
    · intro _ himported
      cases himported
  · exact .nil

theorem run_forest (actions : List DispatchAction) :
    CallForest (·.origin.caller) call.Grants (·.host.Delegates ·)
      (call.run runtime offersShared actions).frames := by
  refine runAll_invariant (I := fun self : Dispatch runtime =>
    CallForest (·.origin.caller) call.Grants (·.host.Delegates ·) self.frames) ?_ actions call.begin_forest
  intro self action hforest
  cases self.step_changes action with
  | same hframes =>
    rw [hframes]
    exact hforest
  | entered id caller frame offersShared request hcaller hsuccess hframes =>
    obtain ⟨horigin,hdelegates⟩ := self.request_delegates hsuccess
    rw [hframes]
    exact .call hforest horigin hcaller hdelegates

end KernelCall

/-- However the providers call their hosts, a provider runs with no more than the caller of the
kernel granted, and keeps to the limits of every call on the path to it. -/
theorem authority_confined {H : Type} (kernel : Kernel H) (call : KernelCall) (offersShared : Bool)
    (actions : List DispatchAction) {frames : List (Frame kernel.invocationContext)}
    (hrun : (call.run kernel.invocationContext offersShared actions).frames = frames)
    {i j : FrameId} {above frame : Frame kernel.invocationContext}
    (hpath : OnPath (·.origin.caller) frames i j) (habove : frames[i]? = some above)
    (hframe : frames[j]? = some frame) :
    frame.host.authority ≤ call.callerAuthority ∧
      (∀ manifest, kernel.config.manifest above.host.plugin = some manifest →
        frame.host.authority ≤ manifest.maximumAuthority) ∧
      (∀ requestedAuthority, above.origin.entry.requestedAuthority = some requestedAuthority →
        frame.host.authority ≤ requestedAuthority) ∧
      ∀ handle, above.origin.entry = .imported handle →
        frame.host.authority ≤ handle.effectiveAuthority := by
  have hforest : CallForest (·.origin.caller) call.Grants (·.host.Delegates ·) frames :=
    hrun ▸ call.run_forest actions
  have hgranted : frame.host.authority ≤ call.callerAuthority :=
    hforest.forall_mem (fun _ hroot => hroot.1)
      (fun _ _ hdelegates hcaller => hdelegates.authority.trans hcaller) frame
      (List.mem_of_getElem? hframe)
  have hown : ∀ frame ∈ frames, frame.Within frame :=
    hforest.forall_mem (fun _ hroot => hroot.2) fun _ _ hdelegates _ => hdelegates.within
  have hwithin : frame.Within above := hforest.inherited (R := fun above frame => frame.Within above)
    hown (fun _ _ _ h hdelegates => h.mono hdelegates.authority) hpath habove hframe
  exact ⟨hgranted,hwithin.maximum,hwithin.requested,hwithin.imported⟩

/-! ### A layer continues to a terminal, which calls an import -/

def gatePlugin : PluginId := ⟨"gate",by decide⟩
def agentPlugin : PluginId := ⟨"agent",by decide⟩
def storePlugin : PluginId := ⟨"store",by decide⟩
def agentService : ServiceId := ⟨"agent.run",by decide⟩
def storeInterface : InterfaceId := ⟨"store.read@1",by decide⟩
def agentComponent : ComponentId := ⟨"agent.main",by decide⟩
def storeComponent : ComponentId := ⟨"store.main",by decide⟩
def readCapability : CapabilityId := ⟨"read",by decide⟩
def writeCapability : CapabilityId := ⟨"write",by decide⟩

def serving (id : PluginId) (services : List ServiceContribution) : PluginManifest :=
  ⟨id,1,.embedded,[],services,[],.new [readCapability,writeCapability]⟩

/-- The gate is a required layer before the agent. -/
def gatedConfig : Except KernelError KernelConfig := do
  let config ← KernelConfig.new 0 [serving gatePlugin [⟨agentService,.layer,0,.new []⟩],
    serving agentPlugin [⟨agentService,.terminal,0,.new []⟩],serving storePlugin []]
  config.withLayerPolicy 1 agentService [⟨gatePlugin,0,true,true⟩]

/-- The import of the agent may only read. -/
def storeHandle : ResolvedImportHandle where
  importer := agentComponent
  interface := storeInterface
  exporter := storeComponent
  owningPlugin := storePlugin
  execution := .embedded
  effectiveAuthority := .new [readCapability]

def storeGraph : ResolvedComponentGraph where
  components := .ofList
    [(agentComponent,⟨agentComponent,agentPlugin,.embedded,
        [⟨storeInterface,true,some storeHandle,[],some .stableIdentity⟩],.new [readCapability]⟩),
      (storeComponent,⟨storeComponent,storePlugin,.embedded,[],.new [readCapability]⟩)]
  listeners := []

def servingKernel (config : KernelConfig) : Kernel Unit :=
  { Kernel.new config with
    componentGraph := storeGraph
    states := .ofList [(gatePlugin,.active),(agentPlugin,.active),(storePlugin,.active)]
    instances := .ofList [(gatePlugin,0),(agentPlugin,1),(storePlugin,2)]
    runtimeActive := true
    nextInstance := 3 }

/-- The frames of a call of the agent by one who may read and write. -/
def agentFrames (config : KernelConfig) : List (Frame (servingKernel config).invocationContext) :=
  let callerAuthority : Authority := .new [readCapability,writeCapability]
  ((KernelCall.invoke agentService [] callerAuthority none).run _ false
    [.request 0 (.continueService [] callerAuthority) false,
      .request 1 (.invokeImport agentComponent storeInterface (.ok [])) false]).frames

theorem exists_agentFrames : ∃ config gate agent store, gatedConfig = .ok config ∧
    agentFrames config = [gate,agent,store] ∧ agent.origin.caller = some 0 ∧
    store.origin.caller = some 1 := by
  have hrun : (match gatedConfig with
    | .ok config => (agentFrames config).map (·.origin.caller) = [none,some 0,some 1]
    | .error _ => false) = true := by decide +kernel
  split at hrun
  · next config hconfig =>
    obtain ⟨gate,rest,hframes,-,hrest⟩ := List.map_eq_cons_iff.mp (of_decide_eq_true hrun)
    obtain ⟨agent,rest,rfl,hagent,hrest⟩ := List.map_eq_cons_iff.mp hrest
    obtain ⟨store,rest,rfl,hstore,hrest⟩ := List.map_eq_cons_iff.mp hrest
    rw [List.map_eq_nil_iff.mp hrest] at hframes
    exact ⟨config,gate,agent,store,hconfig,hframes,hagent,hstore⟩
  · cases hrun

theorem agentFrames_confined : ∃ config gate agent store, gatedConfig = .ok config ∧
    agentFrames config = [gate,agent,store] ∧
    store.host.authority ≤ .new [readCapability,writeCapability] := by
  obtain ⟨config,gate,agent,store,hconfig,hframes,hagent,hstore⟩ := exists_agentFrames
  have hpath : OnPath (·.origin.caller) [gate,agent,store] 0 2 :=
    (Relation.ReflTransGen.single ⟨agent,rfl,hagent⟩).tail ⟨store,rfl,hstore⟩
  have hconfined := authority_confined (servingKernel config) _ false _ hframes hpath rfl rfl
  exact ⟨config,gate,agent,store,hconfig,hframes,hconfined.1⟩

end PhenixConductor.Runtime
