import PhenixConductor.Runtime.CallTree
import Mathlib.Algebra.BigOperators.Group.Finset.Sigma

/-! # Bounded recursion of the dispatch

A chain is dispatched for a service or for an endpoint of a component.
-/
namespace PhenixConductor.Runtime
open Collections Contract Component PhenixConductor.Kernel Relation KernelConfig
variable {runtime : InvocationContext} {locked : PluginId → Bool} {offersShared : Bool}

/-- What a chain is dispatched for: a service through `invoke_service_with`, or an endpoint
through `invoke_component_service_with`. -/
abbrev DispatchTarget := ServiceId ⊕ ComponentServiceEndpoint

def DispatchTarget.service : DispatchTarget → ServiceId
  | .inl service => service
  | .inr endpoint => endpoint.service

/-- The endpoints that the imports of the components lead to. -/
def InvocationContext.endpoints (runtime : InvocationContext) : Finset ComponentServiceEndpoint :=
  (runtime.componentGraph.components.values.flatMap fun component =>
    component.imports.flatMap fun imported =>
      (imported.binding.toList ++ imported.fallbacks).map fun handle =>
        ⟨handle.exporter,importService imported.interface⟩).toFinset

/-- The endpoint that the kernel is called for. -/
def KernelCall.endpoints : KernelCall → Finset ComponentServiceEndpoint
  | .invoke .. => ∅
  | .invokeComponent component service _ _ _ => {⟨component,service⟩}

def KernelCall.targets (runtime : InvocationContext) (call : KernelCall) : Finset DispatchTarget :=
  runtime.config.services.disjSum (runtime.endpoints ∪ call.endpoints)

/-- Whether a host must not dispatch a chain for a target. -/
def PluginHost.Guards (host : PluginHost runtime) : DispatchTarget → Prop
  | .inl service => service ∈ host.activeServices
  | .inr endpoint => endpoint ∈ host.activeComponentEndpoints

namespace Frame

/-- What the chain of a frame was dispatched for. -/
def target (frame : Frame runtime) : DispatchTarget :=
  match frame.terminalComponent with
  | none => .inl frame.chain.service
  | some component => .inr ⟨component,frame.chain.service⟩

/-- The first provider of a chain, which no continuation leads to. -/
def Dispatched (frame : Frame runtime) : Prop :=
  ∀ requestedAuthority, frame.origin.entry ≠ .continued requestedAuthority

theorem dispatched_of_origin {frame : Frame runtime} {origin : CallOrigin}
    (h : frame.origin = origin) (hentry : ∀ requestedAuthority,
      origin.entry ≠ .continued requestedAuthority) : frame.Dispatched := by
  intro requestedAuthority
  rw [h]
  exact hentry requestedAuthority

end Frame

/-- The layer at `i` has continued to the provider at `j`. -/
def Continues (frames : List (Frame runtime)) (i j : FrameId) : Prop :=
  ∃ frame, frames[j]? = some frame ∧ frame.origin.caller = some i ∧ ¬frame.Dispatched

/-! ### What is entered -/

namespace Frame

/-- A frame is guarded against its own target, and stands at a position of a chain that is not
longer than the bound of its service. -/
structure Sound (targets : Finset DispatchTarget) (frame : Frame runtime) : Prop where
  guarded : frame.host.Guards frame.target
  known : frame.target ∈ targets
  bound : frame.chain.layers.length < runtime.config.chainBound frame.target.service
  position : frame.position ≤ frame.chain.layers.length
  start : frame.Dispatched → frame.position = 0
  continuation : frame.host.continuation = if frame.chain.isLayer frame.position then
    some ⟨frame.chain,frame.terminalComponent,frame.position + 1⟩ else none

/-- What is guarded against stays so. -/
structure Grows (guards : ServiceDispatchGuards) (frame : Frame runtime) : Prop where
  services : guards.activeServices ⊆ frame.host.activeServices
  endpoints : guards.activeComponentEndpoints ⊆ frame.host.activeComponentEndpoints

end Frame

section Entering
variable {origin : CallOrigin} {granted : Authority} {guards : ServiceDispatchGuards}
  {frame : Frame runtime} {targets : Finset DispatchTarget}

theorem invokeServiceWith_sound {service : ServiceId} {binding : Option PluginId}
    (h : invokeServiceWith runtime locked offersShared origin service granted binding guards =
      .ok frame) (hknown : ∀ service ∈ runtime.config.services, .inl service ∈ targets) :
    frame.Sound targets ∧ frame.Grows guards ∧ frame.target = .inl service ∧
      service ∉ guards.activeServices := by
  obtain ⟨hfresh,resolved,chain,shared,hresolved,hservice,hlength,rfl⟩ := invokeServiceWith_eq_ok h
  obtain ⟨hsame,hlayers,hterminal⟩ := resolveChain_eq_ok hresolved
  have hname : chain.service = service := hservice.trans hsame
  have hpolicy := resolveLayers_length hlayers
  refine ⟨⟨?_,?_,?_,Nat.zero_le _,fun _ => rfl,rfl⟩,⟨Finset.subset_insert _ _,subset_rfl⟩,
    congrArg Sum.inl hname,hfresh⟩
  · change chain.service ∈ insert service guards.activeServices
    rw [hname]
    exact Finset.mem_insert_self _ _
  · change Sum.inl chain.service ∈ targets
    rw [hname]
    exact hknown service (mem_services_of_eligible hterminal)
  · change chain.layers.length < runtime.config.chainBound chain.service
    rw [hname, chainBound]
    omega

theorem invokeComponentServiceWith_sound {service : ServiceId} {component : ComponentId}
    {binding : PluginId}
    (h : invokeComponentServiceWith runtime locked offersShared origin service component binding
      granted guards = .ok frame) (hknown : .inr ⟨component,service⟩ ∈ targets) :
    frame.Sound targets ∧ frame.Grows guards ∧ frame.target = .inr ⟨component,service⟩ ∧
      ⟨component,service⟩ ∉ guards.activeComponentEndpoints := by
  obtain ⟨hfresh,resolved,chain,shared,hresolved,hservice,hlength,rfl⟩ :=
    invokeComponentServiceWith_eq_ok h
  obtain ⟨hsame,hlayers,-⟩ := resolveComponentChain_eq_ok hresolved
  have hname : chain.service = service := hservice.trans hsame
  have hpolicy := resolveLayers_length hlayers
  have htarget : (Sum.inr ⟨component,chain.service⟩ : DispatchTarget) =
      .inr ⟨component,service⟩ := by rw [hname]
  refine ⟨⟨?_,?_,?_,Nat.zero_le _,fun _ => rfl,rfl⟩,
    ⟨Finset.subset_insert _ _,Finset.subset_insert _ _⟩,htarget,hfresh⟩
  · change ⟨component,chain.service⟩ ∈ insert ⟨component,service⟩ guards.activeComponentEndpoints
    rw [hname]
    exact Finset.mem_insert_self _ _
  · change Sum.inr ⟨component,chain.service⟩ ∈ targets
    rw [htarget]
    exact hknown
  · change chain.layers.length < runtime.config.chainBound chain.service
    rw [hname, chainBound]
    omega

end Entering

/-! ### Calls -/

namespace Frame
variable {caller frame : Frame runtime}

/-- A call dispatches a chain for a target that its caller is not guarded against, or continues in
the chain of its caller. -/
structure Follows (caller frame : Frame runtime) : Prop where
  grows : frame.Grows (caller.host.guards none)
  target : frame.Dispatched ∧ ¬caller.host.Guards frame.target ∨
    ¬frame.Dispatched ∧ frame.chain = caller.chain ∧
      frame.terminalComponent = caller.terminalComponent ∧ frame.position = caller.position + 1

theorem Grows.guards {target : DispatchTarget} (h : frame.Grows (caller.host.guards none))
    (htarget : caller.host.Guards target) : frame.host.Guards target := by
  cases target with
  | inl service => exact h.services htarget
  | inr endpoint => exact h.endpoints htarget

theorem target_eq (hchain : frame.chain = caller.chain)
    (hterminal : frame.terminalComponent = caller.terminalComponent) :
    frame.target = caller.target := by
  unfold target
  rw [hchain, hterminal]

/-- A frame above another on a path: the lower one is guarded against the target of the upper
one, and stands further down in the chain if it has the same. -/
structure Above (frame lower : Frame runtime) : Prop where
  guarded : lower.host.Guards frame.target
  position : frame.target = lower.target → frame.position ≤ lower.position

theorem Above.self {targets : Finset DispatchTarget} (h : frame.Sound targets) :
    frame.Above frame :=
  ⟨h.guarded,fun _ => le_rfl⟩

theorem Above.call_lt {lower : Frame runtime} (h : frame.Above caller)
    (hfollows : caller.Follows lower) (htarget : frame.target = lower.target) :
    frame.position < lower.position := by
  rcases hfollows.target with ⟨-,hfresh⟩ | ⟨-,hchain,hterminal,hposition⟩
  · exact absurd (htarget ▸ h.guarded) hfresh
  · have hle := h.position (htarget.trans (target_eq hchain hterminal))
    omega

theorem Above.call {lower : Frame runtime} (h : frame.Above caller)
    (hfollows : caller.Follows lower) : frame.Above lower where
  guarded := hfollows.grows.guards h.guarded
  position htarget := (h.call_lt hfollows htarget).le

end Frame

namespace PluginHost
variable {host : PluginHost runtime} {id : FrameId} {caller frame : Frame runtime}
  {targets : Finset DispatchTarget}

theorem importHandle_known {component : ComponentId} {interface : InterfaceId}
    {handle : ResolvedImportHandle} (h : host.importHandle component interface = .ok handle) :
    ⟨handle.exporter,importService interface⟩ ∈ runtime.endpoints := by
  unfold importHandle at h
  split at h
  · cases h
  · split at h
    · cases h
    · split at h
      · cases h
      · cases h
      · next primary fallbacks hplan =>
        split at h
        · next found hfound =>
          cases h
          obtain ⟨imported,himported,hprovider⟩ := bind_eq_ok.mp hplan
          unfold ResolvedComponentGraph.resolvedImport at himported
          split at himported
          · cases himported
          · next resolved hresolved =>
            split at himported
            · cases himported
            · next hfind =>
              cases himported
              obtain ⟨binding,hbinding,hpair⟩ := Option.map_eq_some_iff.mp (Except.ok.inj hprovider)
              cases hpair
              have hinterface : imported.interface = interface := by
                simpa using List.find?_some hfind
              have hmem : handle ∈ imported.binding.toList ++ imported.fallbacks := by
                rw [hbinding]
                exact List.mem_of_find?_eq_some hfound
              apply List.mem_toFinset.mpr
              refine List.mem_flatMap.mpr
                ⟨resolved,runtime.componentGraph.components.mem_values.mpr ⟨component,hresolved⟩,?_⟩
              refine List.mem_flatMap.mpr ⟨imported,List.mem_of_find?_eq_some hfind,?_⟩
              exact List.mem_map.mpr ⟨handle,hmem,by rw [hinterface]⟩
        · cases h

variable {requestedAuthority : Authority}

theorem invokeServiceAbi_follows {service : ServiceId} {input : List UInt8}
    {binding : Option PluginId}
    (h : caller.host.invokeServiceAbi id locked offersShared service input requestedAuthority binding = .ok frame)
    (hknown : ∀ service ∈ runtime.config.services, .inl service ∈ targets) :
    caller.Follows frame ∧ frame.Sound targets ∧ frame.Dispatched := by
  obtain ⟨hsound,hgrows,htarget,hfresh⟩ := invokeServiceWith_sound h hknown
  have hdispatched := Frame.dispatched_of_origin (invokeServiceWith_enteredWith h).origin
    fun _ => CallEntry.noConfusion
  exact ⟨⟨hgrows,.inl ⟨hdispatched,htarget ▸ hfresh⟩⟩,hsound,hdispatched⟩

theorem invokeImport_follows {component : ComponentId} {interface : InterfaceId}
    {request : Except String (List UInt8)}
    (h : caller.host.invokeImport id locked offersShared component interface request = .ok frame)
    (hknown : ∀ endpoint ∈ runtime.endpoints, .inr endpoint ∈ targets) :
    caller.Follows frame ∧ frame.Sound targets ∧ frame.Dispatched := by
  obtain ⟨handle,hhandle,h⟩ := bind_eq_ok.mp h
  obtain ⟨input,-,h⟩ := bind_eq_ok.mp h
  have hinvoke := mapError_eq_ok.mp h
  obtain ⟨hsound,hgrows,htarget,hfresh⟩ :=
    invokeComponentServiceWith_sound hinvoke (hknown _ (importHandle_known hhandle))
  have hdispatched := Frame.dispatched_of_origin (invokeComponentServiceWith_enteredWith hinvoke).origin
    fun _ => CallEntry.noConfusion
  exact ⟨⟨⟨hgrows.services,hgrows.endpoints⟩,.inl ⟨hdispatched,htarget ▸ hfresh⟩⟩,hsound,hdispatched⟩

theorem continueService_follows {used : Bool} {input : List UInt8} (hcaller : caller.Sound targets)
    (h : caller.host.continueService id locked offersShared used input requestedAuthority = .ok frame) :
    caller.Follows frame ∧ frame.Sound targets ∧ used = false ∧
      caller.host.continuation.isSome := by
  unfold continueService at h
  split at h
  · cases h
  · next continuation hcontinuation =>
    split at h
    · cases h
    · next hunused =>
      rw [hcaller.continuation] at hcontinuation
      split at hcontinuation
      · next hlayer =>
        cases hcontinuation
        obtain ⟨shared,rfl⟩ := invokeResolvedChainWith_eq_ok h
        have hposition : caller.position < caller.chain.layers.length := of_decide_eq_true hlayer
        refine ⟨⟨⟨subset_rfl,subset_rfl⟩,.inr ⟨fun hall => hall _ rfl,rfl,rfl,rfl⟩⟩,
          ⟨hcaller.guarded,hcaller.known,hcaller.bound,hposition,fun hall => absurd rfl (hall _),rfl⟩,
          by simpa using hunused,?_⟩
        rw [hcaller.continuation, if_pos hlayer]
        rfl
      · cases hcontinuation

end PluginHost

/-! ### Runs -/

theorem continues_append {frames : List (Frame runtime)} {frame : Frame runtime} {i j : FrameId}
    (h : Continues (frames ++ [frame]) i j) : Continues frames i j ∨
      j = frames.length ∧ frame.origin.caller = some i ∧ ¬frame.Dispatched := by
  obtain ⟨found,hfound,hcaller,hcontinued⟩ := h
  rcases getElem?_append_singleton hfound with hfound | ⟨hj,rfl⟩
  · exact .inl ⟨found,hfound,hcaller,hcontinued⟩
  · exact .inr ⟨hj,hcaller,hcontinued⟩

namespace Dispatch
variable (self : Dispatch runtime) {targets : Finset DispatchTarget}

/-- A continuation is marked when it is consumed, and not consumed again. -/
structure Consumes (now : Dispatch runtime) : Prop where
  used : ∀ i j, Continues now.frames i j → i ∈ now.used
  once : ∀ i j k, Continues now.frames i j → Continues now.frames i k → j = k

theorem request_follows {id : FrameId} {caller frame : Frame runtime} {request : HostRequest}
    (hservices : ∀ service ∈ runtime.config.services, .inl service ∈ targets)
    (hendpoints : ∀ endpoint ∈ runtime.endpoints, .inr endpoint ∈ targets)
    (hcaller : caller.Sound targets)
    (h : (self.request id caller.host offersShared request).1 = .ok frame) :
    caller.Follows frame ∧ frame.Sound targets ∧ (frame.Dispatched ∨ id ∉ self.used ∧
      id ∈ (self.request id caller.host offersShared request).2.used) := by
  cases request with
  | invokeImport =>
    obtain ⟨hfollows,hsound,hdispatched⟩ := PluginHost.invokeImport_follows h hendpoints
    exact ⟨hfollows,hsound,.inl hdispatched⟩
  | invokeServiceAbi =>
    obtain ⟨hfollows,hsound,hdispatched⟩ :=
      PluginHost.invokeServiceAbi_follows (mapError_eq_ok.mp h) hservices
    exact ⟨hfollows,hsound,.inl hdispatched⟩
  | continueService =>
    obtain ⟨hfollows,hsound,hunused,hsome⟩ :=
      PluginHost.continueService_follows hcaller (mapError_eq_ok.mp h)
    refine ⟨hfollows,hsound,.inr ⟨of_decide_eq_false hunused,?_⟩⟩
    change id ∈ (self.swapUsed id caller.host).used
    rw [swapUsed, if_pos hsome]
    exact Finset.mem_insert_self _ _

variable {self} in
theorem Consumes.grow {next : Dispatch runtime} (h : self.Consumes)
    (hframes : next.frames = self.frames) (hused : self.used ⊆ next.used) : next.Consumes where
  used i j hcontinues := hused (h.used i j (hframes ▸ hcontinues))
  once i j k hj hk := h.once i j k (hframes ▸ hj) (hframes ▸ hk)

variable {self} in
theorem Consumes.enter {next : Dispatch runtime} {frame : Frame runtime} {id : FrameId}
    (h : self.Consumes) (hframes : next.frames = self.frames ++ [frame])
    (hused : self.used ⊆ next.used) (hcaller : frame.origin.caller = some id)
    (hfirst : frame.Dispatched ∨ id ∉ self.used ∧ id ∈ next.used) : next.Consumes := by
  have hnew : ∀ i, frame.origin.caller = some i → ¬frame.Dispatched →
      i ∉ self.used ∧ i ∈ next.used := by
    intro i hi hcontinued
    cases hcaller.symm.trans hi
    exact hfirst.resolve_left hcontinued
  constructor
  · intro i j hcontinues
    rw [hframes] at hcontinues
    rcases continues_append hcontinues with hold | ⟨-,hi,hcontinued⟩
    · exact hused (h.used i j hold)
    · exact (hnew i hi hcontinued).2
  · intro i j k hj hk
    rw [hframes] at hj hk
    rcases continues_append hj with hj | ⟨hj,hi,hcontinued⟩ <;>
      rcases continues_append hk with hk | ⟨hk,hi',hcontinued'⟩
    · exact h.once i j k hj hk
    · exact absurd (h.used i j hj) (hnew i hi' hcontinued').1
    · exact absurd (h.used i k hk) (hnew i hi hcontinued).1
    · exact hj.trans hk.symm

end Dispatch

namespace KernelCall
variable (call : KernelCall)

theorem provider_sound {frame : Frame runtime}
    (h : call.provider runtime offersShared = .ok frame) : frame.Sound (call.targets runtime) := by
  cases call with
  | invoke =>
    exact (invokeServiceWith_sound h fun service hservice =>
      Finset.inl_mem_disjSum.mpr hservice).1
  | invokeComponent component service input callerAuthority binding =>
    apply (invokeComponentServiceWith_sound h _).1
    exact Finset.inr_mem_disjSum.mpr (Finset.mem_union_right _ (Finset.mem_singleton_self _))

/-- What holds in a run. -/
structure Recurses (now : Dispatch runtime) : Prop where
  forest : CallForest (·.origin.caller) (Frame.Sound (call.targets runtime))
    (fun caller frame => caller.Follows frame ∧ frame.Sound (call.targets runtime)) now.frames
  consumes : now.Consumes

variable {call}

theorem Recurses.sound {self : Dispatch runtime} (h : call.Recurses self) :
    ∀ frame ∈ self.frames, frame.Sound (call.targets runtime) :=
  h.forest.forall_mem (fun _ hroot => hroot) fun _ _ hlink _ => hlink.2

theorem Recurses.step {self : Dispatch runtime} (h : call.Recurses self)
    (action : DispatchAction) : call.Recurses (self.step action) := by
  cases self.step_changes action with
  | same hframes hused => exact ⟨hframes ▸ h.forest,h.consumes.grow hframes hused⟩
  | entered id caller frame offersShared request hcaller hsuccess hframes hused =>
    have horigin := (self.request_delegates hsuccess).1
    have hservices : ∀ service ∈ runtime.config.services, .inl service ∈ call.targets runtime :=
      fun service hservice => Finset.inl_mem_disjSum.mpr hservice
    have hendpoints : ∀ endpoint ∈ runtime.endpoints, .inr endpoint ∈ call.targets runtime :=
      fun endpoint hendpoint => Finset.inr_mem_disjSum.mpr (Finset.mem_union_left _ hendpoint)
    obtain ⟨hfollows,hsound,hfirst⟩ := self.request_follows hservices hendpoints
      (h.sound caller (List.mem_of_getElem? hcaller)) hsuccess
    rw [← hused] at hfirst
    have hgrows : self.used ⊆ (self.step action).used := by
      rw [hused]
      exact self.request_used id caller.host offersShared request
    exact ⟨hframes ▸ .call h.forest horigin hcaller ⟨hfollows,hsound⟩,
      h.consumes.enter hframes hgrows horigin hfirst⟩

theorem recurses_begin : call.Recurses (call.begin runtime offersShared) := by
  unfold begin
  split
  · next frame hprovider =>
    have horigin : frame.origin.caller = none := by
      obtain ⟨input,hentered⟩ := call.provider_enteredWith hprovider
      rw [hentered.origin]
    have hnone : ∀ i j, ¬Continues [frame] i j := by
      rintro i j ⟨found,hfound,hcaller,-⟩
      rw [List.getElem?_singleton] at hfound
      split at hfound
      · cases hfound
        cases horigin.symm.trans hcaller
      · cases hfound
    exact ⟨.root .nil horigin (call.provider_sound hprovider),
      ⟨fun i j h => absurd h (hnone i j),fun i j k h => absurd h (hnone i j)⟩⟩
  · refine ⟨.nil,⟨?_,?_⟩⟩
    · rintro i j ⟨_,hfound,-⟩
      cases hfound
    · rintro i j k ⟨_,hfound,-⟩
      cases hfound

theorem recurses_run (actions : List DispatchAction) :
    call.Recurses (call.run runtime offersShared actions) :=
  runAll_invariant (fun _ action h => h.step action) actions recurses_begin

end KernelCall

section Bounds
variable {frames : List (Frame runtime)}

theorem Continues.calls {i j : FrameId} (h : Continues frames i j) :
    Calls (·.origin.caller) frames i j := by
  obtain ⟨frame,hframe,hcaller,-⟩ := h
  exact ⟨frame,hframe,hcaller⟩

/-- Within the run of one chain, what is entered later stands further down. -/
def Descending (frames : List (Frame runtime)) : Prop :=
  ∀ start i j first second, ReflTransGen (Continues frames) start i →
    ReflTransGen (Continues frames) start j → i < j → frames[i]? = some first →
    frames[j]? = some second → second.chain = first.chain ∧ first.position < second.position

/-- The frames of one call of the kernel: a path dispatches no target twice, a continuation is
consumed once, a chain is gone through in order, and a path is no longer than the chains of all
services and endpoints together. -/
structure Bounded (call : KernelCall) (frames : List (Frame runtime)) : Prop where
  targets : ∀ i j above below, OnPath (·.origin.caller) frames i j → i ≠ j →
    frames[i]? = some above → frames[j]? = some below → above.Dispatched → below.Dispatched →
    above.target ≠ below.target
  continuations : ∀ i j k, Continues frames i j → Continues frames i k → j = k
  chains : Descending frames
  positions : ∀ frame ∈ frames, frame.position ≤ frame.chain.layers.length
  depth : ∀ j below, frames[j]? = some below → ∀ path : Finset FrameId,
    (∀ i ∈ path, OnPath (·.origin.caller) frames i j) →
    path.card ≤ ∑ service ∈ runtime.config.services, runtime.config.chainBound service +
      ∑ endpoint ∈ runtime.endpoints ∪ call.endpoints, runtime.config.chainBound endpoint.service

/-- The targets with the positions in their chains. -/
def KernelCall.places (runtime : InvocationContext) (call : KernelCall) :
    Finset ((_ : DispatchTarget) × ℕ) :=
  (call.targets runtime).sigma fun target =>
    Finset.range (runtime.config.chainBound target.service)

namespace KernelCall.Recurses
variable {call : KernelCall} {self : Dispatch runtime}

section
variable (h : call.Recurses self)
include h

variable {j : FrameId} {below : Frame runtime}

theorem position_lt {i : FrameId} {above : Frame runtime}
    (hpath : OnPath (·.origin.caller) self.frames i j) (hne : i ≠ j)
    (habove : self.frames[i]? = some above) (hbelow : self.frames[j]? = some below)
    (htarget : above.target = below.target) : above.position < below.position :=
  h.forest.inherited_of_ne (R := Frame.Above)
    (Q := fun above below => above.target = below.target → above.position < below.position)
    (fun node hnode => .self (h.sound node hnode)) (fun _ _ _ habove hlink => habove.call hlink.1)
    (fun _ _ _ habove hlink => habove.call_lt hlink.1) hpath hne habove hbelow htarget

theorem targets {i : FrameId} {above : Frame runtime}
    (hpath : OnPath (·.origin.caller) self.frames i j) (hne : i ≠ j)
    (habove : self.frames[i]? = some above) (hbelow : self.frames[j]? = some below)
    (hdispatched : below.Dispatched) : above.target ≠ below.target := by
  intro htarget
  have hlt := h.position_lt hpath hne habove hbelow htarget
  rw [(h.sound below (List.mem_of_getElem? hbelow)).start hdispatched] at hlt
  exact Nat.not_lt_zero _ hlt

/-- Within the run of a chain, what is entered later stands further down. -/
theorem continued {i : FrameId} (hpath : ReflTransGen (Continues self.frames) i j)
    {first second : Frame runtime} (hfirst : self.frames[i]? = some first)
    (hsecond : self.frames[j]? = some second) :
    second.chain = first.chain ∧ (i = j ∨ i < j ∧ first.position < second.position) := by
  induction hpath generalizing second with
  | refl =>
    cases hfirst.symm.trans hsecond
    exact ⟨rfl,.inl rfl⟩
  | @tail k j hpath hlast ih =>
    have hcalls := hlast.calls
    obtain ⟨frame,hframe,hcaller,hcontinued⟩ := hlast
    cases hframe.symm.trans hsecond
    obtain ⟨parent,hparent,hfollows,-⟩ := h.forest.link hframe hcaller
    have hlt := h.forest.lt hcalls
    obtain ⟨hchain,hplace⟩ := ih hparent
    rcases hfollows.target with ⟨hdispatched,-⟩ | ⟨-,hsame,-,hnext⟩
    · exact absurd hdispatched hcontinued
    · refine ⟨hsame.trans hchain,.inr ?_⟩
      rcases hplace with rfl | ⟨hle,hposition⟩
      · cases hfirst.symm.trans hparent
        exact ⟨hlt,by omega⟩
      · exact ⟨Nat.lt_trans hle hlt,by omega⟩

theorem descending : Descending self.frames := by
  intro start i j first second hi hj hlt hfirst hsecond
  have hunique : Relator.RightUnique (Continues self.frames) := h.consumes.once
  rcases ReflTransGen.total_of_right_unique hunique hi hj with hpath | hpath
  · obtain ⟨hchain,rfl | hplace⟩ := h.continued hpath hfirst hsecond
    · exact absurd hlt (Nat.lt_irrefl _)
    · exact ⟨hchain,hplace.2⟩
  · obtain ⟨-,rfl | hplace⟩ := h.continued hpath hsecond hfirst
    · exact absurd hlt (Nat.lt_irrefl _)
    · exact absurd hlt (Nat.lt_asymm hplace.1)

theorem card_le (hbelow : self.frames[j]? = some below) {path : Finset FrameId}
    (hpath : ∀ i ∈ path, OnPath (·.origin.caller) self.frames i j) :
    path.card ≤ (call.places runtime).card := by
  have hframe : ∀ i ∈ path, ∃ frame, self.frames[i]? = some frame := fun i hi =>
    h.forest.exists_of_onPath (hpath i hi) hbelow
  have : Nonempty (Frame runtime) := ⟨below⟩
  choose! frame hframe using hframe
  apply Finset.card_le_card_of_injOn fun i => ⟨(frame i).target,(frame i).position⟩
  · intro i hi
    have hsound := h.sound (frame i) (List.mem_of_getElem? (hframe i hi))
    have hlt := hsound.position.trans_lt hsound.bound
    exact Finset.mem_sigma.mpr ⟨hsound.known,Finset.mem_range.mpr hlt⟩
  · intro i hi k hk hsame
    obtain ⟨htarget,hposition⟩ := Sigma.mk.inj hsame
    have hposition := eq_of_heq hposition
    by_contra hne
    rcases (hpath i hi).total (hpath k hk) with hon | hon
    · have := h.position_lt hon hne (hframe i hi) (hframe k hk) htarget
      omega
    · have := h.position_lt hon (Ne.symm hne) (hframe k hk) (hframe i hi) htarget.symm
      omega

end

end KernelCall.Recurses

theorem KernelCall.card_places (call : KernelCall) : (call.places runtime).card =
    ∑ service ∈ runtime.config.services, runtime.config.chainBound service +
      ∑ endpoint ∈ runtime.endpoints ∪ call.endpoints,
        runtime.config.chainBound endpoint.service := by
  simp only [places, Finset.card_sigma, Finset.card_range, targets, Finset.sum_disjSum,
    DispatchTarget.service]

end Bounds

/-- However the providers call their hosts, the calls under one call of the kernel are bounded. -/
theorem dispatch_bounded (runtime : InvocationContext) (call : KernelCall) (offersShared : Bool)
    (actions : List DispatchAction) :
    Bounded call (call.run runtime offersShared actions).frames := by
  have h : call.Recurses (call.run runtime offersShared actions) := call.recurses_run actions
  constructor
  · intro i j above below hpath hne habove hbelow _ hdispatched
    exact h.targets hpath hne habove hbelow hdispatched
  · exact h.consumes.once
  · exact h.descending
  · intro frame hframe
    exact (h.sound frame hframe).position
  · intro j below hbelow path hpath
    rw [← call.card_places]
    exact h.card_le hbelow hpath

end PhenixConductor.Runtime
