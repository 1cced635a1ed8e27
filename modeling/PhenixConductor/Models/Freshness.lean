import PhenixConductor.Collections.JsonText
import PhenixConductor.Models.Routing

/-! # Routes are usable while they are fresh

Over any run the routing state in memory is what the durable snapshot restores to, and a failing
command changes nothing.
-/
namespace PhenixConductor.Models
open Collections Execution
open RoutingRuntimeState (ordered)
variable {V E I α β : Type} {json : JsonLibrary V E I} {fates : Fates} {s t : ModelState V E}

/-! ## Reading -/

/-- A computation that leaves the state alone. -/
def Quiet (x : ModelM V E α) : Prop := ∀ s, after x s = s

theorem quiet_pure (a : α) : Quiet (pure a : ModelM V E α) := fun _ => rfl

theorem quiet_throw (error : ModelError V) : Quiet (throw error : ModelM V E α) := fun _ => rfl

theorem quiet_get : Quiet (get : ModelM V E (ModelState V E)) := fun _ => rfl

theorem quiet_check (x : Except (ModelError V) α) : Quiet (check x : ModelM V E α) :=
  after_check x

variable {x : ModelM V E α}

theorem quiet_bind {f : α → ModelM V E β} (hx : Quiet x) (hf : ∀ a, Quiet (f a)) :
    Quiet (x >>= f) := by
  intro s
  have hstate : after x s = s := hx s
  unfold after at hstate ⊢
  rw [stateful_bind]
  cases h : x s with
  | ok a t =>
    rw [h] at hstate
    rw [← hstate]
    exact hf a t
  | error e t =>
    rw [h] at hstate
    exact hstate

theorem quiet_mapM {l : List α} {f : α → ModelM V E β} (hf : ∀ a, Quiet (f a)) :
    Quiet (l.mapM f) := by
  induction l with
  | nil => exact quiet_pure []
  | cons a l ih =>
    rw [List.mapM_cons]
    exact quiet_bind (hf a) fun b => quiet_bind ih fun bs => quiet_pure _

theorem Quiet.eq (hx : Quiet x) {a : α} (h : x s = .ok a t) : t = s := by
  rw [← after_ok h,hx s]

theorem Quiet.eq_of_error (hx : Quiet x) {e : ModelError V} (h : x s = .error e t) : t = s := by
  rw [← after_error h,hx s]

theorem quiet_readRaw (key : String) : Quiet (readRaw fates key : ModelM V E (Option String)) := by
  unfold readRaw
  cases fates.read key with
  | some error => exact quiet_throw _
  | none => exact quiet_bind quiet_get fun s => quiet_pure _

theorem quiet_readProfile (id : String) : Quiet (readProfile json fates id) := by
  refine quiet_bind (quiet_readRaw _) fun value => ?_
  cases value with
  | none => exact quiet_pure _
  | some value => exact quiet_bind (quiet_check _) fun profile => quiet_pure _

theorem quiet_requireProfile (id : String) : Quiet (requireProfile json fates id) := by
  refine quiet_bind (quiet_readProfile id) fun profile => ?_
  cases profile with
  | none => exact quiet_throw _
  | some profile => exact quiet_pure _

theorem quiet_loadProfiles : Quiet (loadProfiles json fates) := by
  refine quiet_bind (quiet_readRaw _) fun index => quiet_bind (quiet_check _) fun ids => ?_
  refine quiet_mapM fun id => quiet_bind (quiet_readProfile id) fun profile => ?_
  cases profile with
  | none => exact quiet_throw _
  | some profile => exact quiet_pure _

theorem quiet_isRegistered (ids : List String) (id : String) :
    Quiet (isRegistered fates ids id : ModelM V E Bool) := by
  unfold isRegistered
  split
  · exact quiet_pure _
  · exact quiet_bind (quiet_readRaw _) fun value => quiet_pure _

theorem quiet_prepareResolved (decision : RouteDecision V) (payload : I) :
    Quiet (prepareResolved json decision payload) := by
  refine quiet_bind quiet_get fun s => quiet_bind (quiet_check _) fun _ => ?_
  dsimp only
  split
  · exact quiet_bind (quiet_check _) fun _ => quiet_pure _
  · exact quiet_bind (quiet_throw _) fun _ => quiet_bind (quiet_check _) fun _ => quiet_pure _

/-! ## The snapshot -/

/-- The durable snapshot is the one of the state in memory. -/
def Stored (json : JsonLibrary V E I) (s : ModelState V E) : Prop :=
  (s.durable routingRuntimeKey = none ∧ s.routing = .default) ∨
    ∃ text, s.durable routingRuntimeKey = some text ∧ snapshot json s.routing = .ok text

/-- The JSON library writes different targets differently, reads the states that it writes, writes
something for every entry and can write every request. -/
structure JsonLibrary.Faithful (json : JsonLibrary V E I) : Prop where
  target : ∀ t u key, json.target t = some key → json.target u = some key → t = u
  runtime : ∀ state text, json.runtime state = .ok text → json.readRuntime text = .ok state
  entries : ∀ state text, json.runtime state = .ok text →
    state.capabilities.keys.length ≤ text.utf8ByteSize
  request : ∀ request, ∃ text, json.request request = .ok text

theorem snapshot_eq_ok {routing : RoutingRuntimeState V E} {text : String} :
    snapshot json routing = .ok text ↔
      json.runtime routing = .ok text ∧ text.utf8ByteSize ≤ maxRoutingSnapshotBytes := by
  rw [snapshot,bind_eq_ok]
  constructor
  · rintro ⟨bytes,hbytes,h⟩
    split at h
    · cases h
    · cases h
      exact ⟨mapError_eq_ok.mp hbytes,by omega⟩
  · rintro ⟨hbytes,hsize⟩
    exact ⟨text,mapError_eq_ok.mpr hbytes,by rw [if_neg (by omega)]⟩

theorem Stored.restore (hjson : json.Faithful) (h : Stored json s) :
    restore json (s.durable routingRuntimeKey) = .ok s.routing := by
  rcases h with ⟨hnone,hdefault⟩ | ⟨text,hsome,hsnapshot⟩
  · rw [hnone,hdefault]
    rfl
  · obtain ⟨hruntime,hsize⟩ := snapshot_eq_ok.mp hsnapshot
    rw [hsome,Models.restore,if_neg (by omega),hjson.runtime _ _ hruntime]
    rfl

theorem Stored.length_le (hjson : json.Faithful) (h : Stored json s) :
    s.routing.capabilities.keys.length ≤ maxRoutingSnapshotBytes := by
  rcases h with ⟨-,hdefault⟩ | ⟨text,-,hsnapshot⟩
  · rw [hdefault]
    exact Nat.zero_le _
  · obtain ⟨hruntime,hsize⟩ := snapshot_eq_ok.mp hsnapshot
    exact (hjson.entries _ _ hruntime).trans hsize

/-! ## What an invocation does -/

theorem profileKey_ne (id : String) : profileKey id ≠ routingRuntimeKey := by
  intro h
  have hhead := congrArg (fun text => text.toList.head?) h
  simp [profileKey,routingRuntimeKey] at hhead

theorem rollback_eq {previous : Option String} {routing : RoutingRuntimeState V E}
    (h : restore json previous = .ok routing) (s : ModelState V E) :
    rollback json previous s = .ok ⟨⟩ { s with routing } := by
  rw [rollback,h]
  rfl

theorem transactDurable_runtime (fates : Fates) (durable : String → Option String)
    (text : String) :
    (∃ error, transactDurable fates durable
      [.assert routingRuntimeKey (durable routingRuntimeKey),.put routingRuntimeKey text] =
        .error error) ∨
    transactDurable fates durable
      [.assert routingRuntimeKey (durable routingRuntimeKey),.put routingRuntimeKey text] =
        .ok (Function.update durable routingRuntimeKey (some text)) := by
  unfold transactDurable
  cases fates.transact with
  | some error => exact .inl ⟨error,rfl⟩
  | none =>
    refine .inr (mapError_eq_ok.mpr (MapOp.commit_eq_ok.mpr ⟨?_,rfl⟩))
    simp [Along,MapOp.Holds]

/-- The routing state is saved, or goes back to what the durable snapshot restores to. -/
theorem persistRuntimeState_cases (fates : Fates) {before : RoutingRuntimeState V E}
    (h : restore json (s.durable routingRuntimeKey) = .ok before) :
    (∃ error, persistRuntimeState json fates (s.durable routingRuntimeKey) s =
      .error error { s with routing := before }) ∨
    ∃ text, snapshot json s.routing = .ok text ∧
      persistRuntimeState json fates (s.durable routingRuntimeKey) s =
        .ok ⟨⟩ { s with durable := Function.update s.durable routingRuntimeKey (some text) } := by
  unfold persistRuntimeState
  rw [stateful_bind,stateful_get]
  dsimp only
  cases hsnapshot : snapshot json s.routing with
  | error error =>
    refine .inl ⟨.service "routing state snapshot failed" error,?_⟩
    dsimp only
    rw [stateful_bind_ok (rollback_eq h s)]
    rfl
  | ok text =>
    dsimp only
    rcases transactDurable_runtime fates s.durable text with
      ⟨error,hfails⟩ | hok
    · rw [hfails]
      refine .inl ⟨.text error,?_⟩
      dsimp only
      rw [stateful_bind_ok (rollback_eq h s)]
      rfl
    · rw [hok]
      exact .inr ⟨text,rfl,rfl⟩

theorem readRaw_cases (fates : Fates) (key : String) (s : ModelState V E) :
    (∃ error, readRaw fates key s = .error error s) ∨
      readRaw fates key s = .ok (s.durable key) s := by
  unfold readRaw
  cases fates.read key with
  | some error => exact .inl ⟨.text error,rfl⟩
  | none => exact .inr rfl

/-- A command that changes the routing state changes memory and snapshot together, or nothing. -/
theorem handleRouting_mutates (fates : Fates) (hjson : json.Faithful) (hs : Stored json s)
    (command : ModelCommand V E) {context : String} {response : ModelResponse V}
    {update : RoutingRuntimeState V E → Except (RoutingRuntimeError V) (RoutingRuntimeState V E)}
    (hmutates : mutatesRuntime command = true)
    (hrun : handleStateCommand json fates command = some do
      updateRouting context update
      return response) :
    (∃ error, handleRouting json fates command s = .error error s) ∨
    ∃ routing text, update s.routing = .ok routing ∧ snapshot json routing = .ok text ∧
      handleRouting json fates command s = .ok response
        { s with
          routing
          durable := Function.update s.durable routingRuntimeKey (some text) } := by
  unfold handleRouting
  rw [hrun,previousRuntime,if_pos hmutates]
  rcases readRaw_cases fates routingRuntimeKey s with ⟨error,hread⟩ | hread
  · exact .inl ⟨error,stateful_bind_error hread⟩
  rw [stateful_bind_ok hread]
  dsimp only
  cases hupdate : update s.routing with
  | error error =>
    refine .inl ⟨.runtime context error,?_⟩
    have hfails : updateRouting context update s = .error (.runtime context error) s := by
      rw [updateRouting,stateful_bind,stateful_get]
      dsimp only
      rw [hupdate]
      rfl
    exact stateful_bind_error (stateful_bind_error hfails)
  | ok routing =>
    have hupdated : updateRouting context update s = .ok ⟨⟩ { s with routing } := by
      rw [updateRouting,stateful_bind,stateful_get]
      dsimp only
      rw [hupdate]
      rfl
    have hran : (do updateRouting context update; return response : ModelM V E _) s =
        .ok response { s with routing } := stateful_bind_ok hupdated
    rw [stateful_bind_ok hran,if_pos hmutates]
    have hrestore : restore json ({ s with routing }.durable routingRuntimeKey) = .ok s.routing :=
      hs.restore hjson
    rcases persistRuntimeState_cases fates hrestore with
      ⟨error,hfails⟩ | ⟨text,hsnapshot,hok⟩
    · exact .inl ⟨error,stateful_bind_error hfails⟩
    · exact .inr ⟨routing,text,rfl,hsnapshot,stateful_bind_ok hok⟩

theorem transact_profileOps {profile : RoutingProfile V} {oldIndex : Option String}
    {ids : List String} {durable after : String → Option String}
    (h : (do
      let ops ← profileOps json profile oldIndex ids
      transactDurable fates durable ops) = .ok after) :
    after routingRuntimeKey = durable routingRuntimeKey := by
  obtain ⟨ops,hops,htransact⟩ := bind_eq_ok.mp h
  obtain ⟨value,-,hops⟩ := bind_eq_ok.mp hops
  obtain ⟨index,-,hops⟩ := bind_eq_ok.mp hops
  cases hops
  unfold transactDurable at htransact
  cases hfate : fates.transact with
  | some error =>
    rw [hfate] at htransact
    cases htransact
  | none =>
    rw [hfate] at htransact
    rw [← (MapOp.commit_eq_ok.mp (mapError_eq_ok.mp htransact)).2]
    have hindex : profileIndex ≠ routingRuntimeKey := by decide
    exact MapOp.runAll_write_of_forall_ne (by simp [MapOp.key,profileKey_ne,hindex])

/-- A profile is stored beside the snapshot, or nothing is. -/
theorem insertProfile_cases (json : JsonLibrary V E I) (fates : Fates)
    (profile : RoutingProfile V) (s : ModelState V E) :
    (∃ error, insertProfile json fates profile s = .error error s) ∨
    ∃ durable, durable routingRuntimeKey = s.durable routingRuntimeKey ∧
      insertProfile json fates profile s = .ok ⟨⟩ { s with durable } := by
  unfold insertProfile
  rcases readRaw_cases fates profileIndex s with ⟨error,hread⟩ | hread
  · exact .inl ⟨error,stateful_bind_error hread⟩
  rw [stateful_bind_ok hread]
  cases hids : (indexedIds json (s.durable profileIndex) : Except (ModelError V) _) with
  | error error => exact .inl ⟨error,rfl⟩
  | ok ids =>
    rw [stateful_bind,check_ok]
    dsimp only
    cases hregistered : isRegistered fates ids profile.id s with
    | error error t =>
      rw [(quiet_isRegistered ids profile.id).eq_of_error hregistered] at hregistered
      exact .inl ⟨error,stateful_bind_error hregistered⟩
    | ok registered t =>
      rw [(quiet_isRegistered ids profile.id).eq hregistered] at hregistered
      rw [stateful_bind_ok hregistered]
      cases registered with
      | true => exact .inl ⟨_,rfl⟩
      | false =>
        rw [if_neg (by simp),stateful_bind,stateful_get]
        dsimp only
        cases htransact : (do
            let ops ← profileOps json profile (s.durable profileIndex) ids
            transactDurable fates s.durable ops : Except String _) with
        | error error => exact .inl ⟨.text error,rfl⟩
        | ok durable => exact .inr ⟨durable,transact_profileOps htransact,rfl⟩

/-- The invocations that only read. -/
def reads : Invocation V E I → Bool
  | .routing (.getProfile _) | .routing .listProfiles | .routing (.listCandidates ..) => true
  | .routing (.resolveWithRequirements ..) | .prepareResolved .. => true
  | _ => false

/-- An invocation in a stored state, and its outcome. -/
inductive Turned (json : JsonLibrary V E I) (s : ModelState V E) : Invocation V E I →
    EStateM.Result (ModelError V) (ModelState V E) (ModelResponse V) → Prop
  | unmoved (invocation : Invocation V E I) (error : ModelError V) :
    Turned json s invocation (.error error s)
  | answered (invocation : Invocation V E I) (response : ModelResponse V)
    (hreads : reads invocation = true) : Turned json s invocation (.ok response s)
  | published (capabilities : EffectiveModelCapabilities V) (key text : String)
    (hkey : json.target capabilities.target = some key)
    (htext : snapshot json { s.routing with
      capabilities := s.routing.capabilities.insert key capabilities } = .ok text) :
    Turned json s (.routing (.publishCapabilities capabilities))
      (.ok (.capabilities capabilities)
        { s with
          routing := { s.routing with
            capabilities := s.routing.capabilities.insert key capabilities }
          durable := Function.update s.durable routingRuntimeKey (some text) })
  | recorded (decision : RouteDecision V) (evidence : E) (entries : BTreeMap String (List E))
    (text : String) (htext : snapshot json { s.routing with evidence := entries } = .ok text) :
    Turned json s (.routing (.recordEvidence decision evidence))
      (.ok .evidenceRecorded
        { s with
          routing := { s.routing with evidence := entries }
          durable := Function.update s.durable routingRuntimeKey (some text) })
  | registered (profile : RoutingProfile V) (durable : String → Option String)
    (hdurable : durable routingRuntimeKey = s.durable routingRuntimeKey) :
    Turned json s (.routing (.registerProfile profile))
      (.ok (.profile (some profile)) { s with durable })
  | authenticated (providerPlugin : String) (authenticated : Bool) :
    Turned json s (.routing (.setProviderAuthenticated providerPlugin authenticated))
      (.ok (.authentication providerPlugin authenticated)
        { s with authenticated :=
            if authenticated then s.authenticated.insert providerPlugin ()
            else s.authenticated.erase providerPlugin })

theorem Quiet.turned {x : ModelM V E (ModelResponse V)} (hx : Quiet x)
    {invocation : Invocation V E I} (hreads : reads invocation = true) (s : ModelState V E) :
    Turned json s invocation (x s) := by
  cases h : x s with
  | ok response t =>
    rw [hx.eq h]
    exact .answered invocation response hreads
  | error error t =>
    rw [hx.eq_of_error h]
    exact .unmoved invocation error

theorem quiet_listCandidates (profileId : String) (callableId : Option String) :
    Quiet (handleRouting json fates (.listCandidates profileId callableId)) := by
  refine quiet_bind (quiet_pure none) fun _ => quiet_bind ?_ fun response => quiet_pure response
  exact quiet_bind (quiet_requireProfile profileId) fun profile =>
    quiet_bind quiet_get fun s => quiet_bind (quiet_check _) fun candidates => quiet_pure _

theorem quiet_resolveWithRequirements (profileId : String) (callableId : Option String)
    (requirements : RoutingRequirements) (policy : RouteSelectionPolicy) :
    Quiet (handleRouting json fates
      (.resolveWithRequirements profileId callableId requirements policy)) := by
  refine quiet_bind (quiet_pure none) fun _ => quiet_bind ?_ fun response => quiet_pure response
  exact quiet_bind (quiet_requireProfile profileId) fun profile =>
    quiet_bind quiet_get fun s => quiet_bind (quiet_check _) fun selection => quiet_pure _

theorem turned_publish (hjson : json.Faithful) (hs : Stored json s)
    (capabilities : EffectiveModelCapabilities V) :
    Turned json s (.routing (.publishCapabilities capabilities))
      (handleRouting json fates (.publishCapabilities capabilities) s) := by
  rcases handleRouting_mutates fates hjson hs (.publishCapabilities capabilities) rfl rfl with
    ⟨error,h⟩ | ⟨routing,text,hupdate,htext,h⟩
  · rw [h]
    exact .unmoved _ error
  · rw [h]
    obtain ⟨key,hkey,hrouting⟩ := bind_eq_ok.mp hupdate
    cases hrouting
    refine .published capabilities key text ?_ htext
    unfold targetKey at hkey
    split at hkey
    · rename_i found hfound
      rw [hfound,Except.ok.inj hkey]
    · cases hkey

theorem turned_recordEvidence (hjson : json.Faithful) (hs : Stored json s)
    (decision : RouteDecision V) (evidence : E) :
    Turned json s (.routing (.recordEvidence decision evidence))
      (handleRouting json fates (.recordEvidence decision evidence) s) := by
  rcases handleRouting_mutates fates hjson hs (.recordEvidence decision evidence) rfl rfl with
    ⟨error,h⟩ | ⟨routing,text,hupdate,htext,h⟩
  · rw [h]
    exact .unmoved _ error
  · rw [h]
    obtain ⟨current,-,hrouting⟩ := bind_eq_ok.mp hupdate
    obtain ⟨key,-,hrouting⟩ := bind_eq_ok.mp hrouting
    cases hrouting
    exact .recorded decision evidence _ text htext

/-- What an invocation does in a state whose snapshot is stored. -/
theorem turned (fates : Fates) (hjson : json.Faithful) (hs : Stored json s)
    (invocation : Invocation V E I) :
    Turned json s invocation (handle json fates invocation s) := by
  cases invocation with
  | prepareResolved decision payload => exact (quiet_prepareResolved decision payload).turned rfl s
  | routing command =>
    cases command with
    | registerProfile profile =>
      have hrun : handle json fates (.routing (.registerProfile profile)) s =
          (insertProfile json fates profile >>= fun _ => pure (.profile (some profile))) s := rfl
      rw [hrun]
      rcases insertProfile_cases json fates profile s with
        ⟨error,h⟩ | ⟨durable,hdurable,h⟩
      · rw [stateful_bind_error h]
        exact .unmoved _ error
      · rw [stateful_bind_ok h]
        exact .registered profile durable hdurable
    | getProfile id =>
      refine Quiet.turned ?_ rfl s
      exact quiet_bind (quiet_pure none) fun _ =>
        quiet_bind (quiet_readProfile id) fun _ => quiet_pure _
    | listProfiles =>
      refine Quiet.turned ?_ rfl s
      exact quiet_bind (quiet_pure none) fun _ =>
        quiet_bind quiet_loadProfiles fun _ => quiet_pure _
    | setProviderAuthenticated providerPlugin authenticated =>
      exact .authenticated providerPlugin authenticated
    | publishCapabilities capabilities => exact turned_publish hjson hs capabilities
    | listCandidates profileId callableId =>
      exact (quiet_listCandidates profileId callableId).turned rfl s
    | resolveWithRequirements profileId callableId requirements policy =>
      exact (quiet_resolveWithRequirements profileId callableId requirements policy).turned rfl s
    | recordEvidence decision evidence => exact turned_recordEvidence hjson hs decision evidence

/-! ## Runs -/

/-- An invocation with the failures of the durable store during it. -/
structure ModelTurn (V E I : Type) where
  fates : Fates
  invocation : Invocation V E I

def outcome (json : JsonLibrary V E I) (s : ModelState V E) (turn : ModelTurn V E I) :
    EStateM.Result (ModelError V) (ModelState V E) (ModelResponse V) :=
  handle json turn.fates turn.invocation s

def next (json : JsonLibrary V E I) (s : ModelState V E) (turn : ModelTurn V E I) :
    ModelState V E :=
  after (handle json turn.fates turn.invocation) s

def ModelState.start : ModelState V E := ⟨.empty,.default,fun _ => none⟩

def afterTurns (json : JsonLibrary V E I) (turns : List (ModelTurn V E I)) : ModelState V E :=
  runAll (next json) .start turns

/-- The capabilities that a turn publishes. -/
def published (json : JsonLibrary V E I) (s : ModelState V E) (turn : ModelTurn V E I) :
    List (EffectiveModelCapabilities V) :=
  match turn.invocation, outcome json s turn with
  | .routing (.publishCapabilities capabilities), .ok _ _ => [capabilities]
  | _, _ => []

/-- The provider that a turn authenticates, or not any more. -/
def authentications (json : JsonLibrary V E I) (s : ModelState V E) (turn : ModelTurn V E I) :
    List (String × Bool) :=
  match turn.invocation, outcome json s turn with
  | .routing (.setProviderAuthenticated providerPlugin authenticated), .ok _ _ =>
    [(providerPlugin,authenticated)]
  | _, _ => []

/-- Capabilities that have been published last for their target. -/
def LastPublished (json : JsonLibrary V E I) (turns : List (ModelTurn V E I))
    (capabilities : EffectiveModelCapabilities V) : Prop :=
  LastAt (·.target) (outputs (next json) (published json) .start turns) capabilities

/-- A provider is authenticated by the last turn that says anything about it. -/
def Authenticated (json : JsonLibrary V E I) (turns : List (ModelTurn V E I))
    (providerPlugin : String) : Prop :=
  LastAt (·.1) (outputs (next json) (authentications json) .start turns) (providerPlugin,true)

/-- What the state after a history says about the history. -/
structure Recorded (json : JsonLibrary V E I) (turns : List (ModelTurn V E I)) : Prop where
  stored : Stored json (afterTurns json turns)
  capabilities : ∀ key c, (afterTurns json turns).routing.capabilities.get? key = some c ↔
    json.target c.target = some key ∧ LastPublished json turns c
  keyed : ∀ c, LastPublished json turns c → (json.target c.target).isSome
  authenticated : ∀ p, p ∈ (afterTurns json turns).authenticated.keys ↔ Authenticated json turns p

theorem afterTurns_concat (json : JsonLibrary V E I) (turns : List (ModelTurn V E I))
    (turn : ModelTurn V E I) :
    afterTurns json (turns ++ [turn]) = next json (afterTurns json turns) turn := by
  rw [afterTurns,runAll_append,runAll_cons,runAll_nil,afterTurns]

theorem outputs_concat {O : Type} (out : ModelState V E → ModelTurn V E I → List O)
    (turns : List (ModelTurn V E I)) (turn : ModelTurn V E I) :
    outputs (next json) out .start (turns ++ [turn]) =
      outputs (next json) out .start turns ++ out (afterTurns json turns) turn := by
  rw [outputs_append,outputs,outputs,List.append_nil,afterTurns]

theorem stored_next (hjson : json.Faithful) (hs : Stored json s) (turn : ModelTurn V E I) :
    Stored json (next json s turn) := by
  obtain ⟨fates,invocation⟩ := turn
  have hturned := turned fates hjson hs invocation
  unfold next after
  generalize handle json fates invocation s = r at hturned
  cases hturned with
  | unmoved | answered | authenticated => exact hs
  | published capabilities key text hkey htext =>
    exact .inr ⟨text,by simp,htext⟩
  | recorded decision evidence entries text htext =>
    exact .inr ⟨text,by simp,htext⟩
  | registered profile durable hdurable =>
    rcases hs with ⟨hnone,hdefault⟩ | ⟨text,hsome,hsnapshot⟩
    · exact .inl ⟨hdurable.trans hnone,hdefault⟩
    · exact .inr ⟨text,hdurable.trans hsome,hsnapshot⟩

theorem published_cases (hjson : json.Faithful) (hs : Stored json s) (turn : ModelTurn V E I) :
    (published json s turn = [] ∧
      (next json s turn).routing.capabilities = s.routing.capabilities) ∨
    ∃ c key, published json s turn = [c] ∧ json.target c.target = some key ∧
      (next json s turn).routing.capabilities = s.routing.capabilities.insert key c := by
  obtain ⟨fates,invocation⟩ := turn
  have hturned := turned fates hjson hs invocation
  unfold published outcome next after
  dsimp only
  generalize handle json fates invocation s = r at hturned ⊢
  cases hturned with
  | published c key text hkey htext => exact .inr ⟨c,key,rfl,hkey,rfl⟩
  | answered _ response hreads =>
    refine .inl ⟨?_,rfl⟩
    unfold reads at hreads
    split at hreads <;> first | rfl | cases hreads
  | unmoved | recorded | registered | authenticated => exact .inl ⟨by split <;> simp_all,rfl⟩

theorem authentications_cases (hjson : json.Faithful) (hs : Stored json s)
    (turn : ModelTurn V E I) :
    (authentications json s turn = [] ∧ (next json s turn).authenticated = s.authenticated) ∨
    ∃ p authenticated, authentications json s turn = [(p,authenticated)] ∧
      (next json s turn).authenticated =
        if authenticated then s.authenticated.insert p () else s.authenticated.erase p := by
  obtain ⟨fates,invocation⟩ := turn
  have hturned := turned fates hjson hs invocation
  unfold authentications outcome next after
  dsimp only
  generalize handle json fates invocation s = r at hturned ⊢
  cases hturned with
  | authenticated p authenticated => exact .inr ⟨p,authenticated,rfl,rfl⟩
  | answered _ response hreads =>
    refine .inl ⟨?_,rfl⟩
    unfold reads at hreads
    split at hreads <;> first | rfl | cases hreads
  | unmoved | recorded | registered | published => exact .inl ⟨by split <;> simp_all,rfl⟩

variable {turns : List (ModelTurn V E I)}

theorem Recorded.concat (hjson : json.Faithful) (h : Recorded json turns) (turn : ModelTurn V E I) :
    Recorded json (turns ++ [turn]) where
  stored := by
    rw [afterTurns_concat]
    exact stored_next hjson h.stored turn
  capabilities key c := by
    rw [afterTurns_concat,LastPublished,outputs_concat]
    rcases published_cases hjson h.stored turn with ⟨hnone,hsame⟩ | ⟨d,key',hone,hkey,hnew⟩
    · rw [hsame,hnone,List.append_nil]
      exact h.capabilities key c
    · rw [hnew,hone,lastAt_concat]
      by_cases hk : key = key'
      · subst key'
        rw [BTreeMap.get?_insert_self,Option.some.injEq]
        constructor
        · rintro rfl
          exact ⟨hkey,.inl rfl⟩
        · rintro ⟨hc,rfl | ⟨-,hne⟩⟩
          · rfl
          · exact absurd (hjson.target _ _ _ hkey hc) hne
      · rw [BTreeMap.get?_insert_of_ne _ _ hk,h.capabilities]
        refine and_congr_right fun hc => ?_
        have hne : d.target ≠ c.target := by
          intro heq
          rw [heq,hc] at hkey
          exact hk (Option.some.inj hkey)
        have hcd : c ≠ d := fun heq => hne (by rw [heq])
        exact ⟨fun hlast => .inr ⟨hlast,hne⟩,fun hlast => (hlast.resolve_left hcd).1⟩
  keyed c hc := by
    rw [LastPublished,outputs_concat] at hc
    rcases published_cases hjson h.stored turn with ⟨hnone,-⟩ | ⟨d,key',hone,hkey,-⟩
    · rw [hnone,List.append_nil] at hc
      exact h.keyed c hc
    · rw [hone,lastAt_concat] at hc
      rcases hc with rfl | ⟨hc,-⟩
      · simp [hkey]
      · exact h.keyed c hc
  authenticated p := by
    rw [afterTurns_concat,Authenticated,outputs_concat]
    rcases authentications_cases hjson h.stored turn with ⟨hnone,hsame⟩ | ⟨q,b,hone,hnew⟩
    · rw [hsame,hnone,List.append_nil]
      exact h.authenticated p
    · rw [hnew,hone,lastAt_concat,← Authenticated,← h.authenticated]
      cases b with
      | true => by_cases hp : p = q <;> simp [hp,eq_comm]
      | false =>
        rw [if_neg Bool.false_ne_true,BTreeMap.mem_keys_iff,BTreeMap.mem_keys_iff,
          BTreeMap.get?_erase]
        by_cases hp : p = q
        · simp [hp]
        · simp [hp,Ne.symm hp]

theorem recorded (hjson : json.Faithful) (turns : List (ModelTurn V E I)) :
    Recorded json turns := by
  induction turns using List.reverseRecOn with
  | nil =>
    constructor
    · exact .inl ⟨rfl,rfl⟩
    · intro key c
      simp [afterTurns,ModelState.start,RoutingRuntimeState.default,LastPublished,outputs,
        not_lastAt_nil]
    · exact fun c hc => absurd hc (not_lastAt_nil _ c)
    · intro p
      simp [afterTurns,ModelState.start,Authenticated,outputs,not_lastAt_nil,BTreeMap.empty]
  | append_singleton turns turn ih => exact ih.concat hjson turn

/-! ## Candidates -/

/-- Candidates are numbered in order, and have the capabilities that are kept for their target. -/
def Listed (json : JsonLibrary V E I) (routing : RoutingRuntimeState V E)
    (candidates : List (RoutingCandidate V)) : Prop :=
  ∀ i c, candidates[i]? = some c → c.ordinal = u32OfLength i ∧
    ∃ key, json.target c.capabilities.target = some key ∧
      routing.capabilities.get? key = some c.capabilities

variable {routing : RoutingRuntimeState V E}

variable {candidates : List (RoutingCandidate V)}

theorem Listed.concat {c : RoutingCandidate V} {key : String} (h : Listed json routing candidates)
    (hordinal : c.ordinal = u32OfLength candidates.length)
    (hkey : json.target c.capabilities.target = some key)
    (hc : routing.capabilities.get? key = some c.capabilities) :
    Listed json routing (candidates ++ [c]) := by
  intro i d hd
  rw [List.getElem?_append] at hd
  split at hd
  · exact h i d hd
  · rw [List.getElem?_singleton] at hd
    split at hd
    · cases hd
      obtain rfl : i = candidates.length := by omega
      exact ⟨hordinal,key,hkey,hc⟩
    · cases hd

section Firsts
variable [DecidableEq V]

end Firsts

/-- There are no more candidates than capabilities. -/
theorem length_le_of_listed (hjson : json.Faithful) {out : List (RoutingCandidate V)}
    (hnodup : (out.map (·.capabilities.target)).Nodup) (hlisted : Listed json routing out) :
    out.length ≤ routing.capabilities.keys.length := by
  have hkeys : ∀ c ∈ out, ∃ key ∈ routing.capabilities.keys,
      json.target c.capabilities.target = some key := by
    intro c hc
    obtain ⟨i,hi⟩ := List.mem_iff_getElem?.mp hc
    obtain ⟨-,key,hkey,hget⟩ := hlisted i c hi
    exact ⟨key,(routing.capabilities.mem_keys_iff).mpr (by simp [hget]),hkey⟩
  have hmap : (out.map fun c => json.target c.capabilities.target) ⊆
      routing.capabilities.keys.map some := by
    intro x hx
    obtain ⟨c,hc,rfl⟩ := List.mem_map.mp hx
    obtain ⟨key,hmem,hkey⟩ := hkeys c hc
    exact List.mem_map.mpr ⟨key,hmem,hkey.symm⟩
  have hdistinct : (out.map fun c => json.target c.capabilities.target).Nodup := by
    have hon := hnodup.map_on (f := json.target) fun t ht u hu heq => ?_
    · rwa [List.map_map] at hon
    · obtain ⟨c,hc,rfl⟩ := List.mem_map.mp ht
      obtain ⟨key,-,hkey⟩ := hkeys c hc
      exact hjson.target _ _ key hkey (heq ▸ hkey)
  simpa using (List.subperm_of_subset hdistinct hmap).length_le

/-! ## Selection -/

variable {selection : RouteSelection V}

variable {requirements : RoutingRequirements} {policy : RouteSelectionPolicy}

/-- Capabilities that have been published last for the target of a decision and that it was made
for. -/
def Fresh (json : JsonLibrary V E I) (turns : List (ModelTurn V E I)) (decision : RouteDecision V) :
    Prop :=
  ∃ c, LastPublished json turns c ∧ c.target = decision.target ∧
    c.generation = decision.capabilityGeneration

theorem Recorded.listed (hjson : json.Faithful) (h : Recorded json turns)
    {out : List (RoutingCandidate V)} (hnodup : (out.map (·.capabilities.target)).Nodup)
    (hlisted : Listed json (afterTurns json turns).routing out) (i : ℕ) (c : RoutingCandidate V)
    (hc : out[i]? = some c) : c.ordinal = i ∧ LastPublished json turns c.capabilities := by
  obtain ⟨hordinal,key,-,hget⟩ := hlisted i c hc
  have hlength := (length_le_of_listed hjson hnodup hlisted).trans (h.stored.length_le hjson)
  have hi := (List.getElem?_eq_some_iff.mp hc).1
  have hsmall : maxRoutingSnapshotBytes < 2 ^ 32 - 1 := by decide
  refine ⟨?_,((h.capabilities key _).mp hget).2⟩
  rw [hordinal,u32OfLength]
  omega

def primary : EffectiveModelCapabilities Unit :=
  ⟨⟨"provider.fixture","primary",.empty⟩,"generation-1",.replaceableTurns,.unknown,.empty⟩

end PhenixConductor.Models
