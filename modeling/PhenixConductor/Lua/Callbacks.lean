import PhenixConductor.Collections.Entries
import PhenixConductor.Collections.Runs
import PhenixConductor.Lua.Values
import PhenixConductor.Sdk.Observation

/-! # Deferred Lua callbacks

A callback comes with a reply handle that answers once.
-/
namespace PhenixConductor.Lua
open Contract Collections BTreeMap List

def deferredReplyCapacity : ℕ := 64

/-- The decoded input of a callback. -/
structure CapabilityInvokeInput where
  callable : PhenixValue
  input : PhenixValue

/-- The client that the callables belong to. -/
structure ClientState where
  owner : ClientConnectionId
  generation : CapabilityGenerationId

/-- A request that waits for its answer, by the number of its reply handle. -/
structure PendingDeferred where
  callback : ℕ
  output : PhenixSchema

/-- One `respond` call, and the deferral that it settles. -/
structure Reply where
  callback : ℕ
  response : Except String PhenixValue
  settled : Option ℕ

structure LocalCallables where
  entries : BTreeMap ReferenceId PhenixSchema
  nextDeferred : ℕ
  pendingDeferred : BTreeMap ℕ PendingDeferred

namespace LocalCallables

def default : LocalCallables := ⟨.empty,0,.empty⟩

def reserveDeferred (l : LocalCallables) (callback : ℕ) (output : PhenixSchema) :
    Except String (LocalCallables × ℕ) :=
  if deferredReplyCapacity ≤ l.pendingDeferred.keys.length then
    .error "too many pending deferred Lua callback replies"
  else if 2 ^ 64 ≤ l.nextDeferred + 1 then .error "deferred callback id space exhausted"
  else .ok ({ l with
      nextDeferred := l.nextDeferred + 1
      pendingDeferred := l.pendingDeferred.insert (l.nextDeferred + 1) ⟨callback,output⟩ },
    l.nextDeferred + 1)

def deferredOutput (l : LocalCallables) (id : ℕ) : Option PhenixSchema :=
  (l.pendingDeferred.get? id).map PendingDeferred.output

def settleDeferred (l : LocalCallables) (id : ℕ) (result : Except String PhenixValue) :
    Option (LocalCallables × Reply) :=
  (l.pendingDeferred.get? id).map fun pending =>
    ({ l with pendingDeferred := l.pendingDeferred.erase id },⟨pending.callback,result,some id⟩)

def rejectDeferred (l : LocalCallables) (message : String) : LocalCallables × List Reply :=
  ({ l with pendingDeferred := .empty },
    l.pendingDeferred.values.map fun pending => ⟨pending.callback,.error message,none⟩)

end LocalCallables

/-- `PhenixValue::callable`. -/
def callableOf : PhenixValue → Except ValueError CallableRef
  | .callable reference => .ok reference
  | value => .error (.typeMismatch .callable value.kind)

def observableDeliveryToLua (value : PhenixValue) : Except String LuaValue := do
  ((Sdk.observableDeliverySchema.parse value).mapError fun error =>
    "observable delivery violates the canonical schema: " ++ error.text)
  return .other "userdata"

/-- `dispatch_local_callback` up to the call: the argument of the Lua function, and the schema of
its output. -/
def prepareCallback (lua : LuaLibrary) (client : ClientState)
    (entries : BTreeMap ReferenceId PhenixSchema) (input : Except String CapabilityInvokeInput) :
    Except String (LuaValue × PhenixSchema) := do
  let invocation ← input
  let callable ← (callableOf invocation.callable).mapError ValueError.text
  ensure (callable.owner = .client client.owner ∧ callable.generation = client.generation)
    "callback refers to a stale or foreign client callable"
  match entries.get? callable.id with
  | none => .error "callback callable is no longer registered"
  | some (.callable contract input output) => do
    ensure (callable.contract = contract) "callback callable contract does not match its schema"
    (input.parse invocation.input).mapError ValueError.text
    let argument ← if contract.text = "phenix.observable-delivery@1" then
        observableDeliveryToLua invocation.input
      else phenixToLua lua invocation.input
    return (argument,output)
  | some _ => .error "registered callable schema is not callable"

/-- What is called into Lua and has yet to return. -/
inductive Frame where
  /-- The function of a callback. -/
  | calling (callback : ℕ) (output : PhenixSchema)
  /-- The conversion of what it returned. -/
  | returning (callback : ℕ) (output : PhenixSchema)
  /-- The start function of a deferral. -/
  | starting (id : ℕ)
  /-- The conversion of what a deferral is resolved with. -/
  | converting (id : ℕ) (output : PhenixSchema)

/-- The reply handle that is kept while Lua runs. -/
def Frame.callback? : Frame → Option ℕ
  | .calling callback _ | .returning callback _ => some callback
  | .starting _ | .converting _ _ => none

/-- The callables of a client and the callbacks that were dispatched to it. The last four fields
are ghosts: how many callbacks were taken, the answers in order, the handles that were dropped,
and which deferral was started for which callback. -/
structure Callbacks where
  localCallables : LocalCallables
  frames : List Frame
  /-- The deferred results whose start function was taken. -/
  consumed : List ℕ
  dropped : Bool
  taken : ℕ
  replies : List Reply
  lost : List ℕ
  starts : List (ℕ × ℕ)

/-- What happens next. Lua code that runs may do anything at any time; what is on top of the
stack may return. -/
inductive CallbackEvent where
  /-- `poll` takes a callback from the queue. -/
  | dispatch (input : Except String CapabilityInvokeInput)
  | failed (error : String)
  | returned
  /-- The function returns a result of `phenix.defer`, by its number. -/
  | deferred (result : ℕ)
  | converted (result : Except String PhenixValue)
  | started
  | startFailed (error : String)
  | resolve (id : ℕ)
  | reject (id : ℕ) (message : String)
  /-- `poll` finds the queue closed. -/
  | disconnected
  | lift (id : ReferenceId) (schema : PhenixSchema)
  | release (id : ReferenceId)
  | drop

namespace Callbacks

def new : Callbacks := ⟨.default,[],[],false,0,[],[],[]⟩

def respond (s : Callbacks) (callback : ℕ) (response : Except String PhenixValue) : Callbacks :=
  { s with replies := s.replies ++ [⟨callback,response,none⟩] }

/-- `settle_deferred_callback` after the conversion: a late completion is ignored. -/
def settle (s : Callbacks) (id : ℕ) (result : Except String PhenixValue) : Callbacks :=
  match s.localCallables.settleDeferred id result with
  | none => s
  | some (l,reply) => { s with localCallables := l, replies := s.replies ++ [reply] }

def rejectDeferred (s : Callbacks) (message : String) : Callbacks :=
  let (l,replies) := s.localCallables.rejectDeferred message
  { s with localCallables := l, replies := s.replies ++ replies }

def takeDeferredStart (s : Callbacks) (result : ℕ) : Except String Callbacks := do
  ensure (result ∉ s.consumed) "a deferred callback result may only be consumed once"
  return { s with consumed := result :: s.consumed }

/-- The reply handle goes with the reservation: it is dropped if that fails. -/
def defer (s : Callbacks) (callback : ℕ) (output : PhenixSchema) : Callbacks :=
  match s.localCallables.reserveDeferred callback output with
  | .error _ => { s with lost := s.lost ++ [callback] }
  | .ok (l,id) => { s with
      localCallables := l
      frames := .starting id :: s.frames
      starts := s.starts ++ [(id,callback)] }

def act (lua : LuaLibrary) (client : ClientState) (s : Callbacks) : CallbackEvent → Callbacks
  | .dispatch input =>
    let callback := s.taken
    let s := { s with taken := s.taken + 1 }
    match prepareCallback lua client s.localCallables.entries input with
    | .error message => s.respond callback (.error message)
    | .ok (_,output) => { s with frames := .calling callback output :: s.frames }
  | .failed error =>
    match s.frames with
    | .calling callback _ :: frames =>
      { s with frames }.respond callback (.error ("Lua callable failed: " ++ error))
    | _ => s
  | .returned =>
    match s.frames with
    | .calling callback output :: frames => { s with frames := .returning callback output :: frames }
    | _ => s
  | .deferred result =>
    match s.frames with
    | .calling callback output :: frames =>
      match { s with frames }.takeDeferredStart result with
      | .error message => { s with frames }.respond callback (.error message)
      | .ok s => s.defer callback output
    | _ => s
  | .converted result =>
    match s.frames with
    | .returning callback _ :: frames => { s with frames }.respond callback result
    | .converting id _ :: frames => { s with frames }.settle id result
    | _ => s
  | .started =>
    match s.frames with
    | .starting _ :: frames => { s with frames }
    | _ => s
  | .startFailed error =>
    match s.frames with
    | .starting id :: frames =>
      if (s.localCallables.deferredOutput id).isSome then
        { s with frames }.settle id (.error ("Lua deferred callback start failed: " ++ error))
      else { s with frames }
    | _ => s
  | .resolve id =>
    match s.localCallables.deferredOutput id with
    | none => s
    | some output => { s with frames := .converting id output :: s.frames }
  | .reject id message => s.settle id (.error message)
  | .disconnected => s.rejectDeferred "ACP callback channel disconnected"
  | .lift id schema => { s with localCallables :=
      { s.localCallables with entries := s.localCallables.entries.insert id schema } }
  | .release id => { s with localCallables :=
      { s.localCallables with entries := s.localCallables.entries.erase id } }
  | .drop =>
    -- A frame borrows the callables.
    match s.frames with
    | [] => { s.rejectDeferred "ACP connection closed before deferred callback completion" with
        dropped := true }
    | _ => s

/-- Nothing happens to callables that are dropped. -/
def step (lua : LuaLibrary) (client : ClientState) (s : Callbacks) (e : CallbackEvent) : Callbacks :=
  if s.dropped then s else s.act lua client e

/-! ## Where the handles are -/

/-- Every callback taken is in hand, answered, lost, kept by a frame or pending, and only one of
these. -/
def Balanced (hand : List ℕ) (s : Callbacks) : Prop :=
  ∀ c, hand.count c + (s.replies.map Reply.callback).count c + s.lost.count c +
    (s.frames.filterMap Frame.callback?).count c +
    (s.localCallables.pendingDeferred.values.map PendingDeferred.callback).count c =
      (List.range s.taken).count c

/-- Deferrals have ids of their own, each for the callback that its start function was called for,
and there is a bounded number of them. -/
structure Owned (s : Callbacks) : Prop where
  pending : ∀ id p, s.localCallables.pendingDeferred.get? id = some p → (id,p.callback) ∈ s.starts
  bound : ∀ start ∈ s.starts, start.1 ≤ s.localCallables.nextDeferred
  distinct : (s.starts.map Prod.fst).Nodup
  settled : ∀ r ∈ s.replies, ∀ id, r.settled = some id → (id,r.callback) ∈ s.starts
  capacity : s.localCallables.pendingDeferred.keys.length ≤ deferredReplyCapacity

section
variable {s : Callbacks} {callback : ℕ}

theorem Owned.fresh (h : Owned s) {id : ℕ} (hid : s.localCallables.nextDeferred < id) :
    s.localCallables.pendingDeferred.get? id = none := by
  by_contra hsome
  obtain ⟨p,hp⟩ := Option.ne_none_iff_exists'.mp hsome
  have hbound := h.bound _ (h.pending id p hp)
  exact absurd hid (Nat.not_lt.mpr hbound)

/-! ### Answers -/

theorem Balanced.respond (h : Balanced [callback] s) (response : Except String PhenixValue) :
    Balanced [] (s.respond callback response) := by
  intro c
  have hc := h c
  simp only [Callbacks.respond, map_append, map_cons, map_nil, count_append,
    count_nil] at hc ⊢
  omega

theorem Owned.respond (h : Owned s) (callback : ℕ) (response : Except String PhenixValue) :
    Owned (s.respond callback response) where
  pending := h.pending
  bound := h.bound
  distinct := h.distinct
  settled := by
    intro r hr id hid
    rcases mem_append.mp hr with hr | hr
    · exact h.settled r hr id hid
    · cases mem_singleton.mp hr
      cases hid
  capacity := h.capacity

theorem settle_cases (s : Callbacks) (id : ℕ) (result : Except String PhenixValue) :
    s.settle id result = s ∨ ∃ p, s.localCallables.pendingDeferred.get? id = some p ∧
      s.settle id result = { s with
        localCallables := { s.localCallables with
          pendingDeferred := s.localCallables.pendingDeferred.erase id }
        replies := s.replies ++ [⟨p.callback,result,some id⟩] } := by
  rw [settle, LocalCallables.settleDeferred]
  cases hp : s.localCallables.pendingDeferred.get? id with
  | none => exact .inl rfl
  | some p => exact .inr ⟨p,rfl,rfl⟩

theorem Balanced.settle (h : Balanced [] s) (id : ℕ) (result : Except String PhenixValue) :
    Balanced [] (s.settle id result) := by
  rcases settle_cases s id result with hsame | ⟨p,hp,hsettle⟩
  · rwa [hsame]
  · rw [hsettle]
    intro c
    have hc := h c
    have hvalues := ((values_erase_perm _ hp).map PendingDeferred.callback).count_eq c
    simp only [map_append, map_cons, map_nil, count_append, count_cons,
      count_nil] at hc hvalues ⊢
    omega

theorem Owned.settle (h : Owned s) (id : ℕ) (result : Except String PhenixValue) :
    Owned (s.settle id result) := by
  rcases settle_cases s id result with hsame | ⟨p,hp,hsettle⟩
  · rwa [hsame]
  · rw [hsettle]
    refine ⟨fun j q hq => ?_,h.bound,h.distinct,fun r hr j hj => ?_,?_⟩
    · rw [get?_erase] at hq
      split_ifs at hq
      exact h.pending j q hq
    · rcases mem_append.mp hr with hr | hr
      · exact h.settled r hr j hj
      · cases mem_singleton.mp hr
        cases hj
        exact h.pending _ p hp
    · have hlength : (s.localCallables.pendingDeferred.erase id).keys.length ≤
          s.localCallables.pendingDeferred.keys.length := length_filter_le _ _
      exact hlength.trans h.capacity

theorem Balanced.rejectDeferred (h : Balanced [] s) (message : String) :
    Balanced [] (s.rejectDeferred message) := by
  intro c
  have hc := h c
  have hvalues : (empty : BTreeMap ℕ PendingDeferred).values = [] := rfl
  simp only [Callbacks.rejectDeferred, LocalCallables.rejectDeferred, map_append, map_map,
    count_append, hvalues, map_nil, count_nil] at hc ⊢
  have hsame : (Reply.callback ∘ fun p : PendingDeferred => ⟨p.callback,.error message,none⟩) =
      PendingDeferred.callback := rfl
  rw [hsame]
  omega

theorem Owned.rejectDeferred (h : Owned s) (message : String) : Owned (s.rejectDeferred message) where
  pending := by
    intro id p hp
    simp [Callbacks.rejectDeferred, LocalCallables.rejectDeferred] at hp
  bound := h.bound
  distinct := h.distinct
  settled := by
    intro r hr id hid
    rcases mem_append.mp hr with hr | hr
    · exact h.settled r hr id hid
    · obtain ⟨p,-,rfl⟩ := mem_map.mp hr
      cases hid
  capacity := Nat.zero_le _

/-! ### Deferral -/

theorem defer_cases (s : Callbacks) (callback : ℕ) (output : PhenixSchema) :
    (s.defer callback output = { s with lost := s.lost ++ [callback] } ∧
      ¬ (s.localCallables.pendingDeferred.keys.length < deferredReplyCapacity ∧
        s.localCallables.nextDeferred + 1 < 2 ^ 64)) ∨
    ((s.localCallables.pendingDeferred.keys.length < deferredReplyCapacity ∧
        s.localCallables.nextDeferred + 1 < 2 ^ 64) ∧
      s.defer callback output = { s with
        localCallables := { s.localCallables with
          nextDeferred := s.localCallables.nextDeferred + 1
          pendingDeferred := s.localCallables.pendingDeferred.insert
            (s.localCallables.nextDeferred + 1) ⟨callback,output⟩ }
        frames := .starting (s.localCallables.nextDeferred + 1) :: s.frames
        starts := s.starts ++ [(s.localCallables.nextDeferred + 1,callback)] }) := by
  rw [defer, LocalCallables.reserveDeferred]
  split_ifs with hfull hids
  · exact .inl ⟨rfl,fun h => absurd h.1 (Nat.not_lt.mpr hfull)⟩
  · exact .inl ⟨rfl,fun h => absurd h.2 (Nat.not_lt.mpr hids)⟩
  · exact .inr ⟨⟨Nat.not_le.mp hfull,Nat.not_le.mp hids⟩,rfl⟩

theorem Balanced.defer (h : Balanced [callback] s) (hs : Owned s) (output : PhenixSchema) :
    Balanced [] (s.defer callback output) := by
  rcases defer_cases s callback output with ⟨hlost,-⟩ | ⟨-,hdefer⟩
  · rw [hlost]
    intro c
    have hc := h c
    simp only [count_append, count_nil] at hc ⊢
    omega
  · rw [hdefer]
    intro c
    have hc := h c
    have hnew := hs.fresh (Nat.lt_add_one s.localCallables.nextDeferred)
    have hvalues := ((values_insert_perm _ ⟨callback,output⟩ hnew).map
      PendingDeferred.callback).count_eq c
    have hframes : (Frame.starting (s.localCallables.nextDeferred + 1) :: s.frames).filterMap
        Frame.callback? = s.frames.filterMap Frame.callback? := rfl
    simp only [hframes, map_cons, count_cons, count_nil] at hc hvalues ⊢
    omega

theorem Owned.defer (h : Owned s) (callback : ℕ) (output : PhenixSchema) :
    Owned (s.defer callback output) := by
  rcases defer_cases s callback output with ⟨hlost,-⟩ | ⟨⟨hroom,-⟩,hdefer⟩
  · rw [hlost]
    exact ⟨h.pending,h.bound,h.distinct,h.settled,h.capacity⟩
  · rw [hdefer]
    refine ⟨fun id p hp => ?_,fun start hstart => ?_,?_,fun r hr id hid => ?_,?_⟩
    · rw [get?_insert] at hp
      split_ifs at hp with hid
      · cases hp
        rw [hid]
        exact mem_append_right _ (mem_singleton_self _)
      · exact mem_append_left _ (h.pending id p hp)
    · rcases mem_append.mp hstart with hstart | hstart
      · exact Nat.le_succ_of_le (h.bound start hstart)
      · cases mem_singleton.mp hstart
        exact Nat.le_refl _
    · rw [map_append, map_singleton, nodup_append_comm, singleton_append,
        nodup_cons]
      refine ⟨fun hmem => ?_,h.distinct⟩
      obtain ⟨start,hstart,hid⟩ := mem_map.mp hmem
      have hbound := h.bound start hstart
      omega
    · exact mem_append_left _ (h.settled r hr id hid)
    · have hnew := h.fresh (Nat.lt_add_one s.localCallables.nextDeferred)
      have hkeys := ((toList_insert_perm _ (⟨callback,output⟩ : PendingDeferred) hnew).map
        Prod.fst).length_eq
      rw [map_fst_toList, map_cons, map_fst_toList] at hkeys
      exact hkeys.trans_le hroom

end

/-! ### One event -/

section
variable {s : Callbacks}

theorem Balanced.pop {frame : Frame} {frames : List Frame} (h : Balanced [] s)
    (hframes : s.frames = frame :: frames) : Balanced frame.callback?.toList { s with frames } := by
  intro c
  have hc := h c
  rw [hframes, filterMap_cons] at hc
  cases hcallback : frame.callback? with
  | none =>
    rw [hcallback] at hc
    exact hc
  | some callback =>
    simp only [hcallback, Option.toList, count_cons, count_nil] at hc ⊢
    omega

theorem Balanced.push (f : Frame) (h : Balanced f.callback?.toList s) :
    Balanced [] { s with frames := f :: s.frames } := by
  intro c
  have hc := h c
  cases hcallback : f.callback? with
  | none =>
    rw [filterMap_cons_none hcallback]
    rw [hcallback] at hc
    exact hc
  | some callback =>
    simp only [hcallback, filterMap_cons, Option.toList, count_cons, count_nil] at hc ⊢
    omega

theorem Balanced.take (h : Balanced [] s) : Balanced [s.taken] { s with taken := s.taken + 1 } := by
  intro c
  have hc := h c
  simp only [range_succ, count_append, count_nil] at hc ⊢
  omega

theorem Owned.congr {s' : Callbacks} (h : Owned s)
    (hpending : s'.localCallables.pendingDeferred = s.localCallables.pendingDeferred)
    (hnext : s'.localCallables.nextDeferred = s.localCallables.nextDeferred)
    (hreplies : s'.replies = s.replies) (hstarts : s'.starts = s.starts) : Owned s' := by
  refine ⟨?_,?_,?_,?_,?_⟩
  · rw [hpending, hstarts]
    exact h.pending
  · rw [hstarts, hnext]
    exact h.bound
  · rw [hstarts]
    exact h.distinct
  · rw [hreplies, hstarts]
    exact h.settled
  · rw [hpending]
    exact h.capacity

theorem takeDeferredStart_eq_ok {s' : Callbacks} {result : ℕ} :
    s.takeDeferredStart result = .ok s' ↔
      result ∉ s.consumed ∧ s' = { s with consumed := result :: s.consumed } := by
  rw [takeDeferredStart, seq_eq_ok, ensure_eq_ok]
  exact and_congr_right fun _ => ⟨fun h => (Except.ok.inj h).symm,fun h => congrArg Except.ok h.symm⟩

variable (lua : LuaLibrary) (client : ClientState)

theorem Balanced.act (h : Balanced [] s) (hs : Owned s) (e : CallbackEvent) :
    Balanced [] (s.act lua client e) := by
  cases e with
  | dispatch input =>
    rw [Callbacks.act]
    split
    · exact h.take.respond _
    · next output _ => exact h.take.push (.calling s.taken output)
  | failed error =>
    rw [Callbacks.act]
    split
    · next hframes => exact Balanced.respond (h.pop hframes) _
    · exact h
  | returned =>
    rw [Callbacks.act]
    split
    · next callback output frames hframes =>
      have hpop : Balanced [callback] { s with frames } := h.pop hframes
      exact hpop.push (.returning callback output)
    · exact h
  | deferred result =>
    rw [Callbacks.act]
    split
    · next callback output frames hframes =>
      have hpop : Balanced [callback] { s with frames } := h.pop hframes
      split
      · exact hpop.respond _
      · next hstart =>
        obtain ⟨-,rfl⟩ := takeDeferredStart_eq_ok.mp hstart
        have htaken : Balanced [callback] { s with frames, consumed := result :: s.consumed } := hpop
        exact htaken.defer (hs.congr rfl rfl rfl rfl) output
    · exact h
  | converted result =>
    rw [Callbacks.act]
    split
    · next hframes => exact Balanced.respond (h.pop hframes) _
    · next hframes => exact Balanced.settle (h.pop hframes) _ _
    · exact h
  | started =>
    rw [Callbacks.act]
    split
    · next hframes => exact h.pop hframes
    · exact h
  | startFailed error =>
    rw [Callbacks.act]
    split
    · next hframes =>
      split
      · exact Balanced.settle (h.pop hframes) _ _
      · exact h.pop hframes
    · exact h
  | resolve id =>
    rw [Callbacks.act]
    split
    · exact h
    · next output _ => exact h.push (.converting id output)
  | reject id message => exact h.settle id _
  | disconnected => exact h.rejectDeferred _
  | lift id schema => exact h
  | release id => exact h
  | drop =>
    rw [Callbacks.act]
    split
    · exact h.rejectDeferred _
    · exact h

theorem Owned.act (h : Owned s) (e : CallbackEvent) : Owned (s.act lua client e) := by
  cases e with
  | dispatch input =>
    rw [Callbacks.act]
    split
    · apply Owned.respond
      exact h.congr rfl rfl rfl rfl
    · exact h.congr rfl rfl rfl rfl
  | failed error =>
    rw [Callbacks.act]
    split
    · apply Owned.respond
      exact h.congr rfl rfl rfl rfl
    · exact h
  | returned | started =>
    rw [Callbacks.act]
    split
    · exact h.congr rfl rfl rfl rfl
    · exact h
  | deferred result =>
    rw [Callbacks.act]
    split
    · split
      · apply Owned.respond
        exact h.congr rfl rfl rfl rfl
      · next hstart =>
        obtain ⟨-,rfl⟩ := takeDeferredStart_eq_ok.mp hstart
        apply Owned.defer
        exact h.congr rfl rfl rfl rfl
    · exact h
  | converted result =>
    rw [Callbacks.act]
    split
    · apply Owned.respond
      exact h.congr rfl rfl rfl rfl
    · apply Owned.settle
      exact h.congr rfl rfl rfl rfl
    · exact h
  | startFailed error =>
    rw [Callbacks.act]
    split
    · split
      · apply Owned.settle
        exact h.congr rfl rfl rfl rfl
      · exact h.congr rfl rfl rfl rfl
    · exact h
  | resolve id =>
    rw [Callbacks.act]
    split
    · exact h
    · exact h.congr rfl rfl rfl rfl
  | reject id message => exact h.settle id _
  | disconnected => exact h.rejectDeferred _
  | lift | release => exact h.congr rfl rfl rfl rfl
  | drop =>
    rw [Callbacks.act]
    split
    · exact (h.rejectDeferred _).congr rfl rfl rfl rfl
    · exact h

end

/-- Once the callables are dropped, nothing runs and nothing is pending. -/
def Closed (s : Callbacks) : Prop :=
  s.dropped = true → s.frames = [] ∧ s.localCallables.pendingDeferred = .empty

/-- A reservation is not refused. -/
def Fits (s : Callbacks) : CallbackEvent → Prop
  | .deferred result => ∀ callback output frames, s.dropped = false →
      s.frames = .calling callback output :: frames → result ∉ s.consumed →
      s.localCallables.pendingDeferred.keys.length < deferredReplyCapacity ∧
        s.localCallables.nextDeferred + 1 < 2 ^ 64
  | _ => True

@[simp] theorem dropped_settle (s : Callbacks) (id : ℕ) (result : Except String PhenixValue) :
    (s.settle id result).dropped = s.dropped := by
  rcases settle_cases s id result with h | ⟨p,-,h⟩ <;> rw [h]

@[simp] theorem lost_settle (s : Callbacks) (id : ℕ) (result : Except String PhenixValue) :
    (s.settle id result).lost = s.lost := by
  rcases settle_cases s id result with h | ⟨p,-,h⟩ <;> rw [h]

@[simp] theorem dropped_defer (s : Callbacks) (callback : ℕ) (output : PhenixSchema) :
    (s.defer callback output).dropped = s.dropped := by
  rcases defer_cases s callback output with ⟨h,-⟩ | ⟨-,h⟩ <;> rw [h]

theorem lost_defer (s : Callbacks) (callback : ℕ) (output : PhenixSchema) :
    (s.defer callback output).lost = [] ↔ s.lost = [] ∧
      s.localCallables.pendingDeferred.keys.length < deferredReplyCapacity ∧
        s.localCallables.nextDeferred + 1 < 2 ^ 64 := by
  rcases defer_cases s callback output with ⟨h,hfull⟩ | ⟨hroom,h⟩
  · rw [h]
    exact iff_of_false (by simp) fun hroom => hfull hroom.2
  · rw [h]
    exact (and_iff_left hroom).symm

section
variable (lua : LuaLibrary) (client : ClientState) {s : Callbacks}

/-- Only `drop` drops the callables. -/
theorem dropped_act {e : CallbackEvent} (he : e ≠ .drop) : (s.act lua client e).dropped = s.dropped := by
  cases e with
  | drop => exact absurd rfl he
  | deferred result =>
    rw [act]
    split
    · split
      · rfl
      · next hstart =>
        obtain ⟨-,rfl⟩ := takeDeferredStart_eq_ok.mp hstart
        exact dropped_defer _ _ _
    · rfl
  | reject id message => exact dropped_settle _ _ _
  | dispatch | failed | returned | converted | started | startFailed | resolve =>
    rw [act]
    repeat' split
    all_goals simp [respond]
  | disconnected | lift | release => rfl

theorem Closed.step (h : Closed s) (e : CallbackEvent) : Closed (s.step lua client e) := by
  rw [Callbacks.step]
  split_ifs with hdropped
  · exact h
  · intro hclosed
    by_cases he : e = .drop
    · subst he
      rw [act] at hclosed ⊢
      split at hclosed
      · next hframes =>
        exact ⟨hframes,rfl⟩
      · exact absurd hclosed hdropped
    · exact absurd ((dropped_act lua client he).symm.trans hclosed) hdropped

/-- A handle is lost exactly by a reservation that is refused. -/
theorem lost_step (e : CallbackEvent) :
    (s.step lua client e).lost = [] ↔ s.lost = [] ∧ s.Fits e := by
  rw [step]
  split_ifs with hdropped
  · refine (and_iff_left ?_).symm
    cases e with
    | deferred result =>
      intro _ _ _ hopen
      cases hdropped.symm.trans hopen
    | _ => trivial
  cases e with
  | deferred result =>
    rw [act]
    split
    · next callback output frames hframes =>
      split
      · next hstart =>
        refine (and_iff_left fun _ _ _ _ _ hnew => ?_).symm
        cases hstart.symm.trans (takeDeferredStart_eq_ok.mpr ⟨hnew,rfl⟩)
      · next hstart =>
        obtain ⟨hnew,rfl⟩ := takeDeferredStart_eq_ok.mp hstart
        rw [lost_defer]
        refine and_congr_right fun _ => ⟨fun h _ _ _ _ _ _ => h,fun h => ?_⟩
        exact h callback output frames (Bool.not_eq_true _ ▸ hdropped) hframes hnew
    · next hframes => exact (and_iff_left fun _ _ _ _ h _ => absurd h (hframes _ _ _)).symm
  | reject id message => simp [act, Fits]
  | dispatch | failed | returned | converted | started | startFailed | resolve | drop =>
    rw [act]
    repeat' split
    all_goals simp [respond, rejectDeferred, Fits]
  | disconnected | lift | release => simp [act, rejectDeferred, Fits]

end

/-! ### Runs -/

section
variable (lua : LuaLibrary) (client : ClientState)

theorem balanced_new : Balanced [] new := fun _ => rfl

theorem owned_new : Owned new :=
  ⟨fun _ _ h => by simp [new, LocalCallables.default] at h,fun _ h => absurd h not_mem_nil,
    nodup_nil,fun _ h => absurd h not_mem_nil,Nat.zero_le _⟩

theorem sound_run (events : List CallbackEvent) :
    Balanced [] (runAll (step lua client) new events) ∧
      Owned (runAll (step lua client) new events) ∧
        Closed (runAll (step lua client) new events) := by
  refine runAll_invariant (I := fun s => Balanced [] s ∧ Owned s ∧ Closed s) ?_ events
    ⟨balanced_new,owned_new,nofun⟩
  rintro s e ⟨hbalanced,howned,hclosed⟩
  refine ⟨?_,?_,hclosed.step lua client e⟩
  · rw [step]
    split_ifs
    · exact hbalanced
    · exact hbalanced.act lua client howned e
  · rw [step]
    split_ifs
    · exact howned
    · exact howned.act lua client e

theorem lost_run (s : Callbacks) (events : List CallbackEvent) :
    (runAll (step lua client) s events).lost = [] ↔
      s.lost = [] ∧ Along (step lua client) Fits s events := by
  induction events generalizing s with
  | nil => exact (and_iff_left trivial).symm
  | cons e events ih => rw [runAll_cons, ih, lost_step, Along, and_assoc]

/-- Every callback is answered once, and deferrals answer the callbacks that they were started
for. -/
structure AnswersOnce (s : Callbacks) : Prop where
  /-- Whatever settles a deferral answers the callback whose start function received it. -/
  own : ∀ r ∈ s.replies, ∀ id, r.settled = some id → (id,r.callback) ∈ s.starts
  distinct : (s.starts.map Prod.fst).Nodup
  bounded : s.localCallables.pendingDeferred.keys.length ≤ deferredReplyCapacity
  atMostOnce : (s.replies.map Reply.callback).Nodup
  answered : s.dropped = true → ∀ callback < s.taken, callback ∈ s.replies.map Reply.callback

/-- In a run whose callables are dropped, every callback is answered once exactly if no
reservation was refused. -/
theorem answersOnce_iff (events : List CallbackEvent) :
    AnswersOnce (runAll (step lua client) new events) ↔
      ((runAll (step lua client) new events).dropped = true →
        Along (step lua client) Fits new events) := by
  obtain ⟨hbalanced,howned,hclosed⟩ := sound_run lua client events
  have hlost := (lost_run lua client new events).trans (and_iff_right rfl)
  rw [← hlost]
  generalize runAll (step lua client) new events = s at hbalanced howned hclosed
  have honce : ∀ c, (s.replies.map Reply.callback).count c + s.lost.count c ≤ 1 := by
    intro c
    have hc := hbalanced c
    have hrange := nodup_iff_count_le_one.mp (nodup_range (n := s.taken)) c
    omega
  -- What was taken is answered or lost in the end.
  have hend : s.dropped = true → ∀ c < s.taken,
      (s.replies.map Reply.callback).count c + s.lost.count c = 1 := by
    intro hdropped c hc
    obtain ⟨hframes,hpending⟩ := hclosed hdropped
    have hbalance := hbalanced c
    have hrange : (List.range s.taken).count c = 1 :=
      count_eq_one_of_mem nodup_range (mem_range.mpr hc)
    have hvalues : (empty : BTreeMap ℕ PendingDeferred).values = [] := rfl
    simp only [hframes, hpending, hvalues, hrange, filterMap_nil, map_nil,
      count_nil] at hbalance
    omega
  constructor
  · intro h hdropped
    rw [eq_nil_iff_forall_not_mem]
    intro c hmem
    have hcount := count_pos_iff.mpr hmem
    have hc : c < s.taken := by
      have hbalance := hbalanced c
      exact mem_range.mp (count_pos_iff.mp (by omega))
    have hanswered := count_pos_iff.mpr (h.answered hdropped c hc)
    have hsum := hend hdropped c hc
    omega
  · intro h
    refine ⟨howned.settled,howned.distinct,howned.capacity,?_,fun hdropped c hc => ?_⟩
    · refine nodup_iff_count_le_one.mpr fun c => ?_
      have hsum := honce c
      omega
    · have hsum := hend hdropped c hc
      rw [h hdropped, count_nil] at hsum
      exact count_pos_iff.mp (by omega)

end

/-! ### A full queue -/

theorem editor_valid : validateText IdentifierKind.clientConnection.noun "editor" = .ok () := by
  decide

def editorClient : ClientState := ⟨⟨"editor",editor_valid⟩,⟨"generation-1",by decide⟩⟩
def askContract : ContractId := ⟨"editor.ask@1",by decide⟩
def askReference : ReferenceId := ⟨"lua-callable-1",by decide⟩

def askInput : CapabilityInvokeInput :=
  ⟨.callable ⟨askContract,.client editorClient.owner,editorClient.generation,askReference⟩,.unit⟩

def silentLibrary : LuaLibrary := ⟨fun _ => "",fun _ => "","",List.length,fun _ => .error ""⟩

/-- One callback more than there is room for is deferred, and none of them is settled. -/
def fillingRun : List CallbackEvent :=
  .lift askReference (.callable askContract .unit .unit) ::
    (List.range (deferredReplyCapacity + 1)).flatMap (fun result =>
      [.dispatch (.ok askInput),.deferred result,.started]) ++ [.drop]

theorem unanswered_when_full : ¬ ∀ (lua : LuaLibrary) (client : ClientState)
    (events : List CallbackEvent), AnswersOnce (runAll (step lua client) new events) := by
  intro h
  have hrun := h silentLibrary editorClient fillingRun
  have hlast : (runAll (step silentLibrary editorClient) new fillingRun).dropped = true ∧
      64 < (runAll (step silentLibrary editorClient) new fillingRun).taken ∧
      64 ∉ (runAll (step silentLibrary editorClient) new fillingRun).replies.map Reply.callback := by
    decide +kernel
  exact hlast.2.2 (hrun.answered hlast.1 64 hlast.2.1)

end Callbacks

end PhenixConductor.Lua
