import PhenixConductor.Frontend.Routing

/-! # Exclusive routes

Over any run of commands a route leads to a live connection, a call is answered at most once and
only by the connection that it was sent to, and a call of an execution goes to the connection of
its root.
-/
namespace PhenixConductor.Frontend
open Collections Execution BTreeMap
variable {V : Type} {answers : Answers} {id execution root c : String} {s t : FrontendState}
  {turn : FrontendTurn V} {turns before : List (FrontendTurn V)}

/-! ## The parent chain of an execution -/

def parentOf (answers : Answers) (id : String) : Option String :=
  match executionLookup answers id with
  | .ok (some execution) => execution.parentExecution
  | _ => none

/-- The parents of an execution lead to one without a parent. -/
def EndsIn (answers : Answers) (execution root : String) : Prop :=
  (∃ record, executionLookup answers root = .ok (some record) ∧ record.parentExecution = none) ∧
    Descends (parentOf answers) root execution

variable {record : ExecutionRecord}

theorem mem_keys_of_lookup (h : executionLookup answers id = .ok (some record)) :
    id ∈ answers.keys := by
  by_contra hid
  rw [executionLookup,(answers.get?_eq_none).mpr hid] at h
  cases h

theorem lookup_of_parentOf {p : String} (h : parentOf answers id = some p) :
    ∃ record, executionLookup answers id = .ok (some record) ∧ record.parentExecution = some p := by
  unfold parentOf at h
  split at h
  · exact ⟨_,‹_›,h⟩
  · cases h

theorem parentOf_of_lookup (h : executionLookup answers id = .ok (some record)) :
    parentOf answers id = record.parentExecution := by
  simp only [parentOf,h]

theorem walk_of_lookup {fuel : ℕ} {visited : List String} (hid : id ∉ visited)
    (h : executionLookup answers id = .ok (some record)) :
    walk answers (fuel + 1) visited id = match record.parentExecution with
      | some parent => walk answers fuel (id :: visited) parent
      | none => .ok id := by
  cases hparent : record.parentExecution <;> simp only [walk,hid,h,hparent,if_false]

/-- The executions that the walk has visited are further from the root than the current one. -/
theorem walk_of_generation (hroot : executionLookup answers root = .ok (some record))
    (hparent : record.parentExecution = none) {n fuel : ℕ} {visited : List String}
    (h : Generation (parentOf answers) root id n)
    (hvisited : ∀ v ∈ visited, ∃ m, n < m ∧ Generation (parentOf answers) root v m)
    (hfuel : n ≤ fuel) : walk answers fuel visited id = .ok root := by
  have hnone : parentOf answers root = none := (parentOf_of_lookup hroot).trans hparent
  have hunvisited : id ∉ visited := by
    intro hid
    obtain ⟨m,hm,hgen⟩ := hvisited id hid
    have := h.unique hnone hgen
    omega
  induction h generalizing visited fuel with
  | root =>
    obtain ⟨fuel,rfl⟩ := Nat.exists_eq_add_of_le' hfuel
    rw [walk_of_lookup hunvisited hroot,hparent]
  | @child x p n above hx ih =>
    obtain ⟨fuel,rfl⟩ := Nat.exists_eq_add_of_le' (Nat.le_of_add_left_le hfuel)
    obtain ⟨xs,hlookup,hxs⟩ := lookup_of_parentOf hx
    rw [walk_of_lookup hunvisited hlookup,hxs]
    have hdeeper : ∀ v ∈ x :: visited, ∃ m, n < m ∧ Generation (parentOf answers) root v m := by
      intro v hv
      rcases List.mem_cons.mp hv with rfl | hv
      · exact ⟨n + 1,by omega,above.child hx⟩
      · obtain ⟨m,hm,hgen⟩ := hvisited v hv
        exact ⟨m,by omega,hgen⟩
    apply ih hdeeper (by omega)
    intro hp
    obtain ⟨m,hm,hgen⟩ := hdeeper p hp
    have := above.unique hnone hgen
    omega

theorem executionRoot_of_endsIn (h : EndsIn answers execution root) :
    executionRoot answers execution = .ok root := by
  obtain ⟨⟨record,hroot,hparent⟩,n,hgen⟩ := h
  have hn := hgen.le_length ((parentOf_of_lookup hroot).trans hparent) (mem_keys_of_lookup hroot)
    fun x p hx => mem_keys_of_lookup (lookup_of_parentOf hx).choose_spec.1
  exact walk_of_generation hroot hparent hgen (by simp) (by omega)

/-! ## What a command does -/

theorem get?_retain {K W : Type} [LinearOrder K] {m : BTreeMap K W} {keep : W → Bool} {k : K}
    {w : W} : (retain m keep).get? k = some w ↔ m.get? k = some w ∧ keep w := by
  simp only [retain,filter,get?_eq_some,List.mem_filter]
  constructor
  · rintro ⟨⟨hmem,hkeep⟩,rfl⟩
    rw [m.get?_of_mem hmem,Option.any_some] at hkeep
    exact ⟨⟨hmem,rfl⟩,hkeep⟩
  · rintro ⟨⟨hmem,rfl⟩,hkeep⟩
    refine ⟨⟨hmem,?_⟩,rfl⟩
    rwa [m.get?_of_mem hmem,Option.any_some]

/-- A turn binds a bound root to another connection. -/
def Rebinds (s : FrontendState) (turn : FrontendTurn V) : Prop :=
  match turn.command with
  | .bindRoot root c =>
    bindable turn.answers root c s = .ok () ∧ ∃ other, s.rootRoutes.get? root = some other ∧ other ≠ c
  | _ => False

/-- What a turn does to a state, and its outcome. -/
inductive Turned (s : FrontendState) :
    FrontendTurn V → EStateM.Result String FrontendState (FrontendResponse V) → Prop
  | unmoved (turn : FrontendTurn V) (error : String) (h : ∀ c, turn.command ≠ .disconnect c)
    (hbound : ¬Rebinds s turn) : Turned s turn (.error error s)
  | catalog (answers : Answers) : Turned s ⟨answers,.catalog⟩ (.ok (.providers (catalog s)) s)
  | advertised (answers : Answers) (c : String) (providers : List FrontendProviderDescriptor)
    (indexed : BTreeMap String FrontendProviderDescriptor) :
    Turned s ⟨answers,.setProviders c providers⟩
      (.ok .updated { s with providers := s.providers.insert c indexed })
  | disconnected (answers : Answers) (c : String) :
    Turned s ⟨answers,.disconnect c⟩ (disconnect c s)
  | bound (answers : Answers) (root c : String) (hlive : (s.providers.get? c).isSome)
    (hfree : s.rootRoutes.get? root = none) :
    Turned s ⟨answers,.bindRoot root c⟩
      (.ok .updated { s with rootRoutes := s.rootRoutes.insert root c })
  | rebound (answers : Answers) (root c other error : String)
    (hbindable : bindable answers root c s = .ok ()) (hlive : (s.providers.get? c).isSome)
    (hother : s.rootRoutes.get? root = some other) :
    Turned s ⟨answers,.bindRoot root c⟩
      (.error error { s with rootRoutes := s.rootRoutes.insert root c })
  | released (answers : Answers) (root : String) :
    Turned s ⟨answers,.releaseRoot root⟩
      (.ok .updated { s with rootRoutes := s.rootRoutes.erase root })
  | issued (turn : FrontendTurn V) (c provider method : String) (params : V)
    (h : ∀ c, turn.command ≠ .disconnect c) :
    Turned s turn (.ok (.request ⟨s.nextCorrelationId,c,provider,method,params⟩)
      { s with
        nextCorrelationId := s.nextCorrelationId + 1
        pending := s.pending.insert s.nextCorrelationId ⟨c⟩ })
  | completed (answers : Answers) (c : String) (id : ℕ) (result : V)
    (h : s.pending.get? id = some ⟨c⟩) :
    Turned s ⟨answers,.completeCall c id result⟩
      (.ok (.result ⟨id,result⟩) { s with pending := s.pending.erase id })

theorem check_bind_ok {ε σ α β : Type} {x : Except ε α} {f : α → EStateM ε σ β} {a : α} {s : σ}
    (h : x = .ok a) : (check x >>= f) s = f a s := by
  rw [h,stateful_bind,check_ok]

theorem check_bind_error {ε σ α β : Type} {x : Except ε α} {f : α → EStateM ε σ β} {e : ε} {s : σ}
    (h : x = .error e) : (check x >>= f) s = .error e s := by
  rw [h,stateful_bind,check_error]

/-- A call fails and changes nothing, or is issued under the next number. -/
theorem beginCall_cases (connectionId provider method : String) (params : V) (s : FrontendState) :
    (∃ error, beginCall connectionId provider method params s = .error error s) ∨
    beginCall connectionId provider method params s =
      .ok (.request ⟨s.nextCorrelationId,connectionId,provider,method,params⟩)
        { s with
          nextCorrelationId := s.nextCorrelationId + 1
          pending := s.pending.insert s.nextCorrelationId ⟨connectionId⟩ } := by
  unfold beginCall
  cases hconnection : validateId "frontend connection id" connectionId with
  | error error => exact .inl ⟨error,check_bind_error rfl⟩
  | ok _ =>
    cases hprovider : validateId "frontend provider id" provider with
    | error error => exact .inl ⟨error,rfl⟩
    | ok _ =>
      cases hmethod : validateId "frontend method" method with
      | error error => exact .inl ⟨error,rfl⟩
      | ok _ =>
        simp only [stateful_bind,check_ok,stateful_get]
        split
        · split
          · exact .inr rfl
          · exact .inl ⟨_,rfl⟩
        · exact .inl ⟨_,rfl⟩

theorem turned_beginCall (hturn : ∀ c, turn.command ≠ .disconnect c) (hbound : ¬Rebinds s turn)
    (connectionId provider method : String) (params : V) :
    Turned s turn (beginCall connectionId provider method params s) := by
  rcases beginCall_cases connectionId provider method params s with ⟨error,h⟩ | h
  · rw [h]
    exact .unmoved turn error hturn hbound
  · rw [h]
    exact .issued turn connectionId provider method params hturn

theorem live_of_bindable (h : bindable answers root c s = .ok ()) :
    (s.providers.get? c).isSome := by
  obtain ⟨-,-,h⟩ := bind_eq_ok.mp h
  by_contra hnone
  simp only [hnone] at h
  cases h

theorem turned_bindRoot (s : FrontendState) :
    Turned (V := V) s ⟨answers,.bindRoot root c⟩ (bindRoot answers root c s) := by
  unfold bindRoot
  rw [stateful_bind,stateful_get]
  dsimp only
  cases hbindable : bindable answers root c s with
  | error error =>
    rw [check_bind_error rfl]
    exact .unmoved _ error (by simp) (by simp [Rebinds,hbindable])
  | ok _ =>
    have hlive := live_of_bindable hbindable
    rw [check_bind_ok rfl]
    cases hroute : s.rootRoutes.get? root with
    | none => exact .bound answers root c hlive hroute
    | some other => exact .rebound answers root c other _ hbindable hlive hroute

theorem insert_erase {K W : Type} [LinearOrder K] {m : BTreeMap K W} {k : K} {w : W}
    (h : m.get? k = some w) : (m.erase k).insert k w = m := by
  ext j v
  by_cases hj : j = k
  · rw [hj,get?_insert_self,h]
  · rw [get?_insert_of_ne _ _ hj,get?_erase_of_ne _ hj]

/-- A call that is not completed stays pending. -/
theorem completeCall_eq (c : String) (id : ℕ) (result : V) (s : FrontendState) :
    completeCall c id result s = match s.pending.get? id with
      | none => .error s!"unknown frontend correlation id: {id}" s
      | some call =>
        if call.connectionId = c then
          .ok (.result ⟨id,result⟩) { s with pending := s.pending.erase id }
        else .error "frontend response came from the wrong connection" s := by
  unfold completeCall
  rw [stateful_bind,stateful_get]
  dsimp only
  cases hpending : s.pending.get? id with
  | none => rfl
  | some call =>
    by_cases hc : call.connectionId = c
    · simp [stateful_bind,hc]
    · simp only [stateful_bind,stateful_set,stateful_modify,if_pos hc,if_neg hc,
        insert_erase hpending]
      rfl

theorem turned_completeCall (answers : Answers) (c : String) (id : ℕ) (result : V)
    (s : FrontendState) :
    Turned s ⟨answers,.completeCall c id result⟩ (completeCall c id result s) := by
  rw [completeCall_eq]
  cases hpending : s.pending.get? id with
  | none => exact .unmoved _ _ (by simp) (by simp [Rebinds])
  | some call =>
    dsimp only
    split
    · subst c
      exact .completed answers call.connectionId id result hpending
    · exact .unmoved _ _ (by simp) (by simp [Rebinds])

theorem turned_setProviders (answers : Answers) (c : String)
    (providers : List FrontendProviderDescriptor) (s : FrontendState) :
    Turned (V := V) s ⟨answers,.setProviders c providers⟩ (setProviders c providers s) := by
  unfold setProviders
  cases hid : validateId "frontend connection id" c with
  | error error => exact .unmoved _ error (by simp) (by simp [Rebinds])
  | ok _ =>
    cases hindexed : indexProviders providers with
    | error error => exact .unmoved _ error (by simp) (by simp [Rebinds])
    | ok indexed => exact .advertised answers c providers indexed

theorem turned_beginExecutionCall (answers : Answers) (execution provider method : String)
    (params : V) (s : FrontendState) :
    Turned s ⟨answers,.beginExecutionCall execution provider method params⟩
      (beginExecutionCall answers execution provider method params s) := by
  unfold beginExecutionCall
  cases hroot : executionRoot answers execution with
  | error error => exact .unmoved _ error (by simp) (by simp [Rebinds])
  | ok root =>
    rw [check_bind_ok rfl,stateful_bind,stateful_get]
    dsimp only
    cases hroute : s.rootRoutes.get? root with
    | none => exact .unmoved _ _ (by simp) (by simp [Rebinds])
    | some c => exact turned_beginCall (by simp) (by simp [Rebinds]) c provider method params

theorem turned (s : FrontendState) (turn : FrontendTurn V) : Turned s turn (outcome s turn) := by
  obtain ⟨answers,command⟩ := turn
  unfold outcome
  cases command with
  | setProviders c providers => exact turned_setProviders answers c providers s
  | disconnect c => exact .disconnected answers c
  | catalog => exact .catalog answers
  | bindRoot root c => exact turned_bindRoot s
  | releaseRoot root => exact .released answers root
  | beginExecutionCall execution provider method params =>
    exact turned_beginExecutionCall answers execution provider method params s
  | beginDirectCall c provider method params =>
    exact turned_beginCall (by simp) (by simp [Rebinds]) c provider method params
  | completeCall c id result => exact turned_completeCall answers c id result s

/-! ## Maps after a command -/

section Turns
variable {r : EStateM.Result String FrontendState (FrontendResponse V)}

theorem Turned.of_provider (h : Turned s turn r) (hc : ((left r).providers.get? c).isSome) :
    ((s.providers.get? c).isSome ∧ turn.command ≠ .disconnect c) ∨
      ∃ answers providers t, turn = ⟨answers,.setProviders c providers⟩ ∧ r = .ok .updated t := by
  cases h with
  | advertised answers d providers indexed =>
    by_cases hd : c = d
    · subst d
      exact .inr ⟨answers,providers,_,rfl,rfl⟩
    · refine .inl ⟨?_,by simp⟩
      rwa [left,get?_insert_of_ne _ _ hd] at hc
  | disconnected answers d =>
    change ((s.providers.erase d).get? c).isSome at hc
    rw [get?_erase] at hc
    by_cases hd : c = d
    · simp [hd] at hc
    · exact .inl ⟨by simpa [hd] using hc,by simpa using Ne.symm hd⟩
  | unmoved _ _ hturn _ => exact .inl ⟨hc,hturn c⟩
  | issued _ _ _ _ _ hturn => exact .inl ⟨hc,hturn c⟩
  | catalog | bound | rebound | released | completed => exact .inl ⟨hc,by simp⟩

theorem Turned.keeps_provider (h : Turned s turn r) (hc : (s.providers.get? c).isSome)
    (hturn : turn.command ≠ .disconnect c) : ((left r).providers.get? c).isSome := by
  cases h with
  | advertised answers d providers indexed =>
    by_cases hd : c = d
    · simp [left,hd]
    · rwa [left,get?_insert_of_ne _ _ hd]
  | disconnected answers d =>
    change ((s.providers.erase d).get? c).isSome
    rwa [get?_erase_of_ne _ fun hd => hturn (by rw [hd])]
  | unmoved | issued | catalog | bound | rebound | released | completed => exact hc

/-- A new route leads to a live connection. -/
theorem Turned.of_route (h : Turned s turn r) (hroute : (left r).rootRoutes.get? root = some c) :
    (s.rootRoutes.get? root = some c ∨ (s.providers.get? c).isSome) ∧
      turn.command ≠ .disconnect c := by
  cases h with
  | bound answers root' d hlive hfree =>
    refine ⟨?_,by simp⟩
    by_cases hr : root = root'
    · rw [left,hr,get?_insert_self] at hroute
      exact .inr (Option.some.inj hroute ▸ hlive)
    · rw [left,get?_insert_of_ne _ _ hr] at hroute
      exact .inl hroute
  | rebound answers root' d other error hbindable hlive hother =>
    refine ⟨?_,by simp⟩
    by_cases hr : root = root'
    · rw [left,hr,get?_insert_self] at hroute
      exact .inr (Option.some.inj hroute ▸ hlive)
    · rw [left,get?_insert_of_ne _ _ hr] at hroute
      exact .inl hroute
  | released answers root' =>
    refine ⟨.inl ?_,by simp⟩
    by_cases hr : root = root'
    · simp [left,hr] at hroute
    · rwa [left,get?_erase_of_ne _ hr] at hroute
  | disconnected answers d =>
    obtain ⟨hbefore,hkeep⟩ := get?_retain.mp hroute
    exact ⟨.inl hbefore,by simpa using Ne.symm (of_decide_eq_true hkeep)⟩
  | unmoved _ _ hturn _ => exact ⟨.inl hroute,hturn c⟩
  | issued _ _ _ _ _ hturn => exact ⟨.inl hroute,hturn c⟩
  | catalog | advertised | completed => exact ⟨.inl hroute,by simp⟩

theorem Turned.of_pending {id : ℕ} {call : PendingCall} (h : Turned s turn r)
    (hcall : (left r).pending.get? id = some call) :
    (s.pending.get? id = some call ∧ turn.command ≠ .disconnect call.connectionId) ∨
      ∃ request t, r = .ok (.request request) t ∧ request.correlationId = id ∧
        request.connectionId = call.connectionId ∧ id = s.nextCorrelationId := by
  cases h with
  | issued _ d provider method params hturn =>
    by_cases hid : id = s.nextCorrelationId
    · rw [left,hid,get?_insert_self] at hcall
      obtain rfl := Option.some.inj hcall
      exact .inr ⟨_,_,rfl,hid.symm,rfl,hid⟩
    · rw [left,get?_insert_of_ne _ _ hid] at hcall
      exact .inl ⟨hcall,hturn _⟩
  | completed answers d id' result hbefore =>
    by_cases hid : id = id'
    · simp [left,hid] at hcall
    · rw [left,get?_erase_of_ne _ hid] at hcall
      exact .inl ⟨hcall,by simp⟩
  | disconnected answers d =>
    obtain ⟨hbefore,hkeep⟩ := get?_retain.mp hcall
    exact .inl ⟨hbefore,by simpa using Ne.symm (of_decide_eq_true hkeep)⟩
  | unmoved _ _ hturn _ => exact .inl ⟨hcall,hturn _⟩
  | catalog | advertised | bound | rebound | released => exact .inl ⟨hcall,by simp⟩

end Turns

/-! ## Histories -/

/-- The number of the request that a turn issues. -/
def issued (s : FrontendState) (turn : FrontendTurn V) : List ℕ :=
  match outcome s turn with
  | .ok (.request request) _ => [request.correlationId]
  | _ => []

/-- The number of the request that a turn completes. -/
def completed (s : FrontendState) (turn : FrontendTurn V) : List ℕ :=
  match outcome s turn with
  | .ok (.result result) _ => [result.correlationId]
  | _ => []

/-- A connection has advertised providers and has not disconnected since. -/
def Connected (turns : List (FrontendTurn V)) (c : String) : Prop :=
  ∃ earlier answers providers later,
    turns = earlier ++ ⟨answers,.setProviders c providers⟩ :: later ∧
    (∃ t, outcome (afterTurns earlier) (⟨answers,.setProviders c providers⟩ : FrontendTurn V) =
      .ok .updated t) ∧
    ∀ turn ∈ later, turn.command ≠ .disconnect c

/-- A request was sent to a connection, which has not disconnected since. -/
def Sent (turns : List (FrontendTurn V)) (id : ℕ) (c : String) : Prop :=
  ∃ earlier turn later request t, turns = earlier ++ turn :: later ∧
    outcome (afterTurns earlier) turn = .ok (.request request) t ∧
    request.correlationId = id ∧ request.connectionId = c ∧
    ∀ turn ∈ later, turn.command ≠ .disconnect c

theorem afterTurns_concat (turns : List (FrontendTurn V)) (turn : FrontendTurn V) :
    afterTurns (turns ++ [turn]) = next (afterTurns turns) turn := by
  rw [afterTurns,runAll_append,runAll_cons,runAll_nil,afterTurns]

theorem Connected.concat (h : Connected turns c) (hturn : turn.command ≠ .disconnect c) :
    Connected (turns ++ [turn]) c := by
  obtain ⟨earlier,answers,providers,later,rfl,hok,hlater⟩ := h
  refine ⟨earlier,answers,providers,later ++ [turn],by simp,hok,?_⟩
  simpa [or_imp,forall_and] using ⟨hlater,hturn⟩

theorem Sent.concat {n : ℕ} (h : Sent turns n c) (hturn : turn.command ≠ .disconnect c) :
    Sent (turns ++ [turn]) n c := by
  obtain ⟨earlier,turn',later,request,t,rfl,hok,hid,hc,hlater⟩ := h
  refine ⟨earlier,turn',later ++ [turn],request,t,by simp,hok,hid,hc,?_⟩
  simpa [or_imp,forall_and] using ⟨hlater,hturn⟩

/-- What the state after a history says about the history. -/
structure Recorded (turns : List (FrontendTurn V)) : Prop where
  connected : ∀ c, ((afterTurns turns).providers.get? c).isSome → Connected turns c
  live : ∀ root c, (afterTurns turns).rootRoutes.get? root = some c →
    ((afterTurns turns).providers.get? c).isSome
  sent : ∀ id call, (afterTurns turns).pending.get? id = some call →
    Sent turns id call.connectionId
  pendingBelow : ∀ id call, (afterTurns turns).pending.get? id = some call →
    id < (afterTurns turns).nextCorrelationId
  issuedBelow : ∀ id ∈ outputs next issued .start turns, id < (afterTurns turns).nextCorrelationId
  issuedOnce : (outputs next issued .start turns).Nodup
  completedBelow : ∀ id ∈ outputs next completed .start turns,
    id < (afterTurns turns).nextCorrelationId ∧ (afterTurns turns).pending.get? id = none
  completedOnce : (outputs next completed .start turns).Nodup

theorem outputs_concat (out : FrontendState → FrontendTurn V → List ℕ)
    (turns : List (FrontendTurn V)) (turn : FrontendTurn V) :
    outputs next out .start (turns ++ [turn]) =
      outputs next out .start turns ++ out (afterTurns turns) turn := by
  rw [outputs_append,outputs,outputs,List.append_nil,afterTurns]

/-- The counter grows past what is issued, and nothing else is issued. -/
theorem issued_cases (s : FrontendState) (turn : FrontendTurn V) :
    (issued s turn = [] ∧ (next s turn).nextCorrelationId = s.nextCorrelationId) ∨
      (issued s turn = [s.nextCorrelationId] ∧
        (next s turn).nextCorrelationId = s.nextCorrelationId + 1) := by
  have h := turned s turn
  unfold issued next
  generalize outcome s turn = r at h ⊢
  cases h with
  | issued => exact .inr ⟨rfl,rfl⟩
  | _ => exact .inl ⟨rfl,rfl⟩

/-- What is completed was pending and is not pending any more. -/
theorem completed_cases (s : FrontendState) (turn : FrontendTurn V) :
    completed s turn = [] ∨ ∃ id call, completed s turn = [id] ∧ s.pending.get? id = some call ∧
      (next s turn).pending.get? id = none := by
  have h := turned s turn
  unfold completed next
  generalize outcome s turn = r at h ⊢
  cases h with
  | completed answers c id result h =>
    exact .inr ⟨id,⟨c⟩,rfl,h,get?_erase_self _ _⟩
  | _ => exact .inl rfl

theorem nextCorrelationId_le (s : FrontendState) (turn : FrontendTurn V) :
    s.nextCorrelationId ≤ (next s turn).nextCorrelationId := by
  rcases issued_cases s turn with ⟨-,h⟩ | ⟨-,h⟩ <;> omega

theorem Recorded.concat (h : Recorded turns) (turn : FrontendTurn V) :
    Recorded (turns ++ [turn]) := by
  have hturned := turned (afterTurns turns) turn
  have hgrows := nextCorrelationId_le (afterTurns turns) turn
  constructor
  · intro c hc
    rw [afterTurns_concat] at hc
    rcases hturned.of_provider hc with ⟨hbefore,hturn⟩ | ⟨answers,providers,t,rfl,hok⟩
    · exact (h.connected c hbefore).concat hturn
    · exact ⟨turns,answers,providers,[],rfl,⟨t,hok⟩,by simp⟩
  · intro root c hroute
    rw [afterTurns_concat] at hroute ⊢
    obtain ⟨hbefore | hlive,hturn⟩ := hturned.of_route hroute
    · exact hturned.keeps_provider (h.live root c hbefore) hturn
    · exact hturned.keeps_provider hlive hturn
  · intro id call hcall
    rw [afterTurns_concat] at hcall
    rcases hturned.of_pending hcall with ⟨hbefore,hturn⟩ | ⟨request,t,hok,hid,hc,-⟩
    · exact (h.sent id call hbefore).concat hturn
    · exact ⟨turns,turn,[],request,t,rfl,hok,hid,hc,by simp⟩
  · intro id call hcall
    have hnew := hcall
    rw [afterTurns_concat] at hcall ⊢
    rcases hturned.of_pending hcall with ⟨hbefore,-⟩ | ⟨request,t,hok,-,-,hid⟩
    · exact (h.pendingBelow id call hbefore).trans_le hgrows
    · rcases issued_cases (afterTurns turns) turn with ⟨hnone,-⟩ | ⟨-,hnext⟩
      · simp [issued,hok] at hnone
      · omega
  · intro id hid
    rw [outputs_concat,List.mem_append] at hid
    rw [afterTurns_concat]
    rcases hid with hid | hid
    · exact (h.issuedBelow id hid).trans_le hgrows
    · rcases issued_cases (afterTurns turns) turn with ⟨hnone,-⟩ | ⟨hone,hnext⟩
      · simp [hnone] at hid
      · rw [hone,List.mem_singleton] at hid
        omega
  · rw [outputs_concat]
    rcases issued_cases (afterTurns turns) turn with ⟨hnone,-⟩ | ⟨hone,-⟩
    · simpa [hnone] using h.issuedOnce
    · rw [hone]
      refine h.issuedOnce.append (List.nodup_singleton _) ?_
      rw [List.disjoint_singleton]
      exact fun hmem => (h.issuedBelow _ hmem).ne rfl
  · intro id hid
    rw [outputs_concat,List.mem_append] at hid
    rw [afterTurns_concat]
    rcases hid with hid | hid
    · obtain ⟨hbelow,hgone⟩ := h.completedBelow id hid
      refine ⟨hbelow.trans_le hgrows,Option.eq_none_iff_forall_ne_some.mpr fun call hcall => ?_⟩
      rcases hturned.of_pending hcall with ⟨hbefore,-⟩ | ⟨-,-,-,-,-,hnew⟩
      · cases hgone.symm.trans hbefore
      · omega
    · rcases completed_cases (afterTurns turns) turn with hnone | ⟨n,call,hone,hcall,hgone⟩
      · simp [hnone] at hid
      · rw [hone,List.mem_singleton] at hid
        subst id
        exact ⟨(h.pendingBelow n call hcall).trans_le hgrows,hgone⟩
  · rw [outputs_concat]
    rcases completed_cases (afterTurns turns) turn with hnone | ⟨n,call,hone,hcall,-⟩
    · simpa [hnone] using h.completedOnce
    · rw [hone]
      refine h.completedOnce.append (List.nodup_singleton _) ?_
      rw [List.disjoint_singleton]
      intro hmem
      cases (h.completedBelow n hmem).2.symm.trans hcall

theorem recorded (turns : List (FrontendTurn V)) : Recorded turns := by
  induction turns using List.reverseRecOn with
  | nil =>
    constructor <;> simp [afterTurns,FrontendState.start,outputs]
  | append_singleton turns turn ih => exact ih.concat turn

/-! ## Exclusive routing -/

/-- Providers, root routes and pending calls are the same. -/
def Unmoved (s t : FrontendState) : Prop :=
  t.providers = s.providers ∧ t.rootRoutes = s.rootRoutes ∧ t.pending = s.pending

/-- The routing of a run. -/
structure Exclusive (turns : List (FrontendTurn V)) : Prop where
  atomic : ∀ before turn, before ++ [turn] <+: turns →
    ∀ error t, outcome (afterTurns before) turn = .error error t → Unmoved (afterTurns before) t
  advertised : ∀ before, before <+: turns →
    ∀ root c, (afterTurns before).rootRoutes.get? root = some c → Connected before c
  kept : ∀ before between, before ++ between <+: turns →
    ∀ root c, (afterTurns before).rootRoutes.get? root = some c →
      (∀ turn ∈ between, turn.command ≠ .releaseRoot root ∧ turn.command ≠ .disconnect c) →
      (afterTurns (before ++ between)).rootRoutes.get? root = some c
  issuedOnce : (outputs next issued .start turns).Nodup
  completedOnce : (outputs next completed .start turns).Nodup
  owned : ∀ before turn, before ++ [turn] <+: turns →
    ∀ result t, outcome (afterTurns before) turn = .ok (.result result) t →
      ∃ c, turn.command = .completeCall c result.correlationId result.result ∧
        Sent before result.correlationId c
  addressed : ∀ before, before <+: turns → ∀ answers execution root c provider method params,
    EndsIn answers execution root → (afterTurns before).rootRoutes.get? root = some c →
      outcome (afterTurns before) (⟨answers,.beginExecutionCall execution provider method params⟩ :
        FrontendTurn V) =
      outcome (afterTurns before) ⟨answers,.beginDirectCall c provider method params⟩ ∧
      ∀ response t, outcome (afterTurns before)
        (⟨answers,.beginDirectCall c provider method params⟩ : FrontendTurn V) = .ok response t →
        ∃ id, response = .request ⟨id,c,provider,method,params⟩

/-- A failing turn leaves the maps as they were, unless it binds a bound root to another
connection. -/
theorem unmoved_iff {error : String} (h : outcome s turn = .error error t) :
    Unmoved s t ↔ ¬Rebinds s turn := by
  have hturned := turned s turn
  rw [h] at hturned
  cases hturned with
  | unmoved _ _ _ hbound => exact iff_of_true ⟨rfl,rfl,rfl⟩ hbound
  | rebound answers root c other _ hbindable hlive hother =>
    by_cases hc : other = c
    · subst c
      refine iff_of_true ⟨rfl,insert_of_get? _ hother,rfl⟩ ?_
      rintro ⟨-,other',hother',hne⟩
      exact hne (Option.some.inj (hother'.symm.trans hother))
    · refine iff_of_false ?_ (not_not_intro ⟨hbindable,other,hother,hc⟩)
      rintro ⟨-,hroutes,-⟩
      have hroute := congrArg (fun m => m.get? root) hroutes
      rw [get?_insert_self,hother] at hroute
      exact hc (Option.some.inj hroute).symm

theorem Turned.keeps_route {r : EStateM.Result String FrontendState (FrontendResponse V)}
    (h : Turned s turn r) (hroute : s.rootRoutes.get? root = some c) (hbound : ¬Rebinds s turn)
    (hreleased : turn.command ≠ .releaseRoot root) (hturn : turn.command ≠ .disconnect c) :
    (left r).rootRoutes.get? root = some c := by
  cases h with
  | bound answers root' d hlive hfree =>
    rwa [left,get?_insert_of_ne]
    rintro rfl
    cases hfree.symm.trans hroute
  | rebound answers root' d other error hbindable hlive hother =>
    by_cases hr : root = root'
    · subst root'
      obtain rfl := Option.some.inj (hother.symm.trans hroute)
      by_cases hd : other = d
      · rw [left,hd,get?_insert_self]
      · exact absurd ⟨hbindable,other,hother,hd⟩ hbound
    · rwa [left,get?_insert_of_ne _ _ hr]
  | released answers root' =>
    rwa [left,get?_erase_of_ne _ fun hr => hreleased (by rw [hr])]
  | disconnected answers d =>
    exact get?_retain.mpr ⟨hroute,decide_eq_true fun hd => hturn (by rw [hd])⟩
  | unmoved | issued | catalog | advertised | completed => exact hroute

theorem kept_of_along {between : List (FrontendTurn V)}
    (h : Along next (fun s turn => ¬Rebinds s turn) s between)
    (hroute : s.rootRoutes.get? root = some c)
    (hbetween : ∀ turn ∈ between, turn.command ≠ .releaseRoot root ∧ turn.command ≠ .disconnect c) :
    (runAll next s between).rootRoutes.get? root = some c := by
  induction between generalizing s with
  | nil => exact hroute
  | cons turn between ih =>
    rw [List.forall_mem_cons] at hbetween
    have hnext := (turned s turn).keeps_route hroute h.1 hbetween.1.1 hbetween.1.2
    exact ih h.2 hnext hbetween.2

/-- A result goes to the connection that the completed call was pending for. -/
theorem Turned.of_result {result : FrontendServiceResult V} (h : Turned s turn (.ok (.result result) t)) :
    ∃ c, turn.command = .completeCall c result.correlationId result.result ∧
      s.pending.get? result.correlationId = some ⟨c⟩ := by
  cases h with
  | completed answers c id result h => exact ⟨c,rfl,h⟩

theorem outcome_beginExecutionCall (hends : EndsIn answers execution root)
    (hroute : s.rootRoutes.get? root = some c) (provider method : String) (params : V) :
    outcome s ⟨answers,.beginExecutionCall execution provider method params⟩ =
      outcome s ⟨answers,.beginDirectCall c provider method params⟩ := by
  change beginExecutionCall answers execution provider method params s =
    beginCall c provider method params s
  rw [beginExecutionCall,check_bind_ok (executionRoot_of_endsIn hends),stateful_bind,stateful_get]
  dsimp only
  rw [hroute]

theorem fails_of_rebinds (h : Rebinds s turn) : ∃ error t, outcome s turn = .error error t := by
  obtain ⟨answers,command⟩ := turn
  cases command with
  | bindRoot root c =>
    obtain ⟨hbindable,other,hother,-⟩ := h
    refine ⟨s!"root execution already has a frontend route: {root}",
      { s with rootRoutes := s.rootRoutes.insert root c },?_⟩
    change bindRoot answers root c s = _
    rw [bindRoot,stateful_bind,stateful_get]
    dsimp only
    rw [check_bind_ok hbindable,hother]
    rfl
  | _ => exact h.elim

/-- A run routes exclusively exactly when it never binds a bound root to another connection. -/
theorem routing_exclusive (turns : List (FrontendTurn V)) :
    Exclusive turns ↔ Along next (fun s turn => ¬Rebinds s turn) .start turns := by
  constructor
  · intro h
    refine along_iff.mpr fun before turn hturn hrebinds => ?_
    obtain ⟨error,t,hfails⟩ := fails_of_rebinds hrebinds
    exact (unmoved_iff hfails).mp (h.atomic before turn hturn error t hfails) hrebinds
  · intro h
    constructor
    · intro before turn hturn error t hfails
      exact (unmoved_iff hfails).mpr (along_iff.mp h before turn hturn)
    · intro before _ root c hroute
      exact (recorded before).connected c ((recorded before).live root c hroute)
    · intro before between hprefix root c hroute hbetween
      obtain ⟨later,rfl⟩ := hprefix
      rw [List.append_assoc,along_append,along_append] at h
      rw [afterTurns,runAll_append]
      exact kept_of_along h.2.1 hroute hbetween
    · exact (recorded turns).issuedOnce
    · exact (recorded turns).completedOnce
    · intro before turn _ result t hok
      have hturned := turned (afterTurns before) turn
      rw [hok] at hturned
      obtain ⟨c,hcommand,hpending⟩ := hturned.of_result
      exact ⟨c,hcommand,(recorded before).sent _ _ hpending⟩
    · intro before _ answers execution root c provider method params hends hroute
      refine ⟨outcome_beginExecutionCall hends hroute provider method params,?_⟩
      intro response t hok
      change beginCall c provider method params (afterTurns before) = _ at hok
      rcases beginCall_cases c provider method params (afterTurns before) with ⟨error,h⟩ | h
      · cases h.symm.trans hok
      · cases h.symm.trans hok
        exact ⟨_,rfl⟩

/-- An active root execution is bound to a connection. -/
def binding (c : String) : FrontendTurn Unit where
  answers := .ofList [("root",.ok (some ⟨"root",none,"",⟨.empty⟩,.active⟩))]
  command := .bindRoot "root" c

/-- The second of two connections takes over the root, though its command fails. -/
theorem rebound_exclusive : ¬Exclusive
    [⟨.empty,.setProviders "a" []⟩,⟨.empty,.setProviders "b" []⟩,binding "a",binding "b"] := by
  intro h
  have hrebinds : Rebinds (afterTurns [⟨.empty,.setProviders "a" []⟩,
      ⟨.empty,.setProviders "b" []⟩,binding "a"]) (binding "b") :=
    ⟨by decide +kernel,"a",by decide +kernel,by decide⟩
  obtain ⟨error,t,hfails⟩ := fails_of_rebinds hrebinds
  exact (unmoved_iff hfails).mp (h.atomic [_,_,_] _ List.prefix_rfl error t hfails) hrebinds

end PhenixConductor.Frontend
