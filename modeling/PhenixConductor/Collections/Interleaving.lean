import PhenixConductor.Collections.Transactions

/-! # Programs side by side

Programs that are started one after another share one state.
-/
namespace PhenixConductor.Collections
variable {R : Type} {A : R → Type} {ε α β X C S : Type}

/-- The requests of a program with their answers, newest first. -/
abbrev Log (A : R → Type) := List (Σ r, A r)

/-- A program under way, with the command that it was started for. -/
structure Process (X : Type) (A : R → Type) (ε α : Type) where
  command : X
  rest : Script R A ε α
  log : Log A

structure Pool (X : Type) (A : R → Type) (ε α S : Type) where
  state : S
  processes : List (Process X A ε α)

/-- A program starts, or the one with this number makes its next request, which the surroundings
serve under their choice. -/
inductive PoolEvent (X C : Type)
  | start (x : X)
  | turn (i : ℕ) (c : C)

section Steps
variable (serve : C → (r : R) → S → A r × S) (program : X → Script R A ε α)

def Process.turn (c : C) (s : S) : Process X A ε α → Process X A ε α × S
  | ⟨x,.done result,log⟩ => (⟨x,.done result,log⟩,s)
  | ⟨x,.request r next,log⟩ =>
    (⟨x,next (serve c r s).1,⟨r,(serve c r s).1⟩ :: log⟩,(serve c r s).2)

def Pool.step (pool : Pool X A ε α S) : PoolEvent X C → Pool X A ε α S
  | .start x => { pool with processes := pool.processes ++ [⟨x,program x,[]⟩] }
  | .turn i c =>
    match pool.processes[i]? with
    | none => pool
    | some process =>
      ⟨(process.turn serve c pool.state).2,
        pool.processes.set i (process.turn serve c pool.state).1⟩

/-- A request that is made by an event meets a condition. -/
def Pool.Turn (ok : X → Log A → C → (r : R) → S → Prop) (pool : Pool X A ε α S) :
    PoolEvent X C → Prop
  | .start _ => True
  | .turn i c => ∀ x log r next, pool.processes[i]? = some ⟨x,.request r next,log⟩ →
    ok x log c r pool.state

instance Pool.Turn.decidable (ok : X → Log A → C → (r : R) → S → Prop)
    [∀ x log c r s, Decidable (ok x log c r s)] (pool : Pool X A ε α S) :
    (event : PoolEvent X C) → Decidable (pool.Turn ok event)
  | .start _ => .isTrue trivial
  | .turn i c =>
    match h : pool.processes[i]? with
    | none => .isTrue fun x log r next hi => by simp [h] at hi
    | some ⟨_,.done _,_⟩ => .isTrue fun x log r next hi => by simp [h] at hi
    | some ⟨x,.request r next,log⟩ => decidable_of_iff (ok x log c r pool.state) ⟨
        fun hok x' log' r' next' hi => by
          obtain ⟨rfl,⟨rfl,-⟩,rfl⟩ : x = x' ∧ (r = r' ∧ _) ∧ log = log' := by simpa [h] using hi
          exact hok,
        fun hturn => hturn x log r next h⟩

theorem Pool.Turn.mono {ok ok' : X → Log A → C → (r : R) → S → Prop} {pool : Pool X A ε α S}
    {event : PoolEvent X C} (h : pool.Turn ok event)
    (himp : ∀ x log c r s, ok x log c r s → ok' x log c r s) : pool.Turn ok' event := by
  cases event with
  | start x => trivial
  | turn i c => exact fun x log r next hi => himp x log c r _ (h x log r next hi)

variable {serve program}

/-- An event changes the state as a request does, or not at all. -/
theorem Pool.Turn.state {changes : S → S → Prop} {pool : Pool X A ε α S} {event : PoolEvent X C}
    (h : pool.Turn (fun _ _ c r s => changes s (serve c r s).2) event)
    (hrefl : changes pool.state pool.state) :
    changes pool.state (pool.step serve program event).state := by
  cases event with
  | start x => exact hrefl
  | turn i c =>
    cases hi : pool.processes[i]? with
    | none => simpa [Pool.step,hi] using hrefl
    | some process =>
      obtain ⟨x,_ | ⟨r,next⟩,log⟩ := process
      · simpa [Pool.step,hi,Process.turn] using hrefl
      · simpa [Pool.step,hi,Process.turn] using h x log r next hi

end Steps

section Cooperation
variable (serve : C → (r : R) → S → A r × S) (rely : S → S → Prop)
  (allowed : Log A → C → (r : R) → S → Prop) (guarantee : Log A → C → (r : R) → S → S → Prop)

/-- At every request the state has changed as relied on, the choice is allowed, and the request
changes the state as guaranteed. -/
def Cooperates (post : Except ε α → Log A → S → Prop) : Script R A ε α → Log A → S → Prop
  | .done result, log, s => post result log s
  | .request r next, log, s => ∀ t, rely s t → ∀ c, allowed log c r t →
    guarantee log c r t (serve c r t).2 ∧
      Cooperates post (next (serve c r t).1) (⟨r,(serve c r t).1⟩ :: log) (serve c r t).2

variable {serve rely allowed guarantee}

/-- A result that is there fails well, or the rest goes on with it. -/
theorem cooperates_ofExcept_bind {post : Except ε β → Log A → S → Prop} {result : Except ε α}
    {f : α → Script R A ε β} {log : Log A} {s : S}
    (herror : ∀ e, result = .error e → post (.error e) log s)
    (hok : ∀ a, result = .ok a → Cooperates serve rely allowed guarantee post (f a) log s) :
    Cooperates serve rely allowed guarantee post (Script.ofExcept result >>= f) log s := by
  cases result with
  | error e => exact herror e rfl
  | ok a => exact hok a rfl

/-- A program goes on well after a change that it relies on. -/
theorem Cooperates.relied {post : Except ε α → Log A → S → Prop} {p : Script R A ε α}
    {log : Log A} {s t : S} (h : Cooperates serve rely allowed guarantee post p log s)
    (htrans : ∀ s t u, rely s t → rely t u → rely s u)
    (hpost : ∀ result log s t, post result log s → rely s t → post result log t)
    (ht : rely s t) : Cooperates serve rely allowed guarantee post p log t := by
  cases p with
  | done result => exact hpost result log s t h ht
  | request r next => exact fun u hu => h u (htrans s t u ht hu)

end Cooperation

/-- What makes the programs of a pool work together: each one that may start cooperates from every
state with the invariant, and what one guarantees is what the others rely on. -/
structure Teamwork (serve : C → (r : R) → S → A r × S) (program : X → Script R A ε α)
    (startable : X → Prop) (invariant : S → Prop) (rely : S → S → Prop)
    (allowed : X → Log A → C → (r : R) → S → Prop)
    (guarantee : X → Log A → C → (r : R) → S → S → Prop) : Prop where
  refl : ∀ s, invariant s → rely s s
  trans : ∀ s t u, rely s t → rely t u → rely s u
  keeps : ∀ s t, rely s t → invariant s → invariant t
  provides : ∀ x log c r s t, startable x → invariant s → guarantee x log c r s t → rely s t
  starts : ∀ x s, startable x → invariant s →
    Cooperates serve rely (allowed x) (guarantee x) (fun _ _ _ => True) (program x) [] s

namespace Teamwork
variable {serve : C → (r : R) → S → A r × S} {program : X → Script R A ε α}
  {startable : X → Prop} {invariant : S → Prop} {rely : S → S → Prop}
  {allowed : X → Log A → C → (r : R) → S → Prop} {guarantee : X → Log A → C → (r : R) → S → S → Prop}

/-- Every program of the pool cooperates from now on. -/
structure Working (serve : C → (r : R) → S → A r × S) (startable : X → Prop)
    (invariant : S → Prop) (rely : S → S → Prop)
    (allowed : X → Log A → C → (r : R) → S → Prop)
    (guarantee : X → Log A → C → (r : R) → S → S → Prop) (pool : Pool X A ε α S) : Prop where
  invariant : invariant pool.state
  startable : ∀ process ∈ pool.processes, startable process.command
  cooperates : ∀ process ∈ pool.processes,
    Cooperates serve rely (allowed process.command) (guarantee process.command)
      (fun _ _ _ => True) process.rest process.log pool.state

/-- One event: the pool goes on working, its state changes as relied on, and a request as
guaranteed. -/
theorem step (h : Teamwork serve program startable invariant rely allowed guarantee)
    {pool : Pool X A ε α S}
    (hpool : Working serve startable invariant rely allowed guarantee pool)
    (event : PoolEvent X C) (hstart : ∀ x, event = .start x → startable x)
    (hturn : pool.Turn allowed event) :
    Working serve startable invariant rely allowed guarantee (pool.step serve program event) ∧
      rely pool.state (pool.step serve program event).state ∧
      pool.Turn (fun x log c r s => guarantee x log c r s (serve c r s).2) event := by
  have hrefl : rely pool.state pool.state := h.refl _ hpool.invariant
  cases event with
  | start x =>
    have hx := hstart x rfl
    refine ⟨⟨hpool.invariant,?_,?_⟩,hrefl,trivial⟩
    · intro process hprocess
      rcases List.mem_append.mp hprocess with hprocess | hprocess
      · exact hpool.startable process hprocess
      · rw [List.mem_singleton.mp hprocess]
        exact hx
    · intro process hprocess
      rcases List.mem_append.mp hprocess with hprocess | hprocess
      · exact hpool.cooperates process hprocess
      · rw [List.mem_singleton.mp hprocess]
        exact h.starts x _ hx hpool.invariant
  | turn i c =>
    cases hi : pool.processes[i]? with
    | none =>
      rw [show pool.step serve program (.turn i c) = pool by simp [Pool.step,hi]]
      exact ⟨hpool,hrefl,fun x log r next hnext => by simp [hi] at hnext⟩
    | some process =>
      obtain ⟨x,rest,log⟩ := process
      have hlength := (List.getElem?_eq_some_iff.mp hi).1
      have hmem := List.mem_of_getElem? hi
      cases rest with
      | done result =>
        have hsame : pool.step serve program (.turn i c) = pool := by
          have hset : pool.processes.set i ⟨x,.done result,log⟩ = pool.processes := by
            rw [← (List.getElem?_eq_some_iff.mp hi).2]
            exact List.set_getElem_self hlength
          simp [Pool.step,hi,Process.turn,hset]
        rw [hsame]
        exact ⟨hpool,hrefl,fun x log r next hnext => by simp [hi] at hnext⟩
      | request r next =>
        have hx : startable x := hpool.startable _ hmem
        have hthis := hpool.cooperates _ hmem pool.state hrefl c (hturn x log r next hi)
        have hrely := h.provides x log c r _ _ hx hpool.invariant hthis.1
        have hstep : pool.step serve program (.turn i c) =
            ⟨(serve c r pool.state).2,pool.processes.set i
              ⟨x,next (serve c r pool.state).1,⟨r,(serve c r pool.state).1⟩ :: log⟩⟩ := by
          simp [Pool.step,hi,Process.turn]
        rw [hstep]
        refine ⟨⟨h.keeps _ _ hrely hpool.invariant,?_,?_⟩,hrely,?_⟩
        · intro process hprocess
          rcases List.mem_or_eq_of_mem_set hprocess with hprocess | rfl
          · exact hpool.startable process hprocess
          · exact hx
        · intro process hprocess
          rcases List.mem_or_eq_of_mem_set hprocess with hprocess | rfl
          · exact (hpool.cooperates process hprocess).relied h.trans (fun _ _ _ _ _ _ => trivial)
              hrely
          · exact hthis.2
        · intro x' log' r' next' hnext
          obtain ⟨rfl,⟨rfl,-⟩,rfl⟩ : x = x' ∧ (r = r' ∧ _) ∧ log = log' := by
            simpa [hi] using hnext
          exact hthis.1

/-- A whole run: the pool goes on working, its state changes as relied on, and every request on the
way as guaranteed. -/
theorem run (h : Teamwork serve program startable invariant rely allowed guarantee)
    {pool : Pool X A ε α S}
    (hpool : Working serve startable invariant rely allowed guarantee pool)
    {events : List (PoolEvent X C)} (hstarts : ∀ x, .start x ∈ events → startable x)
    (hturns : Along (Pool.step serve program) (fun pool event => pool.Turn allowed event)
      pool events) :
    Working serve startable invariant rely allowed guarantee
        (runAll (Pool.step serve program) pool events) ∧
      rely pool.state (runAll (Pool.step serve program) pool events).state ∧
      Along (Pool.step serve program)
        (fun pool event =>
          pool.Turn (fun x log c r s => guarantee x log c r s (serve c r s).2) event)
        pool events := by
  induction events generalizing pool with
  | nil => exact ⟨hpool,h.refl _ hpool.invariant,trivial⟩
  | cons event events ih =>
    have hfirst : ∀ x, event = .start x → startable x :=
      fun x hx => hstarts x (hx ▸ List.mem_cons_self)
    obtain ⟨hworking,hrely,hturn⟩ := h.step hpool event hfirst hturns.1
    obtain ⟨hend,hlater,halong⟩ := ih hworking
      (fun x hx => hstarts x (List.mem_cons_of_mem _ hx)) hturns.2
    exact ⟨hend,h.trans _ _ _ hrely hlater,hturn,halong⟩

/-- Nothing is under way in a state with the invariant. -/
theorem working_idle {s : S} (hs : invariant s) :
    Working serve startable invariant rely allowed guarantee
      (⟨s,[]⟩ : Pool X A ε α S) :=
  ⟨hs,by simp,by simp⟩

/-- From one moment of a run to a later one the state changes as relied on. -/
theorem run_between (h : Teamwork serve program startable invariant rely allowed guarantee)
    {pool : Pool X A ε α S}
    (hpool : Working serve startable invariant rely allowed guarantee pool)
    {before after : List (PoolEvent X C)}
    (hstarts : ∀ x, .start x ∈ before ++ after → startable x)
    (hturns : Along (Pool.step serve program) (fun pool event => pool.Turn allowed event)
      pool (before ++ after)) :
    rely (runAll (Pool.step serve program) pool before).state
      (runAll (Pool.step serve program) pool (before ++ after)).state := by
  obtain ⟨hbefore,hafter⟩ := along_append.mp hturns
  have hmiddle := (h.run hpool (fun x hx => hstarts x (List.mem_append_left _ hx)) hbefore).1
  rw [runAll_append]
  exact (h.run hmiddle (fun x hx => hstarts x (List.mem_append_right _ hx)) hafter).2.1

end Teamwork

section Store
variable {K : Type} {V : K → Type} {Q : Type} {P : Q → Type}

abbrev StoreLog (V : K → Type) (P : Q → Type) := Log (StoreRequest.Answer (V := V) P)

/-- The reading of a cell, as the log of a program has it. -/
def reading (P : Q → Type) (k : K) (value : Option (V k)) :
    Σ r : StoreRequest V Q, StoreRequest.Answer P r :=
  ⟨.read k,(Except.ok value : Except String (Option (V k)))⟩

theorem reading_inj {k : K} {value value' : Option (V k)}
    (h : reading P k value = reading P k value') : value = value' :=
  Except.ok.inj (eq_of_heq (Sigma.mk.inj h).2)

theorem reading_cell {j k : K} {value : Option (V j)} {value' : Option (V k)}
    (h : reading P j value = reading P k value') : j = k :=
  StoreRequest.read.inj (Sigma.mk.inj h).1

/-- All readings of a cell agree. -/
def Agrees (log : StoreLog V P) : Prop :=
  ∀ k value value', reading P k value ∈ log → reading P k value' ∈ log → value = value'

/-- A cell that a program reads again has not changed since. -/
def Repeatable (log : StoreLog V P) (turn : StoreTurn P) : StoreRequest V Q → Cells V → Prop
  | .read k, s => turn.failure = none → ∀ value, reading P k value ∈ log → s k = value
  | .commit _, _ | .call _, _ => True

theorem Agrees.read {log : StoreLog V P} {k : K} {s : Cells V} {reply : (q : Q) → P q}
    (h : Agrees log) (hrepeat : Repeatable log ⟨none,reply⟩ (.read k) s) :
    Agrees (reading P k (s k) :: log) := by
  intro j value value' hvalue hvalue'
  rcases List.mem_cons.mp hvalue with hnow | hearlier
  · obtain rfl := reading_cell hnow
    rw [reading_inj hnow]
    rcases List.mem_cons.mp hvalue' with hnow' | hearlier'
    · exact (reading_inj hnow').symm
    · exact hrepeat rfl value' hearlier'
  · rcases List.mem_cons.mp hvalue' with hnow' | hearlier'
    · obtain rfl := reading_cell hnow'
      rw [reading_inj hnow']
      exact (hrepeat rfl value hearlier).symm
    · exact h j value value' hearlier hearlier'

/-- What a program has read of a cell. -/
def readingOf [DecidableEq K] (k : K) :
    (Σ r : StoreRequest V Q, StoreRequest.Answer P r) → Option (Option (V k))
  | ⟨.read j,(.ok value : Except String (Option (V j)))⟩ =>
    if h : j = k then some (h ▸ value) else none
  | _ => none

theorem readingOf_eq_some [DecidableEq K] {k : K} {value : Option (V k)}
    {entry : Σ r : StoreRequest V Q, StoreRequest.Answer P r} :
    readingOf k entry = some value ↔ reading P k value = entry := by
  constructor
  · intro h
    unfold readingOf at h
    split at h
    · split at h
      · next hj =>
        subst hj
        obtain rfl := Option.some.inj h
        rfl
      · cases h
    · cases h
  · rintro rfl
    simp [readingOf,reading]

/-- All that a program has read of a cell. -/
def readings [DecidableEq K] (k : K) (log : StoreLog V P) : List (Option (V k)) :=
  log.filterMap (readingOf k)

theorem mem_readings [DecidableEq K] {k : K} {log : StoreLog V P} {value : Option (V k)} :
    value ∈ readings k log ↔ reading P k value ∈ log := by
  simp [readings,readingOf_eq_some]

/-- What is no reading leaves the readings as they are. -/
theorem Agrees.cons {log : StoreLog V P} {entry : Σ r : StoreRequest V Q, StoreRequest.Answer P r}
    (h : Agrees log) (hentry : ∀ k value, reading P k value ≠ entry) : Agrees (entry :: log) := by
  intro k value value' hvalue hvalue'
  exact h k value value' ((List.mem_cons.mp hvalue).resolve_left (hentry k value))
    ((List.mem_cons.mp hvalue').resolve_left (hentry k value'))

variable [DecidableEq K] [∀ k, DecidableEq (V k)]

instance Repeatable.decidable (log : StoreLog V P) (turn : StoreTurn P) :
    (r : StoreRequest V Q) → (s : Cells V) → Decidable (Repeatable log turn r s)
  | .read k, s => decidable_of_iff
      (turn.failure = none → ∀ value ∈ readings k log, s k = value) (by
        simp [Repeatable,mem_readings])
  | .commit _, _ | .call _, _ => .isTrue trivial

variable {rely : Cells V → Cells V → Prop}
  {allowed : StoreLog V P → StoreTurn P → StoreRequest V Q → Cells V → Prop}
  {guarantee : StoreLog V P → StoreTurn P → StoreRequest V Q → Cells V → Cells V → Prop}
  {post : Except ε β → StoreLog V P → Cells V → Prop} {log : StoreLog V P} {s : Cells V}

theorem cooperates_askRead_bind {k : K} {f : Except String (Option (V k)) → StoreScript V P ε β}
    (hrefl : ∀ t, rely s t → ∀ turn, guarantee log turn (.read k) t t)
    (hfail : ∀ t, rely s t → ∀ error, Cooperates serveStore rely allowed guarantee post
      (f (.error error)) (⟨.read k,(Except.error error : Except String (Option (V k)))⟩ :: log) t)
    (hok : ∀ t, rely s t → ∀ reply, allowed log ⟨none,reply⟩ (.read k) t →
      Cooperates serveStore rely allowed guarantee post (f (.ok (t k)))
        (reading P k (t k) :: log) t) :
    Cooperates serveStore rely allowed guarantee post (askRead k >>= f) log s := by
  rintro t ht ⟨_ | error,reply⟩ hallowed
  · exact ⟨hrefl t ht _,hok t ht reply hallowed⟩
  · exact ⟨hrefl t ht _,hfail t ht error⟩

/-- A commit that fails changes nothing. -/
def Fails (turn : StoreTurn P) (ops : List (CellOp V)) (s : Cells V) : Prop :=
  turn.failure = none → ∀ t, CellOp.commit s ops ≠ .ok t

theorem cooperates_askCommit_bind {ops : List (CellOp V)}
    {f : Except (CommitError K) Unit → StoreScript V P ε β}
    (hrefl : ∀ t, rely s t → ∀ turn, Fails turn ops t → guarantee log turn (.commit ops) t t)
    (hfail : ∀ t, rely s t → ∀ error, Cooperates serveStore rely allowed guarantee post
      (f (.error error)) (⟨.commit ops,(Except.error error : Except (CommitError K) Unit)⟩ :: log) t)
    (hok : ∀ t u, rely s t → ∀ reply, allowed log ⟨none,reply⟩ (.commit ops) t →
      CellOp.commit t ops = .ok u → guarantee log ⟨none,reply⟩ (.commit ops) t u ∧
        Cooperates serveStore rely allowed guarantee post (f (.ok ()))
          (⟨.commit ops,(Except.ok () : Except (CommitError K) Unit)⟩ :: log) u) :
    Cooperates serveStore rely allowed guarantee post (askCommit ops >>= f) log s := by
  rintro t ht ⟨_ | error,reply⟩ hallowed
  · change guarantee log ⟨none,reply⟩ (.commit ops) t (committed t ops).2 ∧
      Cooperates _ _ _ _ _ (f (committed t ops).1)
        (⟨.commit ops,(committed t ops).1⟩ :: log) (committed t ops).2
    unfold committed
    cases h : CellOp.commit t ops with
    | error k => exact ⟨hrefl t ht _ fun _ u hu => by simp [h] at hu,hfail t ht (.assertion k)⟩
    | ok u => exact hok t u ht reply hallowed h
  · exact ⟨hrefl t ht _ (by simp [Fails]),hfail t ht (.failed error)⟩

end Store

end PhenixConductor.Collections
