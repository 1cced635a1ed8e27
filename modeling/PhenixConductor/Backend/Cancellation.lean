import PhenixConductor.Collections.Runs
import Mathlib.Data.List.Induction

/-! # Cancelling the executions of a backend session

A session runs one execution after another, and other threads cancel executions by their ids.
-/
namespace PhenixConductor.Backend
open Collections List

/-- An atomic step on a session: `execute` is called, `cancel` is called, or the execution that
was submitted goes on by a step of its backend. -/
inductive SessionStep (I W : Type) where
  | execute (id : I)
  | cancel (id : I)
  | work (step : W)

/-- An execution was skipped or received the signal, or it looked for one and found none. -/
inductive Notice (I : Type) where
  | skipped (id : I)
  | cut (id : I)
  | passed (id : I)

variable {I W S : Type}

/-- Cancelling hits exactly its execution in a run. `current` is the execution that was
submitted and whose turn has not ended. -/
structure CancelsExactly (step : S → SessionStep I W → S)
    (notices : S → SessionStep I W → List (Notice I)) (current : S → Option I) (s : S)
    (steps : List (SessionStep I W)) : Prop where
  /-- Only its own cancel stops an execution. -/
  own : ∀ before c, before ++ [c] <+: steps → ∀ id,
    .skipped id ∈ notices (runAll step s before) c ∨ .cut id ∈ notices (runAll step s before) c →
      .cancel id ∈ before
  /-- Once the execution is cancelled, it finds the signal wherever it looks. -/
  remembered : ∀ before id after, before ++ .cancel id :: after <+: steps →
    current (runAll step s before) = some id → (∀ j, .execute j ∉ after) →
      ∀ j, .passed j ∉ outputs step notices (runAll step s (before ++ [.cancel id])) after
  /-- A cancel whose execution has ended, or is never submitted, is as good as none. -/
  late : ∀ before id after, before ++ .cancel id :: after = steps →
    current (runAll step s before) ≠ some id → .execute id ∉ after →
      outputs step notices s (before ++ after) = outputs step notices s steps

section
variable {step : S → SessionStep I W → S} {notices : S → SessionStep I W → List (Notice I)}
  {current : S → Option I} {ok : S → SessionStep I W → Prop}

variable {Held : List (SessionStep I W) → S → Prop}

/-- What an execution keeps of the steps taken so far, all along a run. -/
theorem held_of_along
    (hstep : ∀ history s c, Held history s → ok s c → Held (history ++ [c]) (step s c)) {s : S}
    (hinit : Held [] s) {steps : List (SessionStep I W)} (h : Along step ok s steps) :
    Held steps (runAll step s steps) := by
  induction steps using List.reverseRecOn with
  | nil => exact hinit
  | append_singleton steps c ih =>
    obtain ⟨hsteps,hlast,-⟩ := along_append.mp h
    rw [runAll_append]
    exact hstep _ _ _ (ih hsteps) hlast

/-- A cancelled execution finds the signal until another one is submitted. -/
theorem not_passed_of_doomed {Doomed : S → Prop}
    (hstep : ∀ s c, Doomed s → (∀ j, c ≠ .execute j) →
      Doomed (step s c) ∧ ∀ j, .passed j ∉ notices s c) {s : S} (hs : Doomed s)
    {after : List (SessionStep I W)} (hafter : ∀ j, .execute j ∉ after) (j : I) :
    .passed j ∉ outputs step notices s after := by
  induction after generalizing s with
  | nil => exact not_mem_nil
  | cons c after ih =>
    have hc : ∀ j, c ≠ .execute j := by
      rintro j rfl
      exact hafter j (mem_cons_self ..)
    obtain ⟨hnext,hnone⟩ := hstep _ _ hs hc
    rw [outputs, mem_append, not_or]
    exact ⟨hnone j,ih hnext fun k hk => hafter k (mem_cons_of_mem _ hk)⟩

/-- Two states that answer alike do so until the cancelled execution is submitted. -/
theorem outputs_eq_of_same {Same : S → S → Prop} {id : I}
    (hstep : ∀ s s' c, Same s s' → ok s c → c ≠ .execute id →
      Same (step s c) (step s' c) ∧ notices s c = notices s' c) {s s' : S} (hs : Same s s')
    {after : List (SessionStep I W)} (hok : Along step ok s after) (hafter : .execute id ∉ after) :
    outputs step notices s after = outputs step notices s' after := by
  induction after generalizing s s' with
  | nil => rfl
  | cons c after ih =>
    have hc : c ≠ .execute id := by
      rintro rfl
      exact hafter (mem_cons_self ..)
    obtain ⟨hnext,hnotices⟩ := hstep _ _ _ hs hok.1 hc
    rw [outputs, outputs, hnotices, ih hnext hok.2 fun h => hafter (mem_cons_of_mem _ h)]

/-- Cancelling is exact in the runs whose steps keep what the executions remember, doom the
execution that is cancelled, and tell states apart only by cancels that count. -/
theorem CancelsExactly.of_steps {s : S} {steps : List (SessionStep I W)}
    (h : Along step ok s steps) (Held : List (SessionStep I W) → S → Prop) (Doomed : S → Prop)
    (Same : I → S → S → Prop)
    (hheld : ∀ history s c, Held history s → ok s c → Held (history ++ [c]) (step s c))
    (hown : ∀ history s c id, Held history s → ok s c →
      .skipped id ∈ notices s c ∨ .cut id ∈ notices s c → .cancel id ∈ history)
    (hcancel : ∀ history s id, Held history s → ok s (.cancel id) → current s = some id →
      Doomed (step s (.cancel id)))
    (hdoomed : ∀ s c, Doomed s → (∀ j, c ≠ .execute j) →
      Doomed (step s c) ∧ ∀ j, .passed j ∉ notices s c)
    (hlate : ∀ history s id, Held history s → ok s (.cancel id) → current s ≠ some id →
      Same id (step s (.cancel id)) s)
    (hsame : ∀ id s s' c, Same id s s' → ok s c → c ≠ .execute id →
      Same id (step s c) (step s' c) ∧ notices s c = notices s' c)
    (hsilent : ∀ s id, notices s (.cancel id) = []) (hinit : Held [] s) :
    CancelsExactly step notices current s steps where
  own before c hprefix id hid := by
    obtain ⟨rest,rfl⟩ := hprefix
    obtain ⟨hbefore,hc,-⟩ := along_append.mp (along_append.mp h).1
    exact hown _ _ _ _ (held_of_along hheld hinit hbefore) hc hid
  remembered before id after hprefix hcurrent hafter j := by
    obtain ⟨rest,rfl⟩ := hprefix
    obtain ⟨hbefore,hc,-⟩ := along_append.mp (along_append.mp h).1
    rw [runAll_append]
    have hs := hcancel _ _ _ (held_of_along hheld hinit hbefore) hc hcurrent
    exact not_passed_of_doomed hdoomed hs hafter j
  late before id after hsteps hcurrent hafter := by
    subst hsteps
    obtain ⟨hbefore,hc,hrest⟩ := along_append.mp h
    have hs := hlate _ _ _ (held_of_along hheld hinit hbefore) hc hcurrent
    rw [outputs_append, outputs_append, outputs, hsilent, nil_append,
      outputs_eq_of_same (hsame _) hs hrest hafter]

end

/-! ## The native backend -/

inductive NativePhase where
  /-- `execute` was called. -/
  | submitted
  /-- The session is marked active. -/
  | activated
  /-- The flag is cleared, and the turn runs. -/
  | turning
  /-- The turn has ended. -/
  | ended
  deriving DecidableEq

inductive NativeWork where
  | activate
  | clear
  /-- The turn looks at the flag, before a request and at each event of the stream. -/
  | look
  /-- The turn ends with an answer or an error. -/
  | finish
  | release

/-- A session of the native backend and the execution that was submitted to it. -/
structure PhenixSession (I : Type) where
  active : Bool
  cancelled : Bool
  execution : Option (I × NativePhase)

namespace PhenixSession

def new : PhenixSession I := ⟨false,false,none⟩

/-- Executions come one at a time: `execute` is called when the one before has returned. -/
def step (s : PhenixSession I) : SessionStep I NativeWork → PhenixSession I
  | .execute id =>
    match s.execution with
    | none => { s with execution := some (id,.submitted) }
    | some _ => s
  | .cancel _ => { s with cancelled := true }
  | .work .activate =>
    match s.execution with
    | some (id,.submitted) =>
      -- "Phenix backend session is already executing"
      if s.active then { s with execution := none }
      else { s with active := true, execution := some (id,.activated) }
    | _ => s
  | .work .clear =>
    match s.execution with
    | some (id,.activated) => { s with cancelled := false, execution := some (id,.turning) }
    | _ => s
  | .work .look =>
    match s.execution with
    | some (id,.turning) => if s.cancelled then { s with execution := some (id,.ended) } else s
    | _ => s
  | .work .finish =>
    match s.execution with
    | some (id,.turning) => { s with execution := some (id,.ended) }
    | _ => s
  | .work .release =>
    match s.execution with
    | some (_,.ended) => { s with active := false, execution := none }
    | _ => s

def notices (s : PhenixSession I) : SessionStep I NativeWork → List (Notice I)
  | .work .look =>
    match s.execution with
    | some (id,.turning) => if s.cancelled then [.cut id] else [.passed id]
    | _ => []
  | _ => []

def current (s : PhenixSession I) : Option I :=
  match s.execution with
  | some (id,.submitted) | some (id,.activated) | some (id,.turning) => some id
  | _ => none

/-- A cancel does not come for an execution that has yet to clear the flag, and one that comes
during a turn is for it or finds the flag raised. -/
def Addressed (s : PhenixSession I) : SessionStep I NativeWork → Prop
  | .cancel id =>
    match s.execution with
    | some (j,.submitted) | some (j,.activated) => id ≠ j
    | some (j,.turning) => id = j ∨ s.cancelled = true
    | _ => True
  | _ => True

/-- The flag is raised during a turn because the turn was cancelled. -/
def Held (history : List (SessionStep I NativeWork)) (s : PhenixSession I) : Prop :=
  ∀ id, s.execution = some (id,.turning) → s.cancelled = true → .cancel id ∈ history

/-- A turn that still runs finds the flag raised. -/
def Doomed (s : PhenixSession I) : Prop :=
  match s.execution with
  | some (_,.submitted) | some (_,.activated) => False
  | some (_,.turning) => s.cancelled = true
  | _ => True

/-- The states differ in the flag at most, and not during a turn. -/
def Same (_ : I) (s s' : PhenixSession I) : Prop :=
  s.execution = s'.execution ∧ s.active = s'.active ∧
    ∀ id, s.execution = some (id,.turning) → s.cancelled = s'.cancelled

variable {history : List (SessionStep I NativeWork)} {s s' : PhenixSession I}
  {c : SessionStep I NativeWork} {id : I}

theorem held_step (h : Held history s) (hc : s.Addressed c) :
    Held (history ++ [c]) (s.step c) := by
  obtain ⟨active,cancelled,execution⟩ := s
  intro id hid hflag
  cases c with
  | execute j =>
    cases execution with
    | none => simp [step] at hid
    | some found => exact mem_append_left _ (h id hid hflag)
  | cancel j =>
    subst hid
    rcases hc with rfl | hraised
    · simp
    · exact mem_append_left _ (h id rfl hraised)
  | work w =>
    refine mem_append_left _ (h id ?_ ?_)
    all_goals
      cases w <;> rcases execution with _ | ⟨j,_ | _ | _ | _⟩ <;> simp_all [step]
    all_goals (split_ifs at hid hflag; simp_all)

theorem own_notice (h : Held history s) (_ : s.Addressed c)
    (hid : .skipped id ∈ s.notices c ∨ .cut id ∈ s.notices c) : .cancel id ∈ history := by
  obtain ⟨active,cancelled,execution⟩ := s
  have hlook : c = .work .look ∧ execution = some (id,.turning) ∧ cancelled = true := by
    unfold notices at hid
    split at hid
    · split at hid
      · split_ifs at hid <;> simp_all
      · simp at hid
    · simp at hid
  exact h id hlook.2.1 hlook.2.2

theorem doomed_cancel (_ : Held history s) (hc : s.Addressed (.cancel id)) (hcurrent : s.current = some id) :
    Doomed (s.step (.cancel id)) := by
  obtain ⟨active,cancelled,execution⟩ := s
  rcases execution with _ | ⟨j,_ | _ | _ | _⟩
  case none => trivial
  case some.submitted | some.activated =>
    -- The flag would be cleared again.
    cases hcurrent
    exact absurd rfl hc
  case some.turning => rfl
  case some.ended => trivial

theorem doomed_step (h : Doomed s) (hc : ∀ j, c ≠ .execute j) : Doomed (s.step c) ∧ ∀ j, .passed j ∉ s.notices c := by
  obtain ⟨active,cancelled,execution⟩ := s
  cases c with
  | execute j => exact absurd rfl (hc j)
  | cancel j =>
    refine ⟨?_,fun _ => not_mem_nil⟩
    rcases execution with _ | ⟨k,_ | _ | _ | _⟩ <;> first | exact h | rfl
  | work w =>
    rcases execution with _ | ⟨k,_ | _ | _ | _⟩
    case some.submitted | some.activated => exact h.elim
    all_goals cases w <;> simp_all [Doomed, step, notices]

theorem same_cancel (_ : Held history s) (hc : s.Addressed (.cancel id)) (hcurrent : s.current ≠ some id) :
    Same id (s.step (.cancel id)) s := by
  obtain ⟨active,cancelled,execution⟩ := s
  refine ⟨rfl,rfl,fun j hj => ?_⟩
  subst hj
  rcases hc with rfl | hraised
  · exact absurd rfl hcurrent
  · exact hraised.symm

theorem same_step (h : Same id s s') (_ : s.Addressed c) (_ : c ≠ .execute id) :
    Same id (s.step c) (s'.step c) ∧ s.notices c = s'.notices c := by
  obtain ⟨active,cancelled,execution⟩ := s
  obtain ⟨active',cancelled',execution'⟩ := s'
  obtain ⟨hexecution,hactive,hflag⟩ := h
  subst hexecution hactive
  rcases execution with _ | ⟨k,_ | _ | _ | _⟩
  case some.turning =>
    cases hflag k rfl
    exact ⟨⟨rfl,rfl,fun _ _ => rfl⟩,rfl⟩
  all_goals rcases c with j | j | (_ | _ | _ | _ | _)
  all_goals simp [Same, step, notices]
  all_goals split_ifs <;> simp

end PhenixSession

/-! ## The ACP backend -/

inductive CancellationSignal where
  | cancel
  | complete
  deriving DecidableEq

/-- The latch, and what was sent to the channel of the armed execution. -/
structure CancellationState where
  requested : Bool
  signal : Option (List CancellationSignal)

/-- Whether the execution is armed; if not, it is skipped. -/
def armCancellation (c : CancellationState) : CancellationState × Except String Bool :=
  if c.signal.isSome then (c,.error "ACP backend session is already executing")
  else if c.requested then ({ c with requested := false },.ok false)
  else ({ c with signal := some [] },.ok true)

def disarmCancellation (_ : CancellationState) : CancellationState := ⟨false,none⟩

def requestCancellation (c : CancellationState) : CancellationState :=
  ⟨true,c.signal.map fun sent => sent ++ [.cancel]⟩

inductive AcpPhase where
  /-- `execute` was called. -/
  | submitted
  /-- The execution has a channel, and its worker prepares the prompt. -/
  | armed
  /-- The prompt was sent, and the forwarder waits at the channel. -/
  | prompting
  /-- The forwarder has told the agent to cancel the prompt. -/
  | told
  /-- The prompt was answered, and the forwarder is waited for. -/
  | completing
  /-- The turn has ended. -/
  | ended
  deriving DecidableEq

inductive AcpWork where
  | arm
  /-- The worker ends before the prompt. -/
  | fail
  | prompt
  /-- The forwarder receives the first message of the channel. -/
  | forward
  | complete
  | disarm

/-- A session of the ACP backend, persistent or not, and the execution that was submitted to
it. `latched` is a ghost: whose cancels came since the latch was last down. -/
structure AcpSession (I : Type) where
  cancellation : CancellationState
  execution : Option (I × AcpPhase)
  latched : List I

/-- The forwarder has yet to receive the first message of the channel. -/
def AcpPhase.waiting : AcpPhase → Bool
  | .armed | .prompting | .completing => true
  | _ => false

namespace AcpSession

def new : AcpSession I := ⟨⟨false,none⟩,none,[]⟩

/-- The message that the forwarder receives. -/
def first (s : AcpSession I) : Option CancellationSignal :=
  s.cancellation.signal.bind List.head?

/-- Executions come one at a time: `execute` is called when the one before has returned. -/
def step (s : AcpSession I) : SessionStep I AcpWork → AcpSession I
  | .execute id =>
    match s.execution with
    | none => { s with execution := some (id,.submitted) }
    | some _ => s
  | .cancel id =>
    { s with cancellation := requestCancellation s.cancellation, latched := s.latched ++ [id] }
  | .work .arm =>
    match s.execution with
    | some (id,.submitted) =>
      match armCancellation s.cancellation with
      | (cancellation,.error _) => { s with cancellation, execution := none }
      | (cancellation,.ok false) => ⟨cancellation,none,[]⟩
      | (cancellation,.ok true) => { s with cancellation, execution := some (id,.armed) }
    | _ => s
  | .work .fail =>
    match s.execution with
    | some (id,.armed) => { s with execution := some (id,.ended) }
    | _ => s
  | .work .prompt =>
    match s.execution with
    | some (id,.armed) => { s with execution := some (id,.prompting) }
    | _ => s
  | .work .forward =>
    match s.execution, s.first with
    | some (id,.prompting), some .cancel => { s with execution := some (id,.told) }
    | some (id,.completing), some _ => { s with execution := some (id,.ended) }
    | _, _ => s
  | .work .complete =>
    let completed := { s.cancellation with
      signal := s.cancellation.signal.map fun sent => sent ++ [.complete] }
    match s.execution with
    | some (id,.prompting) => { s with cancellation := completed, execution := some (id,.completing) }
    | some (id,.told) => { s with cancellation := completed, execution := some (id,.ended) }
    | _ => s
  | .work .disarm =>
    match s.execution with
    | some (_,.ended) => ⟨disarmCancellation s.cancellation,none,[]⟩
    | _ => s

def notices (s : AcpSession I) : SessionStep I AcpWork → List (Notice I)
  | .work .arm =>
    match s.execution with
    | some (id,.submitted) =>
      match (armCancellation s.cancellation).2 with
      | .error _ => []
      | .ok false => [.skipped id]
      | .ok true => [.passed id]
    | _ => []
  | .work .forward =>
    match s.execution, s.first with
    | some (id,.prompting), some .cancel | some (id,.completing), some .cancel => [.cut id]
    | some (id,.completing), some .complete => [.passed id]
    | _, _ => []
  | _ => []

def current (s : AcpSession I) : Option I :=
  match s.execution with
  | some (id,.submitted) | some (id,.armed) | some (id,.prompting) | some (id,.told) => some id
  | _ => none

/-- If the latch is up when an execution arms, one of the cancels that came since it was down
is for this execution; a cancel that comes while an execution is armed or prompts is for it
or finds another one in the channel. -/
def Addressed (s : AcpSession I) : SessionStep I AcpWork → Prop
  | .cancel id =>
    match s.execution with
    | some (j,.armed) | some (j,.prompting) => id = j ∨ s.first = some .cancel
    | _ => True
  | .work .arm =>
    match s.execution with
    | some (j,.submitted) => s.cancellation.requested = true → j ∈ s.latched
    | _ => True
  | _ => True

/-- What the latch and the channel have taken from the steps so far. -/
structure Held (history : List (SessionStep I AcpWork)) (s : AcpSession I) : Prop where
  idle : (∀ id phase, s.execution = some (id,phase) → phase = .submitted) →
    s.cancellation.signal = none
  down : s.cancellation.requested = false → s.latched = []
  latched : ∀ id ∈ s.latched, .cancel id ∈ history
  sent : s.first = some .cancel → ∀ id phase, s.execution = some (id,phase) →
    phase.waiting = true → .cancel id ∈ history
  channel : ∀ id phase, s.execution = some (id,phase) → phase.waiting = true →
    s.cancellation.signal.isSome
  unanswered : ∀ id phase, s.execution = some (id,phase) → phase = .armed ∨ phase = .prompting →
    s.first ≠ some .complete
  answered : ∀ id, s.execution = some (id,.completing) → s.first.isSome

/-- An execution that has not been stopped yet finds the latch up or a cancel in its channel. -/
def Doomed (s : AcpSession I) : Prop :=
  match s.execution with
  | some (_,.submitted) => s.cancellation.requested = true
  | some (_,.armed) | some (_,.prompting) | some (_,.completing) => s.first = some .cancel
  | _ => True

/-- The states differ at most in cancels that do not count: messages after the first one, and a
latch that is up for an id which is not submitted. -/
structure Same (id : I) (s s' : AcpSession I) : Prop where
  execution : s.execution = s'.execution
  idle : (∀ j phase, s.execution = some (j,phase) → phase = .submitted) →
    s.cancellation.signal = none ∧ s'.cancellation.signal = none
  other : s.execution ≠ some (id,.submitted)
  channel : ∀ j phase, s.execution = some (j,phase) → phase.waiting = true →
    s.cancellation.signal.map List.head? = s'.cancellation.signal.map List.head?
  latch : s'.cancellation.requested = true → s.cancellation.requested = true
  latched : s'.cancellation.requested = false → ∀ j ∈ s.latched, j = id

variable {history : List (SessionStep I AcpWork)} {s s' : AcpSession I}
  {c : SessionStep I AcpWork} {id : I}

variable (s id) in
theorem first_cancel : (s.step (.cancel id)).first =
    s.cancellation.signal.bind fun sent => sent.head?.or (some .cancel) := by
  obtain ⟨⟨requested,_ | sent⟩,execution,latched⟩ := s
  · rfl
  · cases sent <;> rfl

/-- A cancel never comes before the first message. -/
theorem first_cancel_of_some {message : CancellationSignal} (h : s.first = some message) :
    (s.step (.cancel id)).first = some message := by
  obtain ⟨sent,hsent,hhead⟩ := Option.bind_eq_some_iff.mp h
  rw [first_cancel, hsent, Option.bind_some, hhead]
  rfl

theorem first_cancel_eq (hsome : s.cancellation.signal.isSome) (hfirst : s.first ≠ some .complete)
    (id : I) : (s.step (.cancel id)).first = some .cancel := by
  obtain ⟨sent,hsent⟩ := Option.isSome_iff_exists.mp hsome
  rw [first_cancel, hsent]
  rw [first, hsent] at hfirst
  rcases sent with _ | ⟨_ | _,sent⟩
  · rfl
  · rfl
  · exact absurd rfl hfirst

theorem held_new (history : List (SessionStep I AcpWork)) : Held history (new : AcpSession I) where
  idle _ := rfl
  down _ := rfl
  latched id hid := absurd hid not_mem_nil
  sent h := by cases h
  channel id phase h := by cases h
  unanswered id phase h := by cases h
  answered id h := by cases h

theorem Held.mono (h : Held history s) (c : SessionStep I AcpWork) : Held (history ++ [c]) s where
  idle := h.idle
  down := h.down
  latched id hid := mem_append_left _ (h.latched id hid)
  sent hfirst id phase he hw := mem_append_left _ (h.sent hfirst id phase he hw)
  channel := h.channel
  unanswered := h.unanswered
  answered := h.answered

theorem held_cancel (h : Held history s) (hc : s.Addressed (.cancel id)) :
    Held (history ++ [.cancel id]) (s.step (.cancel id)) where
  idle hphase := by
    have hnone := h.idle hphase
    simp [step, requestCancellation, hnone]
  down hdown := by cases hdown
  latched j hj := by
    rcases mem_append.mp hj with hj | hj
    · exact mem_append_left _ (h.latched j hj)
    · rw [mem_singleton] at hj
      subst hj
      simp
  sent hfirst j phase he hw := by
    -- The channel got its first message now or had it before.
    by_cases hbefore : s.first = some .cancel
    · exact mem_append_left _ (h.sent hbefore j phase he hw)
    · have hj : id = j := by
        obtain ⟨cancellation,execution,latched⟩ := s
        simp only [step] at he
        subst he
        cases phase with
        | armed | prompting => exact hc.resolve_right hbefore
        | completing =>
          obtain ⟨message,hmessage⟩ := Option.isSome_iff_exists.mp (h.answered j rfl)
          cases message with
          | cancel => exact absurd hmessage hbefore
          | complete =>
            rw [first_cancel_of_some hmessage] at hfirst
            cases hfirst
        | submitted | told | ended => cases hw
      subst hj
      simp
  channel j phase he hw := by
    simpa [step, requestCancellation] using h.channel j phase he hw
  unanswered j phase he hp hfirst := by
    rw [first_cancel] at hfirst
    obtain ⟨sent,hsent,hhead⟩ := Option.bind_eq_some_iff.mp hfirst
    refine h.unanswered j phase he hp ?_
    rw [first, hsent]
    cases sent with
    | nil => cases hhead
    | cons message sent => exact hhead
  answered j he := by
    obtain ⟨message,hmessage⟩ := Option.isSome_iff_exists.mp (h.answered j he)
    rw [first_cancel_of_some hmessage]
    rfl

/-- A turn that has ended, or whose agent was told, waits for no message. -/
theorem Held.settled {c c' : CancellationState} {execution : Option (I × AcpPhase)}
    {latched : List I} (h : Held history ⟨c,execution,latched⟩) (hc : c'.requested = c.requested)
    (id : I) (phase : AcpPhase) (hsubmitted : phase ≠ .submitted) (hwaiting : phase.waiting = false) :
    Held history ⟨c',some (id,phase),latched⟩ where
  unanswered j p he hp := by
    cases he
    rcases hp with rfl | rfl <;> cases hwaiting
  idle hphase := absurd (hphase id phase rfl) hsubmitted
  down hdown := h.down (hc ▸ hdown)
  latched := h.latched
  sent _ j phase he hw := by
    cases he
    cases hwaiting.symm.trans hw
  channel j phase he hw := by
    cases he
    cases hwaiting.symm.trans hw
  answered j he := by
    cases he
    cases hwaiting

theorem held_step (h : Held history s) (hc : s.Addressed c) :
    Held (history ++ [c]) (s.step c) := by
  cases c with
  | cancel id => exact held_cancel h hc
  | execute id =>
    refine Held.mono ?_ _
    obtain ⟨cancellation,execution,latched⟩ := s
    cases execution with
    | none =>
      have hidle := h.idle (fun _ _ he => by cases he)
      refine ⟨fun _ => hidle,h.down,h.latched,fun _ j phase he hw => ?_,
        fun j phase he hw => ?_,fun j phase he hp => ?_,fun j he => ?_⟩
      · cases he
        cases hw
      · cases he
        cases hw
      · cases he
        simp at hp
      · cases he
    | some found => exact h
  | work w =>
    refine Held.mono ?_ _
    obtain ⟨⟨requested,signal⟩,execution,latched⟩ := s
    rcases execution with _ | ⟨id,_ | _ | _ | _ | _ | _⟩ <;> cases w
    case some.submitted.arm =>
      have hnone := h.idle (fun _ _ he => by cases he; rfl)
      dsimp only at hnone
      subst hnone
      cases requested with
      | true => exact held_new history
      | false =>
        refine ⟨fun hphase => ?_,h.down,h.latched,fun hfirst => ?_,fun _ _ _ _ => rfl,
          fun _ _ _ _ hfirst => ?_,fun j he => ?_⟩
        · cases hphase id .armed rfl
        · cases hfirst
        · cases hfirst
        · cases he
    case some.armed.fail | some.told.complete =>
      exact h.settled (by rfl) id .ended AcpPhase.noConfusion rfl
    case some.armed.prompt =>
      refine ⟨fun hphase => ?_,h.down,h.latched,fun hfirst j phase he hw => ?_,
        fun _ _ _ _ => h.channel id .armed rfl rfl,
        fun _ _ _ _ => h.unanswered id .armed rfl (.inl rfl),fun j he => ?_⟩
      · cases hphase id .prompting rfl
      · cases he
        exact h.sent hfirst id .armed rfl rfl
      · cases he
    case some.prompting.forward =>
      rcases signal with _ | _ | ⟨_ | _,sent⟩
      case some.cons.cancel => exact h.settled rfl id .told AcpPhase.noConfusion rfl
      all_goals exact h
    case some.completing.forward =>
      rcases signal with _ | _ | ⟨message,sent⟩
      case some.cons => exact h.settled rfl id .ended AcpPhase.noConfusion rfl
      all_goals exact h
    case some.prompting.complete =>
      obtain ⟨sent,rfl⟩ := Option.isSome_iff_exists.mp (h.channel id .prompting rfl rfl)
      refine ⟨fun hphase => ?_,h.down,h.latched,fun hfirst j phase he hw => ?_,
        fun _ _ _ _ => rfl,fun j phase he hp => ?_,fun j he => ?_⟩
      · cases hphase id .completing rfl
      · cases he
        cases sent with
        | nil => cases hfirst
        | cons message sent => exact h.sent hfirst id .prompting rfl rfl
      · cases he
        simp at hp
      · cases sent <;> rfl
    case some.ended.disarm => exact held_new history
    all_goals exact h

theorem own_notice (h : Held history s) (hc : s.Addressed c)
    (hid : .skipped id ∈ s.notices c ∨ .cut id ∈ s.notices c) : .cancel id ∈ history := by
  obtain ⟨⟨requested,signal⟩,execution,latched⟩ := s
  rcases c with j | j | (_ | _ | _ | _ | _ | _)
  case work.arm =>
    rcases execution with _ | ⟨k,_ | _ | _ | _ | _ | _⟩
    case some.submitted =>
      cases h.idle (fun _ _ he => by cases he; rfl)
      cases requested with
      | true =>
        have hk : id = k := by simpa [notices, armCancellation] using hid
        subst hk
        exact h.latched id (hc rfl)
      | false => simp [notices, armCancellation] at hid
    all_goals simp [notices] at hid
  case work.forward =>
    rcases execution with _ | ⟨k,_ | _ | _ | _ | _ | _⟩
    case some.prompting | some.completing =>
      rcases signal with _ | _ | ⟨_ | _,sent⟩
      case some.cons.cancel =>
        have hk : id = k := by simpa [notices, first] using hid
        subst hk
        exact h.sent rfl id _ rfl rfl
      all_goals simp [notices, first] at hid
    all_goals simp [notices] at hid
  all_goals simp [notices] at hid

theorem doomed_cancel (h : Held history s) (_ : s.Addressed (.cancel id)) (hcurrent : s.current = some id) :
    Doomed (s.step (.cancel id)) := by
  obtain ⟨cancellation,execution,latched⟩ := s
  rcases execution with _ | ⟨j,_ | _ | _ | _ | _ | _⟩
  case some.submitted => rfl
  case some.armed | some.prompting =>
    exact first_cancel_eq (h.channel j _ rfl rfl) (h.unanswered j _ rfl (by simp)) id
  all_goals cases hcurrent
  trivial

theorem doomed_step (h : Doomed s) (hc : ∀ j, c ≠ .execute j) : Doomed (s.step c) ∧ ∀ j, .passed j ∉ s.notices c := by
  cases c with
  | execute j => exact absurd rfl (hc j)
  | cancel j =>
    refine ⟨?_,fun _ => not_mem_nil⟩
    obtain ⟨cancellation,execution,latched⟩ := s
    rcases execution with _ | ⟨k,_ | _ | _ | _ | _ | _⟩
    case some.submitted => rfl
    case some.armed | some.prompting | some.completing => exact first_cancel_of_some h
    all_goals trivial
  | work w =>
    obtain ⟨⟨requested,signal⟩,execution,latched⟩ := s
    rcases execution with _ | ⟨k,_ | _ | _ | _ | _ | _⟩
    case some.submitted =>
      cases h
      cases signal <;> cases w <;> simp [Doomed, step, notices, armCancellation]
    case some.armed => cases w <;> simp_all [Doomed, step, notices, first]
    case some.prompting | some.completing =>
      obtain ⟨_ | ⟨message,sent⟩,rfl,hhead⟩ := Option.bind_eq_some_iff.mp h
      · cases hhead
      · cases hhead
        cases w <;> simp [Doomed, step, notices, first]
    all_goals cases w <;> simp [Doomed, step, notices]

theorem same_cancel (h : Held history s) (hc : s.Addressed (.cancel id)) (hcurrent : s.current ≠ some id) :
    Same id (s.step (.cancel id)) s where
  execution := rfl
  idle hphase := by
    have hnone := h.idle hphase
    exact ⟨by simp [step, requestCancellation, hnone],hnone⟩
  other he := by
    have he : s.execution = some (id,.submitted) := he
    exact hcurrent (by simp [current, he])
  channel j phase he hw := by
    have he : s.execution = some (j,phase) := he
    obtain ⟨sent,hsent⟩ := Option.isSome_iff_exists.mp (h.channel j phase he hw)
    have hfull : sent ≠ [] := by
      rintro rfl
      have hempty : s.first = none := by rw [first, hsent]; rfl
      cases phase with
      | armed | prompting =>
        have hne : id ≠ j := by
          rintro rfl
          exact hcurrent (by simp [current, he])
        simp only [Addressed, he] at hc
        cases hempty.symm.trans (hc.resolve_left hne)
      | completing => simpa [hempty] using h.answered j he
      | submitted | told | ended => cases hw
    simp only [step, requestCancellation, hsent, Option.map_some]
    rw [head?_append_of_ne_nil _ hfull]
  latch _ := rfl
  latched hdown j hj := by
    rw [step, h.down hdown, nil_append, mem_singleton] at hj
    exact hj

theorem Same.settled (h : Same id s s') {c c' : CancellationState}
    (hc : c.requested = s.cancellation.requested) (hc' : c'.requested = s'.cancellation.requested)
    (k : I) (phase : AcpPhase) (hsubmitted : phase ≠ .submitted) (hwaiting : phase.waiting = false) :
    Same id ⟨c,some (k,phase),s.latched⟩ ⟨c',some (k,phase),s'.latched⟩ where
  execution := rfl
  idle hphase := absurd (hphase k phase rfl) hsubmitted
  other he := by
    cases he
    exact hsubmitted rfl
  channel j p he hw := by
    cases he
    cases hwaiting.symm.trans hw
  latch hup := hc.trans (h.latch (hc' ▸ hup))
  latched hdown := h.latched (hc' ▸ hdown)

theorem head?_append_singleton (signal : Option (List CancellationSignal))
    (message : CancellationSignal) :
    (signal.map fun sent => sent ++ [message]).map List.head? =
      (signal.map List.head?).map fun head => head.or (some message) := by
  rcases signal with _ | _ | ⟨_,_⟩ <;> rfl

theorem same_step (h : Same id s s') (hc : s.Addressed c) (hne : c ≠ .execute id) :
    Same id (s.step c) (s'.step c) ∧ s.notices c = s'.notices c := by
  obtain ⟨⟨requested,signal⟩,execution,latched⟩ := s
  obtain ⟨⟨requested',signal'⟩,execution',latched'⟩ := s'
  cases h.execution
  cases c with
  | cancel j =>
    refine ⟨⟨rfl,fun hphase => ?_,h.other,fun k phase he hw => ?_,fun _ => rfl,fun hdown => ?_⟩,rfl⟩
    · obtain ⟨hnone,hnone'⟩ := h.idle hphase
      cases hnone
      cases hnone'
      exact ⟨rfl,rfl⟩
    · have hchannel := h.channel k phase he hw
      dsimp only at hchannel
      simp only [step, requestCancellation, head?_append_singleton, hchannel]
    · cases hdown
  | execute j =>
    cases execution with
    | none =>
      refine ⟨⟨rfl,fun _ => h.idle fun _ _ he => ?_,fun he => ?_,fun k phase he hw => ?_,h.latch,
        h.latched⟩,rfl⟩
      · cases he
      · cases he
        exact hne rfl
      · cases he
        cases hw
    | some found => exact ⟨h,rfl⟩
  | work w =>
    rcases execution with _ | ⟨k,_ | _ | _ | _ | _ | _⟩ <;> cases w
    case some.submitted.arm =>
      obtain ⟨hnone,hnone'⟩ := h.idle (fun _ _ he => by cases he; rfl)
      dsimp only at hnone hnone'
      subst hnone hnone'
      cases requested' with
      | true =>
        cases h.latch rfl
        exact ⟨⟨rfl,fun _ => ⟨rfl,rfl⟩,nofun,nofun,fun hup => hup,fun _ => nofun⟩,rfl⟩
      | false =>
        -- The latch is down in both, for no cancel of this execution came.
        have hdown : requested = false := by
          by_contra hup
          rw [Bool.not_eq_false] at hup
          have hk : k = id := h.latched rfl k (hc hup)
          exact h.other (by rw [hk])
        subst hdown
        refine ⟨⟨rfl,fun hphase => ?_,fun he => ?_,fun _ _ _ _ => rfl,fun hup => hup,
          h.latched⟩,rfl⟩
        · cases hphase k .armed rfl
        · cases he
    case some.armed.fail | some.told.complete =>
      exact ⟨h.settled (by rfl) (by rfl) k .ended AcpPhase.noConfusion rfl,rfl⟩
    case some.armed.prompt =>
      refine ⟨⟨rfl,fun hphase => ?_,fun he => ?_,fun _ _ _ _ => h.channel k .armed rfl rfl,h.latch,
        h.latched⟩,rfl⟩
      · cases hphase k .prompting rfl
      · cases he
    case some.prompting.forward | some.completing.forward =>
      have hchannel := h.channel k _ rfl rfl
      rcases signal with _ | _ | ⟨message,sent⟩ <;>
        rcases signal' with _ | _ | ⟨message',sent'⟩ <;> cases hchannel
      case some.cons.some.cons.refl =>
        cases message <;> first
          | exact ⟨h.settled rfl rfl k _ AcpPhase.noConfusion rfl,rfl⟩
          | exact ⟨h,rfl⟩
      all_goals exact ⟨h,rfl⟩
    case some.prompting.complete =>
      have hchannel := h.channel k .prompting rfl rfl
      refine ⟨⟨rfl,fun hphase => ?_,fun he => ?_,fun _ _ _ _ => ?_,h.latch,h.latched⟩,rfl⟩
      · cases hphase k .completing rfl
      · cases he
      · simp only [step, head?_append_singleton]
        rw [hchannel]
    case some.ended.disarm =>
      exact ⟨⟨rfl,fun _ => ⟨rfl,rfl⟩,nofun,nofun,fun hup => hup,fun _ => nofun⟩,rfl⟩
    all_goals exact ⟨h,rfl⟩

end AcpSession

/-! ## Both backends -/

/-- If every cancel comes where it counts for its own execution only, cancelling hits exactly its
execution in every run of either backend. -/
theorem cancels_exactly (native : List (SessionStep I NativeWork)) (acp : List (SessionStep I AcpWork))
    (hnative : Along PhenixSession.step PhenixSession.Addressed .new native)
    (hacp : Along AcpSession.step AcpSession.Addressed .new acp) :
    CancelsExactly PhenixSession.step PhenixSession.notices PhenixSession.current .new native ∧
      CancelsExactly AcpSession.step AcpSession.notices AcpSession.current .new acp := by
  constructor
  · exact .of_steps hnative PhenixSession.Held PhenixSession.Doomed PhenixSession.Same
      (fun _ _ _ => PhenixSession.held_step) (fun _ _ _ _ => PhenixSession.own_notice)
      (fun _ _ _ => PhenixSession.doomed_cancel) (fun _ _ => PhenixSession.doomed_step)
      (fun _ _ _ => PhenixSession.same_cancel) (fun _ _ _ _ => PhenixSession.same_step)
      (fun _ _ => rfl) (fun _ h => by cases h)
  · exact .of_steps hacp AcpSession.Held AcpSession.Doomed AcpSession.Same
      (fun _ _ _ => AcpSession.held_step) (fun _ _ _ _ => AcpSession.own_notice)
      (fun _ _ _ => AcpSession.doomed_cancel) (fun _ _ => AcpSession.doomed_step)
      (fun _ _ _ => AcpSession.same_cancel) (fun _ _ _ _ => AcpSession.same_step)
      (fun _ _ => rfl) (AcpSession.held_new [])

/-- A native turn that is cut and cancelled again when it is over, and an ACP execution that is
skipped for an early cancel before another one is cancelled twice. -/
theorem cancels_exactly_one_by_one :
    CancelsExactly PhenixSession.step PhenixSession.notices PhenixSession.current .new
      ([.execute 1,.work .activate,.work .clear,.work .look,.cancel 1,.work .look,.cancel 1,
        .work .release,.execute 2,.work .activate,.work .clear,.work .look] :
        List (SessionStep ℕ NativeWork)) ∧
    CancelsExactly AcpSession.step AcpSession.notices AcpSession.current .new
      ([.cancel 1,.execute 1,.work .arm,.execute 2,.work .arm,.work .prompt,.cancel 2,.work .complete,
        .cancel 2,.work .forward,.work .disarm,.execute 3,.work .arm] :
        List (SessionStep ℕ AcpWork)) := by
  refine cancels_exactly _ _ ?_ ?_
  · exact ⟨trivial,trivial,trivial,trivial,.inl rfl,trivial,trivial,trivial,trivial,trivial,trivial,
      trivial,trivial⟩
  · exact ⟨trivial,trivial,fun _ => mem_singleton.mpr rfl,trivial,nofun,trivial,.inl rfl,trivial,
      trivial,trivial,trivial,trivial,nofun,trivial⟩

/-- A native execution clears the flag that its own cancel has raised; an ACP execution is
skipped for a cancel that came after another one had ended. -/
theorem cancel_hits_another :
    ¬ CancelsExactly PhenixSession.step PhenixSession.notices PhenixSession.current .new
      ([.execute 1,.cancel 1,.work .activate,.work .clear,.work .look] :
        List (SessionStep ℕ NativeWork)) ∧
    ¬ CancelsExactly AcpSession.step AcpSession.notices AcpSession.current .new
      ([.execute 1,.work .arm,.work .prompt,.work .complete,.work .forward,.work .disarm,.cancel 1,
        .execute 2,.work .arm] : List (SessionStep ℕ AcpWork)) := by
  constructor
  · intro h
    refine h.remembered [.execute 1] 1 [.work .activate,.work .clear,.work .look]
      (prefix_refl _) rfl (by simp) 1 ?_
    exact mem_singleton.mpr rfl
  · intro h
    have hown := h.own [.execute 1,.work .arm,.work .prompt,.work .complete,.work .forward,
      .work .disarm,.cancel 1,.execute 2] (.work .arm) (prefix_refl _) 2
      (.inl (mem_singleton.mpr rfl))
    simp at hown

end PhenixConductor.Backend
