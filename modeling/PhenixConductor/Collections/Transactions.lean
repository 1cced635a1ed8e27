import PhenixConductor.Collections.Runs

/-! # Programs with requests

A program puts requests to its surroundings and goes on with the answers.
-/
namespace PhenixConductor.Collections

inductive Script (R : Type) (A : R → Type) (ε α : Type)
  | done (result : Except ε α)
  | request (r : R) (next : A r → Script R A ε α)

namespace Script
variable {R : Type} {A : R → Type} {ε α β : Type}

def bind : Script R A ε α → (α → Script R A ε β) → Script R A ε β
  | .done (.ok a), f => f a
  | .done (.error e), _ => .done (.error e)
  | .request r next, f => .request r fun answer => (next answer).bind f

instance monad : Monad (Script R A ε) where
  pure a := .done (.ok a)
  bind := bind

/-- One request, with its answer. -/
def ask (r : R) : Script R A ε (A r) := .request r fun answer => .done (.ok answer)

/-- A result that is there without a request. -/
def ofExcept (result : Except ε α) : Script R A ε α := .done result

def fail (e : ε) : Script R A ε α := .done (.error e)

@[simp] theorem pure_def (a : α) : (pure a : Script R A ε α) = .done (.ok a) := rfl

@[simp] theorem ofExcept_ok_bind (a : α) (f : α → Script R A ε β) :
    (ofExcept (.ok a) >>= f) = f a := rfl

@[simp] theorem ofExcept_error_bind (e : ε) (f : α → Script R A ε β) :
    (ofExcept (.error e) >>= f) = fail e := rfl

@[simp] theorem fail_bind (e : ε) (f : α → Script R A ε β) :
    ((fail e : Script R A ε α) >>= f) = fail e := rfl

theorem bind_bind {γ : Type} (p : Script R A ε α) (f : α → Script R A ε β)
    (g : β → Script R A ε γ) : (p >>= f) >>= g = p >>= fun a => f a >>= g := by
  induction p with
  | done result => cases result <;> rfl
  | request r next ih => exact congrArg (request r) (funext ih)

section Running
variable {C S : Type} (serve : C → (r : R) → S → A r × S)

/-- A run under the choices that the surroundings make, one for each request. -/
def run : Script R A ε α → (ℕ → C) → S → Except ε α × S
  | .done result, _, s => (result,s)
  | .request r next, choices, s =>
    run (next (serve (choices 0) r s).1) (fun n => choices (n + 1)) (serve (choices 0) r s).2

/-- Under all choices that are allowed, the program changes the state as guaranteed with every
request, and ends as the postcondition says. -/
def Ensures (allowed : C → Prop) (guarantee : S → S → Prop) (post : Except ε α → S → Prop) :
    Script R A ε α → S → Prop
  | .done result, s => post result s
  | .request r next, s => ∀ c, allowed c → guarantee s (serve c r s).2 ∧
    Ensures allowed guarantee post (next (serve c r s).1) (serve c r s).2

variable {serve} {allowed : C → Prop} {guarantee : S → S → Prop}

namespace Ensures

variable {post : Except ε α → S → Prop} {p : Script R A ε α}

theorem run {s : S} (h : Ensures serve allowed guarantee post p s) {choices : ℕ → C}
    (hchoices : ∀ n, allowed (choices n)) :
    post (p.run serve choices s).1 (p.run serve choices s).2 := by
  induction p generalizing s choices with
  | done result => exact h
  | request r next ih =>
    exact ih _ (h (choices 0) (hchoices 0)).2 fun n => hchoices (n + 1)

/-- What every guaranteed change keeps holds at the end. -/
theorem run_induct {Inv : S → Prop} {s : S} (h : Ensures serve allowed guarantee post p s)
    {choices : ℕ → C} (hchoices : ∀ n, allowed (choices n))
    (hkeep : ∀ s t, guarantee s t → Inv s → Inv t) (hs : Inv s) :
    Inv (p.run serve choices s).2 := by
  induction p generalizing s choices with
  | done result => exact hs
  | request r next ih =>
    have hfirst := h (choices 0) (hchoices 0)
    exact ih _ hfirst.2 (fun n => hchoices (n + 1)) (hkeep _ _ hfirst.1 hs)

theorem mono {guarantee' : S → S → Prop} {post' : Except ε α → S → Prop} {s : S}
    (h : Ensures serve allowed guarantee post p s)
    (hguarantee : ∀ s t, guarantee s t → guarantee' s t)
    (hpost : ∀ result t, post result t → post' result t) :
    Ensures serve allowed guarantee' post' p s := by
  induction p generalizing s with
  | done result => exact hpost result s h
  | request r next ih =>
    exact fun c hc => ⟨hguarantee _ _ (h c hc).1,ih _ (h c hc).2⟩

/-- A program that never changes the state ends in the one that it started with. -/
theorem unchanged {s : S} (h : Ensures serve allowed Eq post p s) :
    Ensures serve allowed (fun _ _ => True) (fun _ t => t = s) p s := by
  induction p generalizing s with
  | done result => rfl
  | request r next ih =>
    intro c hc
    obtain ⟨hsame,hnext⟩ := h c hc
    have hrest := ih _ hnext
    exact ⟨trivial,hrest.mono (fun _ _ h => h) fun _ t ht => ht.trans hsame.symm⟩

end Ensures

/-- The postcondition of a first part: what is asked of the rest, or that it failed well. -/
def andThen (serve : C → (r : R) → S → A r × S) (allowed : C → Prop) (guarantee : S → S → Prop)
    (post : Except ε β → S → Prop) (f : α → Script R A ε β) (result : Except ε α) (s : S) : Prop :=
  match result with
  | .ok a => Ensures serve allowed guarantee post (f a) s
  | .error e => post (.error e) s

theorem ensures_bind {post : Except ε β → S → Prop} {p : Script R A ε α}
    {f : α → Script R A ε β} {s : S} :
    Ensures serve allowed guarantee post (p >>= f) s ↔
      Ensures serve allowed guarantee (andThen serve allowed guarantee post f) p s := by
  induction p generalizing s with
  | done result => cases result <;> rfl
  | request r next ih =>
    exact forall_congr' fun c => imp_congr_right fun _ => and_congr_right fun _ => ih _

/-- A result that is there fails well, or the rest goes on with it. -/
theorem ensures_ofExcept_bind {post : Except ε β → S → Prop} {result : Except ε α}
    {f : α → Script R A ε β} {s : S} (herror : ∀ e, result = .error e → post (.error e) s)
    (hok : ∀ a, result = .ok a → Ensures serve allowed guarantee post (f a) s) :
    Ensures serve allowed guarantee post (ofExcept result >>= f) s := by
  cases result with
  | error e => exact herror e rfl
  | ok a => exact hok a rfl

end Running

end Script

end PhenixConductor.Collections

/-! ## Programs on a transactional store

A store has cells of different types. A program reads single cells, commits batches of
assertions and writes in one piece, and calls other services. Reads and commits may fail
by themselves, and a commit also fails where an assertion does not hold.
-/
namespace PhenixConductor.Collections
variable {K : Type} {V : K → Type} {Q : Type} {P : Q → Type}

/-- The contents of the cells; an absent cell has none. -/
abbrev Cells (V : K → Type) := (k : K) → Option (V k)

inductive CellOp (V : K → Type)
  | put (k : K) (value : V k)
  | assert (k : K) (expected : Option (V k))

namespace CellOp

def cell : CellOp V → K
  | .put k _ | .assert k _ => k

/-- The cell is written. -/
def Writes (k : K) : CellOp V → Prop
  | .put j _ => j = k
  | .assert _ _ => False

def write [DecidableEq K] (s : Cells V) : CellOp V → Cells V
  | .put k value => Function.update s k (some value)
  | .assert _ _ => s

def Holds (s : Cells V) : CellOp V → Prop
  | .assert k expected => s k = expected
  | .put _ _ => True

variable [DecidableEq K]

variable [∀ k, DecidableEq (V k)]

instance decidableHolds (s : Cells V) : (op : CellOp V) → Decidable (op.Holds s)
  | .assert k expected => inferInstanceAs (Decidable (s k = expected))
  | .put _ _ => inferInstanceAs (Decidable True)

/-- The cells after a batch, or the cell of the first assertion that does not hold. -/
def commit (s : Cells V) : List (CellOp V) → Except K (Cells V)
  | [] => .ok s
  | op :: ops => if op.Holds s then commit (op.write s) ops else .error op.cell

theorem commit_eq_ok {s t : Cells V} {ops : List (CellOp V)} :
    commit s ops = .ok t ↔ Along write Holds s ops ∧ runAll write s ops = t := by
  induction ops generalizing s with
  | nil => simp [commit, Along]
  | cons op ops ih =>
    rw [commit, Along]
    by_cases h : op.Holds s
    · rw [if_pos h, ih]
      simp [h]
    · simp [h]

end CellOp

inductive CommitError (K : Type)
  | failed (error : String)
  | assertion (k : K)

inductive StoreRequest (V : K → Type) (Q : Type)
  | read (k : K)
  | commit (ops : List (CellOp V))
  | call (q : Q)

namespace StoreRequest

def Answer (P : Q → Type) : StoreRequest V Q → Type
  | .read k => Except String (Option (V k))
  | .commit _ => Except (CommitError K) Unit
  | .call q => P q

end StoreRequest

/-- What the surroundings do at a request: a durable operation may fail by itself, and a call is
answered. -/
structure StoreTurn (P : Q → Type) where
  failure : Option String
  reply : (q : Q) → P q

abbrev StoreScript (V : K → Type) (P : Q → Type) (ε α : Type) :=
  Script (StoreRequest V Q) (StoreRequest.Answer (V := V) P) ε α

section Requests
variable {ε : Type}

def askRead (k : K) : StoreScript V P ε (Except String (Option (V k))) :=
  Script.ask (StoreRequest.read k)

def askCommit (ops : List (CellOp V)) : StoreScript V P ε (Except (CommitError K) Unit) :=
  Script.ask (StoreRequest.commit ops)

def askCall (q : Q) : StoreScript V P ε (P q) :=
  Script.ask (StoreRequest.call q)

end Requests

variable [DecidableEq K] [∀ k, DecidableEq (V k)]

/-- The outcome of a batch. -/
def committed (s : Cells V) (ops : List (CellOp V)) : Except (CommitError K) Unit × Cells V :=
  match CellOp.commit s ops with
  | .ok t => (.ok (),t)
  | .error k => (.error (.assertion k),s)

def serveStore (turn : StoreTurn P) : (r : StoreRequest V Q) → Cells V →
    StoreRequest.Answer P r × Cells V
  | .read k, s => (match turn.failure with
    | some error => .error error
    | none => .ok (s k),s)
  | .commit ops, s => match turn.failure with
    | some error => (.error (.failed error),s)
    | none => committed s ops
  | .call q, s => (turn.reply q,s)

/-- A run on its own, with the same turn at every request. -/
def alone {ε α : Type} (turn : StoreTurn P) (p : StoreScript V P ε α) (s : Cells V) :
    Except ε α × Cells V :=
  p.run serveStore (fun _ => turn) s

theorem alone_bind {ε α β : Type} {turn : StoreTurn P} {p : StoreScript V P ε α}
    {f : α → StoreScript V P ε β} {s : Cells V} :
    alone turn (p >>= f) s = match alone turn p s with
      | (.ok a,t) => alone turn (f a) t
      | (.error e,t) => (.error e,t) := by
  induction p generalizing s with
  | done result => cases result <;> rfl
  | request r next ih => exact ih _

theorem alone_bind_of_ok {ε α β : Type} {turn : StoreTurn P} {p : StoreScript V P ε α}
    {f : α → StoreScript V P ε β} {s t : Cells V} {a : α} (h : alone turn p s = (.ok a,t)) :
    alone turn (p >>= f) s = alone turn (f a) t := by
  rw [alone_bind,h]

section Rules
variable {ε β : Type} {allowed : StoreTurn P → Prop} {guarantee : Cells V → Cells V → Prop}
  {post : Except ε β → Cells V → Prop} {s : Cells V}
open Script

theorem ensures_askRead_bind {k : K} {f : Except String (Option (V k)) → StoreScript V P ε β}
    (hrefl : guarantee s s)
    (hfail : ∀ error, Ensures serveStore allowed guarantee post (f (.error error)) s)
    (hok : Ensures serveStore allowed guarantee post (f (.ok (s k))) s) :
    Ensures serveStore allowed guarantee post (askRead k >>= f) s := by
  rintro ⟨_ | error,reply⟩ -
  · exact ⟨hrefl,hok⟩
  · exact ⟨hrefl,hfail error⟩

theorem ensures_askCommit_bind {ops : List (CellOp V)}
    {f : Except (CommitError K) Unit → StoreScript V P ε β} (hrefl : guarantee s s)
    (hfail : ∀ error, Ensures serveStore allowed guarantee post (f (.error error)) s)
    (hok : ∀ t, CellOp.commit s ops = .ok t →
      guarantee s t ∧ Ensures serveStore allowed guarantee post (f (.ok ())) t) :
    Ensures serveStore allowed guarantee post (askCommit ops >>= f) s := by
  rintro ⟨_ | error,reply⟩ -
  · change guarantee s (committed s ops).2 ∧
      Ensures _ _ _ _ (f (committed s ops).1) (committed s ops).2
    unfold committed
    cases h : CellOp.commit s ops with
    | error k => exact ⟨hrefl,hfail (.assertion k)⟩
    | ok t => exact hok t h
  · exact ⟨hrefl,hfail (.failed error)⟩

theorem ensures_askCall_bind {q : Q} {f : P q → StoreScript V P ε β} (hrefl : guarantee s s)
    (h : ∀ turn, allowed turn → Ensures serveStore allowed guarantee post (f (turn.reply q)) s) :
    Ensures serveStore allowed guarantee post (askCall q >>= f) s :=
  fun turn hturn => ⟨hrefl,h turn hturn⟩

end Rules

end PhenixConductor.Collections
