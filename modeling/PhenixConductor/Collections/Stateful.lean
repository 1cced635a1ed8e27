import Mathlib.Order.Defs.Unbundled

/-! # Fallible computations on a state

A computation that fails leaves the state as it was when it failed.
-/
namespace PhenixConductor.Collections
open EStateM
variable {ε σ α β : Type}

@[simp] theorem stateful_pure (a : α) (s : σ) : (pure a : EStateM ε σ α) s = .ok a s := rfl

@[simp] theorem stateful_throw (e : ε) (s : σ) : (throw e : EStateM ε σ α) s = .error e s := rfl

@[simp] theorem stateful_get (s : σ) : (get : EStateM ε σ σ) s = .ok s s := rfl

@[simp] theorem stateful_set (s t : σ) : (set t : EStateM ε σ PUnit) s = .ok ⟨⟩ t := rfl

@[simp] theorem stateful_modify (f : σ → σ) (s : σ) :
    (modify f : EStateM ε σ PUnit) s = .ok ⟨⟩ (f s) := rfl

/-- A check that does not touch the state. -/
def check (x : Except ε α) : EStateM ε σ α := fun s =>
  match x with
  | .ok a => .ok a s
  | .error e => .error e s

@[simp] theorem check_ok (a : α) (s : σ) :
    (check (.ok a) : EStateM ε σ α) s = .ok a s := rfl

@[simp] theorem check_error (e : ε) (s : σ) :
    (check (.error e) : EStateM ε σ α) s = .error e s := rfl

theorem stateful_bind (x : EStateM ε σ α) (f : α → EStateM ε σ β) (s : σ) :
    (x >>= f) s = match x s with
      | .ok a t => f a t
      | .error e t => .error e t := rfl

variable {x : EStateM ε σ α} {f : α → EStateM ε σ β} {s t : σ}

theorem stateful_bind_ok {a : α} (h : x s = .ok a t) : (x >>= f) s = f a t := by
  rw [stateful_bind, h]

theorem stateful_bind_error {e : ε} (h : x s = .error e t) : (x >>= f) s = .error e t := by
  rw [stateful_bind, h]

theorem stateful_bind_eq_ok {b : β} :
    (x >>= f) s = .ok b t ↔ ∃ a u, x s = .ok a u ∧ f a u = .ok b t := by
  rw [stateful_bind]
  cases x s with
  | ok a u =>
    constructor
    · exact fun h => ⟨a,u,rfl,h⟩
    · rintro ⟨_,_,⟨⟩,h⟩
      exact h
  | error e u => simp

/-- A program fails in its first part, or after it. -/
theorem stateful_bind_eq_error {e : ε} : (x >>= f) s = .error e t ↔
      x s = .error e t ∨ ∃ a u, x s = .ok a u ∧ f a u = .error e t := by
  rw [stateful_bind]
  cases x s with
  | ok a u =>
    simp only [reduceCtorEq, false_or]
    constructor
    · exact fun h => ⟨a,u,rfl,h⟩
    · rintro ⟨_,_,⟨⟩,h⟩
      exact h
  | error e' u => simp

/-- What a computation gives, if it gives anything. -/
def answer? : Result ε σ α → Option α
  | .ok a _ => some a
  | .error _ _ => none

theorem answer?_eq_some {x : Result ε σ α} {a : α} : answer? x = some a ↔ ∃ t, x = .ok a t := by
  cases x <;> simp [answer?]

/-- The state that a computation leaves, also when it fails. -/
def after (x : EStateM ε σ α) (s : σ) : σ :=
  match x s with
  | .ok _ t => t
  | .error _ t => t

theorem after_ok {a : α} (h : x s = .ok a t) : after x s = t := by
  rw [after, h]

theorem after_error {e : ε} (h : x s = .error e t) : after x s = t := by
  rw [after, h]

@[simp] theorem after_check (x : Except ε α) (s : σ) : after (check x) s = s := by
  cases x <;> rfl

theorem check_eq_ok {x : Except ε α} {a : α} : check x s = .ok a t ↔ x = .ok a ∧ t = s := by
  cases x <;> simp [eq_comm]

theorem check_bind_eq_ok {x : Except ε α} {b : β} :
    (check x >>= f) s = .ok b t ↔ ∃ a, x = .ok a ∧ f a s = .ok b t := by
  rw [stateful_bind]
  cases x <;> simp

/-- What the parts of a computation keep holds also where it fails. -/
theorem after_bind_invariant {P : σ → Prop} (hx : P (after x s))
    (hf : ∀ a t, x s = .ok a t → P t → P (after (f a) t)) : P (after (x >>= f) s) := by
  cases h : x s with
  | ok a t =>
    rw [after_ok h] at hx
    have hrest := hf a t h hx
    unfold after at hrest ⊢
    rwa [stateful_bind_ok h]
  | error e t =>
    rw [after_error h] at hx
    rwa [after_error (stateful_bind_error h)]

theorem after_forM_invariant {P : σ → Prop} {l : List α} {f : α → EStateM ε σ PUnit}
    (hf : ∀ a ∈ l, ∀ s, P s → P (after (f a) s)) (hs : P s) : P (after (l.forM f) s) := by
  induction l generalizing s with
  | nil => exact hs
  | cons a l ih =>
    exact after_bind_invariant (hf a (by simp) s hs) fun _ t _ ht =>
      ih (fun b hb => hf b (by simp [hb])) ht

/-- An update that is made if a check of the state passes, with what the check finds. -/
def checked (f : σ → Except ε α) (g : σ → α → σ) : EStateM ε σ Unit := do
  let s ← get
  let a ← check (f s)
  set (g s a)

theorem checked_eq (f : σ → Except ε α) (g : σ → α → σ) (s : σ) :
    checked f g s = match f s with
      | .ok a => .ok ⟨⟩ (g s a)
      | .error e => .error e s := by
  simp only [checked, stateful_bind, stateful_get]
  cases f s <;> rfl

/-- A checked update that fails leaves the state as it was. -/
theorem checked_eq_error {f : σ → Except ε α} {g : σ → α → σ} {e : ε}
    (h : checked f g s = .error e t) : t = s := by
  rw [checked_eq] at h
  cases hf : f s with
  | ok a => simp [hf] at h
  | error e' =>
    simp only [hf, Result.error.injEq] at h
    exact h.2.symm

/-- A checked update changes the state as it says, or not at all. -/
theorem after_checked (f : σ → Except ε α) (g : σ → α → σ) (s : σ) :
    (∃ a, f s = .ok a ∧ after (checked f g) s = g s a) ∨ after (checked f g) s = s := by
  unfold after
  rw [checked_eq]
  cases hf : f s with
  | ok a => exact .inl ⟨a,rfl,rfl⟩
  | error e => exact .inr rfl

/-- A checked update that answers with what the check finds. -/
def answered (f : σ → Except ε α) (g : σ → α → σ) : EStateM ε σ α := do
  let s ← get
  let a ← check (f s)
  set (g s a)
  return a

theorem answered_eq (f : σ → Except ε α) (g : σ → α → σ) (s : σ) :
    answered f g s = match f s with
      | .ok a => .ok a (g s a)
      | .error e => .error e s := by
  simp only [answered, stateful_bind, stateful_get]
  cases f s <;> rfl

theorem answered_eq_error {f : σ → Except ε α} {g : σ → α → σ} {e : ε}
    (h : answered f g s = .error e t) : t = s := by
  rw [answered_eq] at h
  cases hf : f s with
  | ok a => simp [hf] at h
  | error e' =>
    simp only [hf, Result.error.injEq] at h
    exact h.2.symm

/-- A computation on a copy of the state. What a failure leaves of the copy is dropped. -/
def onCopy (x : EStateM ε σ α) (s : σ) : Except ε (α × σ) :=
  match x s with
  | .ok a t => .ok (a,t)
  | .error e _ => .error e

theorem onCopy_checked (f : σ → Except ε α) (g : σ → α → σ) (s : σ) :
    onCopy (checked f g) s = (f s).map fun a => (⟨⟩,g s a) := by
  rw [onCopy, checked_eq]
  cases f s <;> rfl

theorem onCopy_answered (f : σ → Except ε α) (g : σ → α → σ) (s : σ) :
    onCopy (answered f g) s = (f s).map fun a => (a,g s a) := by
  rw [onCopy, answered_eq]
  cases f s <;> rfl

theorem after_bind_check (x : EStateM ε σ α) (f : α → Except ε β) (s : σ) :
    after (x >>= fun a => check (f a)) s = after x s := by
  unfold after
  rw [stateful_bind]
  cases x s with
  | ok a t => cases h : f a <;> simp [h]
  | error e t => rfl

theorem tryCatch_of_ok {handler : ε → EStateM ε σ α} {a : α} (h : x s = .ok a t) :
    tryCatch x handler s = .ok a t := by
  change EStateM.tryCatch x handler s = _
  delta EStateM.tryCatch
  rw [h]

theorem tryCatch_of_error {handler : ε → EStateM ε σ α} {e : ε} (h : x s = .error e t) :
    tryCatch x handler s = handler e t := by
  change EStateM.tryCatch x handler s = _
  delta EStateM.tryCatch
  rw [h]
  rfl

section Moves
variable {R : σ → σ → Prop} {x : EStateM ε σ α} {f : α → EStateM ε σ β}

/-- The state only moves along a relation, also where the computation fails. -/
def Moves (R : σ → σ → Prop) (x : EStateM ε σ α) : Prop := ∀ s, R s (after x s)

/-- Where the computation fails, the state has only moved along a relation. -/
def FailsAlong (R : σ → σ → Prop) (x : EStateM ε σ α) : Prop := ∀ s e t, x s = .error e t → R s t

theorem Moves.ok (hx : Moves R x) {s t : σ} {a : α} (h : x s = .ok a t) : R s t := by
  have hs := hx s
  rwa [after_ok h] at hs

theorem Moves.failsAlong (hx : Moves R x) : FailsAlong R x := by
  intro s e t h
  have hs := hx s
  rwa [after_error h] at hs

theorem moves_check [Std.Refl R] (y : Except ε α) : Moves R (check y) := fun s => by
  rw [after_check]
  exact Std.Refl.refl s

theorem moves_get [Std.Refl R] : Moves R (get : EStateM ε σ σ) := fun s => Std.Refl.refl s

theorem failsAlong_checked [Std.Refl R] (g : σ → Except ε α) (k : σ → α → σ) :
    FailsAlong R (checked g k) := by
  intro s e t h
  rw [checked_eq_error h]
  exact Std.Refl.refl s

theorem Moves.bind [IsTrans σ R] (hx : Moves R x) (hf : ∀ a, Moves R (f a)) :
    Moves R (x >>= f) := by
  intro s
  cases h : x s with
  | ok a t =>
    have hrest := hf a t
    unfold after at hrest ⊢
    rw [stateful_bind_ok h]
    exact IsTrans.trans _ _ _ (hx.ok h) hrest
  | error e t =>
    rw [after_error (stateful_bind_error h)]
    exact hx.failsAlong s e t h

theorem Moves.tryCatch [IsTrans σ R] {y : EStateM ε σ α} {handler : ε → EStateM ε σ α}
    (hy : Moves R y) (hhandler : ∀ e, Moves R (handler e)) : Moves R (tryCatch y handler) := by
  intro s
  cases h : y s with
  | ok a t =>
    rw [after_ok (tryCatch_of_ok h)]
    exact hy.ok h
  | error e t =>
    have hrest := hhandler e t
    unfold after at hrest ⊢
    rw [tryCatch_of_error h]
    exact IsTrans.trans _ _ _ (hy.failsAlong s e t h) hrest

/-- What a computation gives does not matter. -/
theorem Moves.map (hx : Moves R x) (f : α → β) : Moves R (x.map f) := by
  intro s
  cases h : x s with
  | ok a t =>
    rw [after, EStateM.map, h]
    exact hx.ok h
  | error e t =>
    rw [after, EStateM.map, h]
    exact hx.failsAlong s e t h

theorem FailsAlong.bind [IsTrans σ R] (hx : Moves R x) (hf : ∀ a, FailsAlong R (f a)) :
    FailsAlong R (x >>= f) := by
  intro s e t h
  rw [stateful_bind] at h
  cases hs : x s with
  | ok a u =>
    rw [hs] at h
    exact IsTrans.trans _ _ _ (hx.ok hs) (hf a u e t h)
  | error e' u =>
    rw [hs] at h
    cases h
    exact hx.failsAlong s e t hs

/-- What follows does not fail. -/
theorem FailsAlong.bind_ok (hx : FailsAlong R x) {g : α → σ → β} {k : α → σ → σ}
    (hf : ∀ a s, f a s = .ok (g a s) (k a s)) : FailsAlong R (x >>= f) := by
  intro s e t h
  rw [stateful_bind] at h
  cases hs : x s with
  | ok a u =>
    simp only [hs, hf] at h
    cases h
  | error e' u =>
    rw [hs] at h
    cases h
    exact hx s e t hs

end Moves

end PhenixConductor.Collections
