import PhenixConductor.Collections.Stateful

/-! # What a computation can come to

A condition on the outcome of a computation speaks of the result with the state that it leaves,
and of an error with the state that it leaves.
-/
namespace PhenixConductor.Collections
variable {ε ε' σ τ α β : Type}

/-- The computation, from a state, returns as `good` says or fails as `bad` says. -/
def Outcome (x : EStateM ε σ α) (s : σ) (good : α → σ → Prop) (bad : ε → σ → Prop) : Prop :=
  match x s with
  | .ok a t => good a t
  | .error e t => bad e t

section Rules
variable {x : EStateM ε σ α} {f : α → EStateM ε σ β} {s : σ} {good good' : α → σ → Prop}
  {bad bad' : ε → σ → Prop}

theorem Outcome.mono (h : Outcome x s good bad) (hgood : ∀ a t, good a t → good' a t)
    (hbad : ∀ e t, bad e t → bad' e t) : Outcome x s good' bad' := by
  unfold Outcome at h ⊢
  cases hx : x s with
  | ok a t => exact hgood a t (by simpa [hx] using h)
  | error e t => exact hbad e t (by simpa [hx] using h)

/-- A condition on the state alone is one on the state that is left. -/
theorem outcome_iff_after {P : σ → Prop} :
    (Outcome x s (fun _ => P) fun _ => P) ↔ P (after x s) := by
  unfold Outcome after
  cases x s <;> rfl

theorem Outcome.ok (h : Outcome x s good bad) {a : α} {t : σ} (hx : x s = .ok a t) : good a t := by
  unfold Outcome at h
  rwa [hx] at h

theorem Outcome.error (h : Outcome x s good bad) {e : ε} {t : σ} (hx : x s = .error e t) :
    bad e t := by
  unfold Outcome at h
  rwa [hx] at h

theorem outcome_pure {a : α} (h : good a s) : Outcome (pure a) s good bad := h

theorem outcome_throw {e : ε} (h : bad e s) : Outcome (throw e) s good bad := h

theorem outcome_check {y : Except ε α} (hgood : ∀ a, y = .ok a → good a s)
    (hbad : ∀ e, y = .error e → bad e s) : Outcome (check y) s good bad := by
  cases y with
  | ok a => exact hgood a rfl
  | error e => exact hbad e rfl

theorem Outcome.bind {good' : β → σ → Prop} (h : Outcome x s good bad)
    (hf : ∀ a t, good a t → Outcome (f a) t good' bad) : Outcome (x >>= f) s good' bad := by
  unfold Outcome at h ⊢
  cases hx : x s with
  | ok a t =>
    rw [stateful_bind_ok hx]
    exact hf a t (by simpa [hx] using h)
  | error e t =>
    rw [stateful_bind_error hx]
    simpa [hx] using h

theorem outcome_get_bind {f : σ → EStateM ε σ β} {good : β → σ → Prop}
    (h : Outcome (f s) s good bad) : Outcome (get >>= f) s good bad := h

theorem outcome_check_bind {y : Except ε α} {good : β → σ → Prop}
    (hf : ∀ a, y = .ok a → Outcome (f a) s good bad) (hbad : ∀ e, y = .error e → bad e s) :
    Outcome (check y >>= f) s good bad := by
  cases y with
  | ok a => exact hf a rfl
  | error e => exact hbad e rfl

/-- The handler takes over where the computation fails. -/
theorem Outcome.tryCatch {handler : ε → EStateM ε σ α} (h : Outcome x s good bad)
    (hhandler : ∀ e t, bad e t → Outcome (handler e) t good bad') :
    Outcome (tryCatch x handler) s good bad' := by
  cases hx : x s with
  | ok a t =>
    unfold Outcome
    rw [tryCatch_of_ok hx]
    exact h.ok hx
  | error e t =>
    have hrest := hhandler e t (h.error hx)
    unfold Outcome at hrest ⊢
    rwa [tryCatch_of_error hx]

end Rules

/-- A computation on a part of the state, with the words of the whole for its errors. -/
def within (view : σ → τ) (update : σ → τ → σ) (describe : ε' → ε) (x : EStateM ε' τ α) :
    EStateM ε σ α := fun s =>
  match x (view s) with
  | .ok a t => .ok a (update s t)
  | .error e t => .error (describe e) (update s t)

theorem outcome_within {view : σ → τ} {update : σ → τ → σ} {describe : ε' → ε}
    {x : EStateM ε' τ α} {s : σ} {good : α → σ → Prop} {bad : ε → σ → Prop}
    (h : Outcome x (view s) (fun a t => good a (update s t)) fun e t =>
      bad (describe e) (update s t)) : Outcome (within view update describe x) s good bad := by
  unfold Outcome within at *
  cases hx : x (view s) with
  | ok a t => simpa [hx] using h
  | error e t => simpa [hx] using h

end PhenixConductor.Collections

/-! ## Calls of a service

A call of a service is served, or it fails before the service has done anything, or it fails
after the service has done its work and the answer is lost. The caller cannot tell the last
two apart.
-/
namespace PhenixConductor.Collections
variable {ε δ σ α : Type}

inductive CallFate (ε : Type)
  | served
  | refused (error : ε)
  | lost (error : ε)

/-- What the caller is told, and the state in which the service is left. -/
def CallFate.call (fate : CallFate ε) (describe : δ → ε) (x : EStateM δ σ α) (s : σ) :
    Except ε α × σ :=
  match fate with
  | .refused error => (.error error,s)
  | .lost error => (.error error,after x s)
  | .served =>
    match x s with
    | .ok a t => (.ok a,t)
    | .error failure t => (.error (describe failure),t)

section Outcome
variable {fate : CallFate ε} {describe : δ → ε} {x : EStateM δ σ α} {s t : σ} {a : α}

/-- An answer is the answer of the service. -/
theorem CallFate.call_eq_ok (h : fate.call describe x s = (.ok a,t)) :
    fate = .served ∧ x s = .ok a t := by
  cases fate with
  | refused error => cases h
  | lost error => cases h
  | served =>
    simp only [CallFate.call] at h
    cases hx : x s with
    | ok b u =>
      rw [hx] at h
      cases h
      exact ⟨rfl,rfl⟩
    | error failure u =>
      rw [hx] at h
      cases h

/-- The service is left as it was, or as the call leaves it. -/
theorem CallFate.call_state (fate : CallFate ε) (describe : δ → ε) (x : EStateM δ σ α) (s : σ) :
    (fate.call describe x s).2 = s ∨ (fate.call describe x s).2 = after x s := by
  cases fate with
  | refused error => exact .inl rfl
  | lost error => exact .inr rfl
  | served =>
    right
    unfold CallFate.call after
    cases x s <;> rfl

end Outcome

end PhenixConductor.Collections
