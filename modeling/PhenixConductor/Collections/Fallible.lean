import Mathlib.Data.List.Forall2

/-! # Loops that stop at the first error

`List.forM` and binds in `Except` succeed exactly when every step does.
-/
namespace PhenixConductor.Collections
variable {ε α β : Type}

@[simp] theorem ok_bind (a : α) (f : α → Except ε β) : (Except.ok a >>= f) = f a := rfl

@[simp] theorem error_bind (e : ε) (f : α → Except ε β) :
    (Except.error e >>= f) = .error e := rfl

@[simp] theorem ok_map (a : α) (f : α → β) :
    (f <$> (Except.ok a : Except ε α)) = .ok (f a) := rfl

variable {x : Except ε α} {f : α → Except ε β}

theorem bind_eq_ok {b : β} : (x >>= f) = .ok b ↔ ∃ a, x = .ok a ∧ f a = .ok b := by
  cases x with
  | error e =>
    constructor
    · intro h
      cases h
    · rintro ⟨a,h,_⟩
      cases h
  | ok a =>
    constructor
    · exact fun h => ⟨a,rfl,h⟩
    · rintro ⟨a',h,hf⟩
      cases h
      exact hf

theorem seq_eq_ok {x : Except ε Unit} {y : Except ε β} {b : β} :
    (x >>= fun _ => y) = .ok b ↔ x = .ok () ∧ y = .ok b := by
  rw [bind_eq_ok]
  exact ⟨fun ⟨_,hx,hy⟩ => ⟨hx,hy⟩,fun ⟨hx,hy⟩ => ⟨(),hx,hy⟩⟩

/-- A check of a condition. -/
def ensure (p : Prop) [Decidable p] (e : ε) : Except ε Unit := if p then .ok () else .error e

@[simp] theorem ensure_eq_ok {p : Prop} [Decidable p] {e : ε} {u : Unit} :
    ensure p e = .ok u ↔ p := by
  unfold ensure
  split_ifs with h <;> simp [h]

theorem ensure_eq_error {p : Prop} [Decidable p] {e e' : ε} :
    ensure p e = .error e' ↔ ¬ p ∧ e = e' := by
  unfold ensure
  split_ifs with h <;> simp [h]

theorem bind_eq_error {e : ε} :
    (x >>= f) = .error e ↔ x = .error e ∨ ∃ a, x = .ok a ∧ f a = .error e := by
  cases x <;> simp

variable {l : List α}

/-- A loop over a list succeeds exactly when its body does on every member. -/
theorem forM_eq_ok {f : α → Except ε Unit} : l.forM f = .ok () ↔ ∀ a ∈ l, f a = .ok () := by
  induction l with
  | nil => simp [pure, Except.pure]
  | cons a l ih =>
    change (f a >>= fun _ => l.forM f) = .ok () ↔ _
    rw [seq_eq_ok, ih, List.forall_mem_cons]

theorem forM_eq_error {f : α → Except ε Unit} {e : ε} (h : l.forM f = .error e) :
    ∃ a ∈ l, f a = .error e := by
  induction l with
  | nil => cases h
  | cons a l ih =>
    rcases bind_eq_error.mp h with ha | ⟨_,-,hl⟩
    · exact ⟨a,by simp,ha⟩
    · obtain ⟨b,hb,hb'⟩ := ih hl
      exact ⟨b,by simp [hb],hb'⟩

theorem mapError_eq_ok {ε' : Type} {f : ε → ε'} {a : α} : x.mapError f = .ok a ↔ x = .ok a := by
  cases x <;> simp [Except.mapError]

theorem map_eq_ok {f : α → β} {b : β} : x.map f = .ok b ↔ ∃ a, x = .ok a ∧ f a = b := by
  cases x <;> simp [Except.map]

theorem toOption_eq_some {a : α} : x.toOption = some a ↔ x = .ok a := by
  cases x <;> simp [Except.toOption]

/-- A loop that collects results succeeds exactly when its body does on every member. -/
theorem mapM_eq_ok {r : List β} : l.mapM f = .ok r ↔ List.Forall₂ (fun a b => f a = .ok b) l r := by
  induction l generalizing r with
  | nil =>
    simp only [List.mapM_nil, pure, Except.pure, Except.ok.injEq, List.forall₂_nil_left_iff]
    exact eq_comm
  | cons a l ih =>
    rw [List.mapM_cons, bind_eq_ok, List.forall₂_cons_left_iff]
    refine exists_congr fun b => ?_
    rw [bind_eq_ok]
    constructor
    · rintro ⟨hb,rest,hr,he⟩
      exact ⟨rest,hb,ih.mp hr,(Except.ok.inj he).symm⟩
    · rintro ⟨rest,hb,hr,rfl⟩
      exact ⟨hb,rest,ih.mpr hr,rfl⟩

theorem Forall₂.exists_right {R : α → β → Prop} {r : List β} (h : List.Forall₂ R l r) {a : α}
    (ha : a ∈ l) : ∃ b ∈ r, R a b := by
  induction h with
  | nil => simp at ha
  | cons hr _ ih =>
    rcases List.mem_cons.mp ha with rfl | ha
    · exact ⟨_,by simp,hr⟩
    · obtain ⟨b,hb,hab⟩ := ih ha
      exact ⟨b,by simp [hb],hab⟩

theorem Forall₂.exists_left {R : α → β → Prop} {r : List β} (h : List.Forall₂ R l r) {b : β}
    (hb : b ∈ r) : ∃ a ∈ l, R a b :=
  Forall₂.exists_right h.flip hb

theorem mapM_ok_of_forall (h : ∀ a ∈ l, ∃ b, f a = .ok b) : ∃ r, l.mapM f = .ok r := by
  induction l with
  | nil => exact ⟨[],rfl⟩
  | cons a l ih =>
    obtain ⟨b,hb⟩ := h a (by simp)
    obtain ⟨r,hr⟩ := ih fun a ha => h a (by simp [ha])
    exact ⟨b :: r,by rw [List.mapM_cons, hb, hr]; rfl⟩

/-- What the body of a loop preserves holds at its end. -/
theorem foldlM_invariant {f : β → α → Except ε β} {I : β → Prop}
    (hstep : ∀ a ∈ l, ∀ s t, I s → f s a = .ok t → I t) {s t : β} (hs : I s)
    (h : l.foldlM f s = .ok t) : I t := by
  induction l generalizing s with
  | nil =>
    cases h
    exact hs
  | cons a l ih =>
    rw [List.foldlM_cons, bind_eq_ok] at h
    obtain ⟨next,hnext,h⟩ := h
    exact ih (fun b hb => hstep b (by simp [hb])) (hstep a (by simp) s next hs hnext) h

/-- A loop that adds at most one item in every turn. -/
theorem foldlM_length_le {f : List β → α → Except ε (List β)}
    (hstep : ∀ s a t, f s a = .ok t → t.length ≤ s.length + 1) {s t : List β}
    (h : l.foldlM f s = .ok t) : t.length ≤ s.length + l.length := by
  induction l generalizing s with
  | nil =>
    cases h
    exact Nat.le_refl _
  | cons a l ih =>
    rw [List.foldlM_cons, bind_eq_ok] at h
    obtain ⟨next,hnext,h⟩ := h
    have hfirst := hstep s a next hnext
    have hrest := ih h
    rw [List.length_cons]
    omega

/-- A loop that fails does so in a turn for a member of its list. -/
theorem foldlM_eq_error {f : β → α → Except ε β} {s : β} {e : ε} (h : l.foldlM f s = .error e) :
    ∃ a ∈ l, ∃ t, f t a = .error e := by
  induction l generalizing s with
  | nil => cases h
  | cons a l ih =>
    rcases bind_eq_error.mp h with ha | ⟨t,-,hl⟩
    · exact ⟨a,by simp,s,ha⟩
    · obtain ⟨b,hb,t,hb'⟩ := ih hl
      exact ⟨b,by simp [hb],t,hb'⟩

theorem mapM_eq_error {e : ε} (h : l.mapM f = .error e) : ∃ a ∈ l, f a = .error e := by
  induction l with
  | nil => cases h
  | cons a l ih =>
    rw [List.mapM_cons] at h
    rcases bind_eq_error.mp h with ha | ⟨_,-,hl⟩
    · exact ⟨a,by simp,ha⟩
    · rcases bind_eq_error.mp hl with hl | ⟨_,-,hl⟩
      · obtain ⟨b,hb,hb'⟩ := ih hl
        exact ⟨b,by simp [hb],hb'⟩
      · cases hl

theorem isSome_of_mapM {f : α → Option β} {r : List β} (h : l.mapM f = some r) :
    ∀ a ∈ l, (f a).isSome := by
  induction l generalizing r with
  | nil => simp
  | cons a l ih =>
    rw [List.mapM_cons] at h
    obtain ⟨b,hb,hrest⟩ := Option.bind_eq_some_iff.mp h
    obtain ⟨rest,hl,-⟩ := Option.bind_eq_some_iff.mp hrest
    intro c hc
    rcases List.mem_cons.mp hc with rfl | hc
    · simp [hb]
    · exact ih hl c hc

/-- Two computations that both fail or return the same. -/
def SameOutcome (x y : Except ε α) : Prop := ∀ a, x = .ok a ↔ y = .ok a

theorem SameOutcome.refl (x : Except ε α) : SameOutcome x x := fun _ => Iff.rfl

theorem SameOutcome.bind {y : Except ε α} {g : α → Except ε β} (h : SameOutcome x y)
    (hf : ∀ a, SameOutcome (f a) (g a)) : SameOutcome (x >>= f) (y >>= g) := by
  intro b
  rw [bind_eq_ok, bind_eq_ok]
  exact exists_congr fun a => and_congr (h a) (hf a b)

theorem sameOutcome_iff {y : Except ε α} : SameOutcome x y ↔
    (∃ e e', x = .error e ∧ y = .error e') ∨ ∃ a, x = .ok a ∧ y = .ok a := by
  cases x <;> cases y <;> simp [SameOutcome, eq_comm]

end PhenixConductor.Collections
