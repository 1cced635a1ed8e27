import Mathlib.Data.List.Infix

/-! # Labelled branching structures and addressed edits

A node exposes its children by label, and a child slot may be filled or emptied.
-/
namespace PhenixConductor.Collections
open List

/-- Labelled children with a slot-wise update. `admits v s x` says that slot `s`
of `v` can hold `x`; it depends only on the shape of `v`, which updates keep. -/
class Branching (N : Type) (S : outParam Type) where
  child : N → S → Option N
  setChild : N → S → Option N → N
  admits : N → S → Option N → Prop
  child_setChild_self : ∀ {v s x}, admits v s x → child (setChild v s x) s = x
  child_setChild_of_ne : ∀ {v s t} x, s ≠ t → child (setChild v s x) t = child v t
  setChild_child : ∀ v s, setChild v s (child v s) = v
  setChild_setChild : ∀ {v s y} x, admits v s y → setChild (setChild v s x) s y = setChild v s y
  setChild_comm : ∀ {v s t} x y, s ≠ t →
    setChild (setChild v s x) t y = setChild (setChild v t y) s x
  admits_setChild : ∀ {v s t} x y, admits (setChild v s x) t y ↔ admits v t y
  admits_of_child : ∀ {v s c} y, child v s = some c → admits v s (some y)
  admits_child : ∀ {v s x}, admits v s x → admits v s (child v s)

namespace Branching
variable {N S : Type} [Branching N S]

/-- Read along a path. -/
def getAt : Option N → List S → Option N
  | o, [] => o
  | none, _ :: _ => none
  | some v, s :: p => getAt (child v s) p

/-- Write along a path; nothing happens below an absent node. -/
def putAt : Option N → List S → Option N → Option N
  | _, [], x => x
  | none, _ :: _, _ => none
  | some v, s :: p, x => some (setChild v s (putAt (child v s) p x))

/-- The parent of the path is present and its last slot can hold `x`. -/
def Admits : Option N → List S → Option N → Prop
  | _, [], _ => True
  | none, _ :: _, _ => False
  | some v, [s], x => admits v s x
  | some v, s :: t :: p, x => Admits (child v s) (t :: p) x

/-- Neither path is a prefix of the other. -/
def Incomparable (p q : List S) : Prop := ¬ p <+: q ∧ ¬ q <+: p

variable {p q : List S}

theorem Incomparable.symm (h : Incomparable p q) : Incomparable q p := ⟨h.2,h.1⟩

theorem incomparable_cons {s : S} : Incomparable (s :: p) (s :: q) ↔ Incomparable p q := by
  simp [Incomparable, cons_prefix_cons]

@[simp] theorem getAt_nil (o : Option N) : getAt o [] = o := by cases o <;> rfl
@[simp] theorem getAt_none (p : List S) : getAt (none : Option N) p = none := by cases p <;> rfl
@[simp] theorem getAt_some_cons (v : N) (s : S) (p : List S) :
    getAt (some v) (s :: p) = getAt (child v s) p := rfl
@[simp] theorem putAt_nil (o x : Option N) : putAt o [] x = x := by cases o <;> rfl
@[simp] theorem putAt_some_cons (v : N) (s : S) (p : List S) (x : Option N) :
    putAt (some v) (s :: p) x = some (setChild v s (putAt (child v s) p x)) := rfl
@[simp] theorem putAt_none_cons (s : S) (p : List S) (x : Option N) :
    putAt (none : Option N) (s :: p) x = none := rfl
@[simp] theorem admits_nil (o x : Option N) : Admits o [] x := by cases o <;> trivial
@[simp] theorem not_admits_none_cons (s : S) (p : List S) (x : Option N) :
    ¬ Admits (none : Option N) (s :: p) x := fun h => h
@[simp] theorem admits_some_singleton (v : N) (s : S) (x : Option N) :
    Admits (some v) [s] x ↔ admits v s x := Iff.rfl

theorem admits_some_cons (hp : p ≠ []) (v : N) (s : S) (x : Option N) :
    Admits (some v) (s :: p) x ↔ Admits (child v s) p x := by
  obtain ⟨t,p,rfl⟩ := exists_cons_of_ne_nil hp
  exact Iff.rfl

theorem getAt_append (o : Option N) (p q : List S) : getAt o (p ++ q) = getAt (getAt o p) q := by
  induction p generalizing o with
  | nil => simp
  | cons s p ih =>
    cases o with
    | none => simp
    | some v => exact ih (child v s)

theorem putAt_getAt (o : Option N) (p : List S) : putAt o p (getAt o p) = o := by
  induction p generalizing o with
  | nil => simp
  | cons s p ih =>
    cases o with
    | none => rfl
    | some v => rw [getAt_some_cons, putAt_some_cons, ih, setChild_child]

/-- An edit strictly below a slot keeps the slot as present as it was. -/
theorem putAt_eq_none_iff (hp : p ≠ []) (o x : Option N) : putAt o p x = none ↔ o = none := by
  obtain ⟨s,p,rfl⟩ := exists_cons_of_ne_nil hp
  cases o <;> simp

/-- After an edit strictly below `s`, reading `s` gives the edited child. -/
theorem child_setChild_putAt (hp : p ≠ []) (v : N) (s : S) (x : Option N) :
    child (setChild v s (putAt (child v s) p x)) s = putAt (child v s) p x := by
  cases hc : child v s with
  | none =>
    rw [(putAt_eq_none_iff hp none x).mpr rfl, ← hc, setChild_child]
  | some c =>
    obtain ⟨s',p,rfl⟩ := exists_cons_of_ne_nil hp
    exact child_setChild_self (admits_of_child _ hc)

variable {o : Option N}

theorem getAt_putAt_self {x : Option N} (h : Admits o p x) : getAt (putAt o p x) p = x := by
  induction p generalizing o with
  | nil => simp
  | cons s p ih =>
    cases o with
    | none => exact absurd h (not_admits_none_cons _ _ _)
    | some v =>
      by_cases hp : p = []
      · subst hp
        simpa using child_setChild_self h
      · rw [putAt_some_cons, getAt_some_cons, child_setChild_putAt hp]
        exact ih ((admits_some_cons hp v s x).mp h)

theorem getAt_putAt_of_incomparable (h : Incomparable p q) (o x : Option N) :
    getAt (putAt o p x) q = getAt o q := by
  induction p generalizing o q with
  | nil => exact absurd nil_prefix h.1
  | cons s p ih =>
    cases q with
    | nil => exact absurd nil_prefix h.2
    | cons t q =>
      cases o with
      | none => rfl
      | some v =>
        by_cases hst : s = t
        · subst hst
          have hpq := incomparable_cons.mp h
          have hp : p ≠ [] := fun e => hpq.1 (e ▸ nil_prefix)
          rw [putAt_some_cons, getAt_some_cons, child_setChild_putAt hp]
          exact ih hpq _
        · simp [child_setChild_of_ne _ hst]

theorem putAt_putAt_self {y : Option N} (x : Option N) (h : Admits o p y) :
    putAt (putAt o p x) p y = putAt o p y := by
  induction p generalizing o with
  | nil => simp
  | cons s p ih =>
    cases o with
    | none => rfl
    | some v =>
      by_cases hp : p = []
      · subst hp
        simpa using setChild_setChild x h
      · have hi := ih ((admits_some_cons hp v s y).mp h)
        have hs : admits v s (putAt (child v s) p y) := by
          cases hc : child v s with
          | none =>
            rw [admits_some_cons hp, hc] at h
            obtain ⟨t,p,rfl⟩ := exists_cons_of_ne_nil hp
            exact absurd h (not_admits_none_cons _ _ _)
          | some c =>
            obtain ⟨t,p,rfl⟩ := exists_cons_of_ne_nil hp
            exact admits_of_child _ hc
        rw [putAt_some_cons, putAt_some_cons, child_setChild_putAt hp, hi, setChild_setChild _ hs]
        rfl

theorem putAt_comm (h : Incomparable p q) (o x y : Option N) :
    putAt (putAt o p x) q y = putAt (putAt o q y) p x := by
  induction p generalizing o q with
  | nil => exact absurd nil_prefix h.1
  | cons s p ih =>
    cases q with
    | nil => exact absurd nil_prefix h.2
    | cons t q =>
      cases o with
      | none => rfl
      | some v =>
        by_cases hst : s = t
        · subst hst
          have hpq := incomparable_cons.mp h
          have hp : p ≠ [] := fun e => hpq.1 (e ▸ nil_prefix)
          have hq : q ≠ [] := fun e => hpq.2 (e ▸ nil_prefix)
          simp only [putAt_some_cons, child_setChild_putAt hp, child_setChild_putAt hq]
          cases hc : child v s with
          | none =>
            obtain ⟨s',p,rfl⟩ := exists_cons_of_ne_nil hp
            obtain ⟨t',q,rfl⟩ := exists_cons_of_ne_nil hq
            rfl
          | some c =>
            have hi := ih hpq (some c)
            obtain ⟨s',p,rfl⟩ := exists_cons_of_ne_nil hp
            obtain ⟨t',q,rfl⟩ := exists_cons_of_ne_nil hq
            have ha : ∀ z : N, admits v s (some z) := fun z => admits_of_child z hc
            rw [hi]
            simp only [putAt_some_cons]
            rw [setChild_setChild _ (ha _), setChild_setChild _ (ha _)]
        · simp [child_setChild_of_ne _ hst, child_setChild_of_ne _ (Ne.symm hst),
            setChild_comm _ _ hst]

/-- An edit below `p` is the edit of the subtree at `p`. -/
theorem putAt_append (o y : Option N) (p q : List S) :
    putAt o (p ++ q) y = putAt o p (putAt (getAt o p) q y) := by
  induction p generalizing o with
  | nil => simp
  | cons s p ih =>
    cases o with
    | none => rfl
    | some v => simp only [cons_append, putAt_some_cons, getAt_some_cons, ih]

theorem admits_of_getAt {c : N} (h : getAt o p = some c) (y : N) : Admits o p (some y) := by
  induction p generalizing o with
  | nil => simp
  | cons s p ih =>
    cases o with
    | none => simp at h
    | some v =>
      by_cases hp : p = []
      · subst hp
        exact admits_of_child y (by simpa using h)
      · exact (admits_some_cons hp v s _).mpr (ih h)

theorem admits_append (hq : q ≠ []) (o y : Option N) (p : List S) :
    Admits o (p ++ q) y ↔ Admits (getAt o p) q y := by
  induction p generalizing o with
  | nil => simp
  | cons s p ih =>
    cases o with
    | none =>
      obtain ⟨t,q,rfl⟩ := exists_cons_of_ne_nil hq
      simp
    | some v =>
      rw [cons_append, admits_some_cons (by simp [hq]), ih]
      rfl

/-- The node above an admitted slot is present. -/
theorem Admits.exists_getAt {y : Option N} (hq : q ≠ []) (h : Admits o (p ++ q) y) :
    ∃ c, getAt o p = some c := by
  rw [admits_append hq] at h
  cases hc : getAt o p with
  | none =>
    obtain ⟨t,q,rfl⟩ := exists_cons_of_ne_nil hq
    simp [hc] at h
  | some c => exact ⟨c,rfl⟩

/-- The subtree edit that an edit below `p` amounts to is admitted at `p`. -/
theorem Admits.localize {y : Option N} (h : Admits o (p ++ q) y) :
    Admits o p (putAt (getAt o p) q y) := by
  by_cases hq : q = []
  · subst hq
    simpa using h
  · obtain ⟨c,hc⟩ := h.exists_getAt hq
    obtain ⟨t,q,rfl⟩ := exists_cons_of_ne_nil hq
    rw [hc]
    exact admits_of_getAt hc _

theorem getAt_putAt_append {y : Option N} (h : Admits o (p ++ q) y) :
    getAt (putAt o (p ++ q) y) p = putAt (getAt o p) q y := by
  rw [putAt_append, getAt_putAt_self h.localize]

theorem admits_putAt_self (o x y : Option N) (p : List S) :
    Admits (putAt o p x) p y ↔ Admits o p y := by
  induction p generalizing o with
  | nil => simp
  | cons s p ih =>
    cases o with
    | none => rfl
    | some v =>
      by_cases hp : p = []
      · subst hp
        simpa using admits_setChild _ _
      · rw [putAt_some_cons, admits_some_cons hp, admits_some_cons hp,
          child_setChild_putAt hp, ih]

theorem admits_putAt_of_incomparable (h : Incomparable p q) (o x y : Option N) :
    Admits (putAt o p x) q y ↔ Admits o q y := by
  induction p generalizing o q with
  | nil => exact absurd nil_prefix h.1
  | cons s p ih =>
    cases q with
    | nil => exact absurd nil_prefix h.2
    | cons t q =>
      cases o with
      | none => rfl
      | some v =>
        by_cases hst : s = t
        · subst hst
          have hpq := incomparable_cons.mp h
          have hp : p ≠ [] := fun e => hpq.1 (e ▸ nil_prefix)
          have hq : q ≠ [] := fun e => hpq.2 (e ▸ nil_prefix)
          rw [putAt_some_cons, admits_some_cons hq, admits_some_cons hq,
            child_setChild_putAt hp, ih hpq]
        · by_cases hq : q = []
          · subst hq
            simpa using admits_setChild _ _
          · rw [putAt_some_cons, admits_some_cons hq, admits_some_cons hq,
              child_setChild_of_ne _ hst]

/-- Where some content is admitted, the present content is. -/
theorem Admits.getAt {x : Option N} (h : Admits o p x) : Admits o p (getAt o p) := by
  induction p generalizing o with
  | nil => simp
  | cons s p ih =>
    cases o with
    | none => exact absurd h (not_admits_none_cons _ _ _)
    | some v =>
      by_cases hp : p = []
      · subst hp
        simpa using admits_child h
      · rw [admits_some_cons hp] at h ⊢
        exact ih h

/-- Writing the old content back undoes an admitted edit. -/
theorem Admits.putAt_getAt {x : Option N} (h : Admits o p x) :
    putAt (putAt o p x) p (Branching.getAt o p) = o := by
  rw [putAt_putAt_self x h.getAt, Branching.putAt_getAt]

end Branching
end PhenixConductor.Collections
