import PhenixConductor.Collections.Runs
import Mathlib.Data.List.Flatten

/-! # Calls that deliver after their atomic section

A call changes the shared state in one atomic section and then makes deliveries, one at a time,
while other calls go on.
-/
namespace PhenixConductor.Collections
variable {S C D : Type}

/-- One queue for each call so far, in the order of their atomic sections, and
the deliveries made. -/
structure Threads (S D : Type) where
  state : S
  queues : List (List D)
  log : List D

inductive ThreadStep (C : Type) where
  | enter (call : C)
  | invoke (thread : ℕ)

namespace Threads

/-- A thread makes its next delivery, if it owes one. -/
def invoke (t : Threads S D) (i : ℕ) : Threads S D :=
  match t.queues[i]? with
  | some (d :: rest) => { t with queues := t.queues.set i rest, log := t.log ++ [d] }
  | _ => t

/-- A call enters its atomic section, or a thread makes its next delivery. -/
def step (enter : S → C → S × List D) (t : Threads S D) : ThreadStep C → Threads S D
  | .enter call =>
    { state := (enter t.state call).1
      queues := t.queues ++ [(enter t.state call).2]
      log := t.log }
  | .invoke i => t.invoke i

theorem invoke_of_cons {t : Threads S D} {i : ℕ} {d : D} {rest : List D}
    (h : t.queues[i]? = some (d :: rest)) :
    t.invoke i = { t with queues := t.queues.set i rest, log := t.log ++ [d] } := by
  rw [invoke, h]

theorem invoke_cases (t : Threads S D) (i : ℕ) : t.invoke i = t ∨
    ∃ d rest, t.queues[i]? = some (d :: rest) ∧
      t.invoke i = { t with queues := t.queues.set i rest, log := t.log ++ [d] } := by
  cases hq : t.queues[i]? with
  | none => exact .inl (by rw [invoke, hq])
  | some q =>
    cases q with
    | nil => exact .inl (by rw [invoke, hq])
    | cons d rest => exact .inr ⟨d,rest,rfl,invoke_of_cons hq⟩

@[simp] theorem invoke_state (t : Threads S D) (i : ℕ) : (t.invoke i).state = t.state := by
  rcases t.invoke_cases i with hi | ⟨_,_,-,hi⟩ <;> rw [hi]

/-- What an atomic section puts out. -/
def admitted (enter : S → C → S × List D) (t : Threads S D) : ThreadStep C → List D
  | .enter call => (enter t.state call).2
  | .invoke _ => []

/-- The deliveries still to be made. -/
def owed (t : Threads S D) : List D := t.queues.flatten

theorem owed_set {queues : List (List D)} {i : ℕ} {d : D} {rest : List D}
    (h : queues[i]? = some (d :: rest)) :
    List.Perm (d :: (queues.set i rest).flatten) queues.flatten := by
  induction queues generalizing i with
  | nil => simp at h
  | cons q queues ih =>
    cases i with
    | zero =>
      obtain rfl : q = d :: rest := by simpa using h
      rfl
    | succ i =>
      rw [List.set_cons_succ, List.flatten_cons, List.flatten_cons]
      exact List.perm_middle.symm.trans ((ih (by simpa using h)).append_left q)

/-- No step loses or repeats a delivery. -/
theorem step_perm (enter : S → C → S × List D) (t : Threads S D) (a : ThreadStep C) :
    List.Perm ((t.step enter a).log ++ (t.step enter a).owed)
      ((t.log ++ t.owed) ++ t.admitted enter a) := by
  cases a with
  | enter call => simp [step, owed, admitted]
  | invoke i =>
    rcases t.invoke_cases i with hi | ⟨d,rest,hq,hi⟩
    · simp [step, hi, admitted]
    · simp only [step, hi, owed, admitted, List.append_nil, List.append_assoc,
        List.singleton_append]
      exact (owed_set hq).append_left _

theorem run_perm (enter : S → C → S × List D) (t : Threads S D) (as : List (ThreadStep C)) :
    List.Perm ((runAll (step enter) t as).log ++ (runAll (step enter) t as).owed)
      ((t.log ++ t.owed) ++ outputs (step enter) (admitted enter) t as) := by
  induction as generalizing t with
  | nil => simp [outputs]
  | cons a as ih =>
    rw [outputs, ← List.append_assoc]
    exact (ih _).trans ((t.step_perm enter a).append_right _)

/-- A thread that owes a delivery of a class makes no delivery while the queue of
`leader` is not empty. -/
def InTurn (P : D → Bool) (leader : ℕ) (t : Threads S D) : ThreadStep C → Prop
  | .enter _ => True
  | .invoke i => i ≠ leader → (∃ q, t.queues[i]? = some q ∧ ∃ d ∈ q, P d = true) →
      t.queues[leader]? = some []

/-- The leader has still to make its delivery, and no other of the class was made;
or it came first. -/
def Leads (P : D → Bool) (leader : ℕ) (first : D) (t : Threads S D) : Prop :=
  (t.queues[leader]? = some [first] ∧ t.log.filter P = []) ∨
    (t.queues[leader]? = some [] ∧ ∃ rest, t.log.filter P = first :: rest)

theorem Leads.step {enter : S → C → S × List D} {P : D → Bool} {leader : ℕ} {first : D}
    (hfirst : P first = true) {t : Threads S D} {a : ThreadStep C} (h : Leads P leader first t)
    (ha : InTurn P leader t a) : Leads P leader first (t.step enter a) := by
  cases a with
  | enter call =>
    have hkeep : ∀ q, t.queues[leader]? = some q →
        (t.queues ++ [(enter t.state call).2])[leader]? = some q := fun q hq => by
      rw [List.getElem?_append_left (List.getElem?_eq_some_iff.mp hq).1, hq]
    exact h.imp (And.imp_left (hkeep _)) (And.imp_left (hkeep _))
  | invoke i =>
    rcases t.invoke_cases i with hinv | ⟨d,rest,hq,hinv⟩
    · rw [Threads.step, hinv]
      exact h
    · rw [Threads.step, hinv]
      by_cases hi : i = leader
      · subst hi
        rcases h with ⟨hl,hlog⟩ | ⟨hl,-⟩
        · obtain ⟨rfl,rfl⟩ : d = first ∧ rest = [] := by
            simpa [hl, eq_comm] using hq
          refine .inr ⟨?_,[],?_⟩
          · simp [(List.getElem?_eq_some_iff.mp hq).1]
          · simp [hlog, hfirst]
        · simp [hl] at hq
      · have hset : (t.queues.set i rest)[leader]? = t.queues[leader]? :=
          List.getElem?_set_ne hi
        by_cases hd : P d = true
        · have hempty := ha hi ⟨_,hq,d,by simp,hd⟩
          rcases h with ⟨hl,-⟩ | ⟨hl,later,hlog⟩
          · rw [hl] at hempty
            cases hempty
          · exact .inr ⟨hset.trans hl,later ++ [d],by simp [hlog, hd]⟩
        · rcases h with ⟨hl,hlog⟩ | ⟨hl,later,hlog⟩
          · exact .inl ⟨hset.trans hl,by simp [hlog, hd]⟩
          · exact .inr ⟨hset.trans hl,later,by simp [hlog, hd]⟩

/-- What comes first in turn comes first. -/
theorem Leads.run {enter : S → C → S × List D} {P : D → Bool} {leader : ℕ} {first : D}
    (hfirst : P first = true) {t : Threads S D} {as : List (ThreadStep C)}
    (h : Leads P leader first t) (ha : Along (Threads.step enter) (InTurn P leader) t as) :
    Leads P leader first (runAll (Threads.step enter) t as) :=
  ha.invariant (I := Leads P leader first) (fun _ _ ht hs => ht.step hfirst hs) h

end Threads
end PhenixConductor.Collections
