import Mathlib.Data.List.Basic

/-! # Runs of a deterministic system

A system takes a state and a command to the next state.
-/
namespace PhenixConductor.Collections
open List
variable {S C O : Type*}

/-- The state after a list of commands. -/
def runAll (step : S → C → S) (s : S) (cs : List C) : S := cs.foldl step s

@[simp] theorem runAll_nil (step : S → C → S) (s : S) : runAll step s [] = s := rfl

@[simp] theorem runAll_cons (step : S → C → S) (s : S) (c : C) (cs : List C) :
    runAll step s (c :: cs) = runAll step (step s c) cs := rfl

theorem runAll_append (step : S → C → S) (s : S) (cs ds : List C) :
    runAll step s (cs ++ ds) = runAll step (runAll step s cs) ds :=
  foldl_append

/-- Every step of the run meets a condition. -/
def Along (step : S → C → S) (ok : S → C → Prop) : S → List C → Prop
  | _, [] => True
  | s, c :: cs => ok s c ∧ Along step ok (step s c) cs

instance Along.decidable (step : S → C → S) (ok : S → C → Prop) [∀ s c, Decidable (ok s c)] :
    (s : S) → (cs : List C) → Decidable (Along step ok s cs)
  | _, [] => .isTrue trivial
  | s, c :: cs =>
    have := Along.decidable step ok (step s c) cs
    inferInstanceAs (Decidable (ok s c ∧ Along step ok (step s c) cs))

variable {step : S → C → S} {ok : S → C → Prop} {cs : List C}

/-- A condition holds along a run if it holds of every step that some commands lead to. -/
theorem along_iff {s : S} :
    Along step ok s cs ↔ ∀ before c, before ++ [c] <+: cs → ok (runAll step s before) c := by
  induction cs generalizing s with
  | nil => exact iff_of_true trivial fun before c h => by simp at h
  | cons d cs ih =>
    rw [Along, ih]
    constructor
    · rintro ⟨hfirst,hrest⟩ before c h
      cases before with
      | nil =>
        obtain ⟨rfl,-⟩ := cons_prefix_cons.mp h
        exact hfirst
      | cons b before =>
        obtain ⟨rfl,hbefore⟩ := cons_prefix_cons.mp h
        exact hrest before c hbefore
    · intro h
      refine ⟨h [] d (cons_prefix_cons.mpr ⟨rfl, nil_prefix⟩),fun before c hbefore => ?_⟩
      exact h (d :: before) c (cons_prefix_cons.mpr ⟨rfl,hbefore⟩)

/-- A run goes through the parts of its commands one after another. -/
theorem along_append {s : S} {ds : List C} :
    Along step ok s (cs ++ ds) ↔ Along step ok s cs ∧ Along step ok (runAll step s cs) ds := by
  induction cs generalizing s with
  | nil => exact (and_iff_right trivial).symm
  | cons c cs ih => rw [cons_append, Along, Along, ih, runAll_cons, and_assoc]

variable {I : S → Prop}

theorem Along.invariant (hstep : ∀ s c, I s → ok s c → I (step s c)) {s : S}
    (h : Along step ok s cs) (hs : I s) : I (runAll step s cs) := by
  induction cs generalizing s with
  | nil => exact hs
  | cons c cs ih => exact ih h.2 (hstep s c hs h.1)

theorem Along.mono {ok' : S → C → Prop} (hok : ∀ s c, ok s c → ok' s c) {s : S}
    (h : Along step ok s cs) : Along step ok' s cs := by
  induction cs generalizing s with
  | nil => trivial
  | cons c cs ih => exact ⟨hok s c h.1,ih h.2⟩

theorem Along.and {ok' : S → C → Prop} {s : S} (h : Along step ok s cs) (h' : Along step ok' s cs) :
    Along step (fun s c => ok s c ∧ ok' s c) s cs := by
  induction cs generalizing s with
  | nil => trivial
  | cons c cs ih => exact ⟨⟨h.1,h'.1⟩,ih h.2 h'.2⟩

theorem along_of_forall (step : S → C → S) (h : ∀ c ∈ cs, ∀ s, ok s c) (s : S) :
    Along step ok s cs := by
  induction cs generalizing s with
  | nil => trivial
  | cons c cs ih => exact ⟨h c (by simp) s,ih (fun d hd => h d (by simp [hd])) _⟩

/-- An invariant of every step, whatever the command. -/
theorem runAll_invariant (hstep : ∀ s c, I s → I (step s c)) {s : S} (cs : List C) (hs : I s) :
    I (runAll step s cs) := by
  have hok : Along step (fun _ _ => True) s cs := along_of_forall step (fun _ _ _ => trivial) s
  exact hok.invariant (fun s c h _ => hstep s c h) hs

/-- A step of a kind is among the steps of a run. -/
def Happens (step : S → C → S) (kind : S → C → Prop) (s : S) (cs : List C) : Prop :=
  ∃ before c, before ++ [c] <+: cs ∧ kind (runAll step s before) c

@[simp] theorem not_happens_nil {kind : S → C → Prop} {s : S} : ¬ Happens step kind s [] := by
  rintro ⟨before,c,h,-⟩
  simp at h

theorem happens_concat {kind : S → C → Prop} {s : S} {c : C} :
    Happens step kind s (cs ++ [c]) ↔ Happens step kind s cs ∨ kind (runAll step s cs) c := by
  constructor
  · rintro ⟨before,d,h,hd⟩
    rcases prefix_concat_iff.mp h with heq | hbefore
    · obtain ⟨rfl,hlast⟩ := append_inj' heq rfl
      cases hlast
      exact .inr hd
    · exact .inl ⟨before,d,hbefore,hd⟩
  · rintro (⟨before,d,h,hd⟩ | hc)
    · exact ⟨before,d,h.trans (prefix_append _ _),hd⟩
    · exact ⟨cs,c,prefix_refl _,hc⟩

/-- What the steps of a run put out, in order. -/
def outputs (step : S → C → S) (out : S → C → List O) : S → List C → List O
  | _, [] => []
  | s, c :: cs => out s c ++ outputs step out (step s c) cs

variable {out : S → C → List O}

theorem outputs_append {s : S} {ds : List C} : outputs step out s (cs ++ ds) =
      outputs step out s cs ++ outputs step out (runAll step s cs) ds := by
  induction cs generalizing s with
  | nil => rfl
  | cons c cs ih => rw [cons_append,outputs,outputs,ih,append_assoc,runAll_cons]

/-- What the steps of a run put out while they keep an invariant. -/
theorem Along.outputs {P : O → Prop} (hstep : ∀ s c, I s → ok s c → I (step s c))
    (hout : ∀ s c, I s → ok s c → ∀ o ∈ out s c, P o) {s : S} (h : Along step ok s cs) (hs : I s) :
    ∀ o ∈ Collections.outputs step out s cs, P o := by
  induction cs generalizing s with
  | nil => exact fun o ho => absurd ho not_mem_nil
  | cons c cs ih =>
    intro o ho
    rcases mem_append.mp ho with ho | ho
    · exact hout s c hs h.1 o ho
    · exact ih h.2 (hstep s c hs h.1) o ho

/-- A condition on the steps of a run that speaks of what each of them puts out. -/
theorem Along.iff_outputs {P : S → C → Prop} {Q : O → Prop}
    (hstep : ∀ s c, I s → ok s c → I (step s c))
    (hiff : ∀ s c, I s → ok s c → (P s c ↔ ∀ o ∈ out s c, Q o)) {s : S} (h : Along step ok s cs)
    (hs : I s) : Along step P s cs ↔ ∀ o ∈ Collections.outputs step out s cs, Q o := by
  induction cs generalizing s with
  | nil => exact iff_of_true trivial fun o ho => absurd ho not_mem_nil
  | cons c cs ih =>
    rw [Along, Collections.outputs, forall_mem_append, hiff s c hs h.1,
      ih h.2 (hstep s c hs h.1)]

/-- No label is put out twice if a step puts out labels that are not used up, and
uses them up. -/
theorem Along.nodup_outputs {K : Type*} {label : O → K} {U : K → S → Prop}
    (hstep : ∀ s c, I s → ok s c → I (step s c))
    (hnodup : ∀ s c, I s → ok s c → ((out s c).map label).Nodup)
    (hnew : ∀ s c, I s → ok s c → ∀ o ∈ out s c, ¬ U (label o) s)
    (hused : ∀ s c, I s → ok s c → ∀ o ∈ out s c, U (label o) (step s c))
    (hkeep : ∀ s c k, I s → ok s c → U k s → U k (step s c)) {s : S} (h : Along step ok s cs)
    (hs : I s) : ((Collections.outputs step out s cs).map label).Nodup ∧
      ∀ o ∈ Collections.outputs step out s cs, ¬ U (label o) s := by
  induction cs generalizing s with
  | nil => exact ⟨nodup_nil,fun o ho => absurd ho not_mem_nil⟩
  | cons c cs ih =>
    obtain ⟨hrest,hlater⟩ := ih h.2 (hstep s c hs h.1)
    rw [Collections.outputs, map_append, nodup_append, forall_mem_append]
    refine ⟨⟨hnodup s c hs h.1,hrest,?_⟩,hnew s c hs h.1,
      fun o ho hold => hlater o ho (hkeep s c _ hs h.1 hold)⟩
    intro k hfirst k' hsecond heq
    obtain ⟨o,ho,rfl⟩ := mem_map.mp hfirst
    obtain ⟨o',ho',rfl⟩ := mem_map.mp hsecond
    exact hlater o' ho' (heq ▸ hused s c hs h.1 o ho)

/-- An invariant that also bounds everything put out so far. -/
theorem runAll_outputs {P : O → S → Prop} (hstep : ∀ s c, I s → I (step s c))
    (hout : ∀ s c, I s → ∀ o ∈ out s c, P o (step s c))
    (hkeep : ∀ s c o, I s → P o s → P o (step s c)) {s : S} (hs : I s) (cs : List C) :
    ∀ o ∈ outputs step out s cs, P o (runAll step s cs) := by
  have keep : ∀ (cs : List C) (s : S) (o : O), I s → P o s → P o (runAll step s cs) := by
    intro cs
    induction cs with
    | nil => exact fun _ _ _ h => h
    | cons c cs ih => exact fun s o hs ho => ih _ o (hstep s c hs) (hkeep s c o hs ho)
  induction cs generalizing s with
  | nil => exact fun o ho => absurd ho not_mem_nil
  | cons c cs ih =>
    intro o ho
    rcases mem_append.mp ho with ho | ho
    · exact keep cs _ o (hstep s c hs) (hout s c hs o ho)
    · exact ih (hstep s c hs) o ho

end PhenixConductor.Collections

/-! ## Batches of operations on a map

An operation writes, deletes or asserts at a key. The effect of a batch is a run of its
operations, and the batch is accepted if its assertions hold along the run, each in the
state that the operations before it leave.
-/
namespace PhenixConductor.Collections
open List
variable {K V : Type}

inductive MapOp (K V : Type) where
  | put (key : K) (value : V)
  | delete (key : K)
  | assert (key : K) (expected : Option V)

namespace MapOp

def key : MapOp K V → K
  | .put key _ | .delete key | .assert key _ => key

/-- What an operation leaves. -/
def write [DecidableEq K] (m : K → Option V) : MapOp K V → K → Option V
  | .put key value => Function.update m key (some value)
  | .delete key => Function.update m key none
  | .assert _ _ => m

def Holds (m : K → Option V) : MapOp K V → Prop
  | .assert key expected => m key = expected
  | .put _ _ | .delete _ => True

variable {J : Type}

variable [DecidableEq K] [DecidableEq J]

theorem write_of_ne (m : K → Option V) {op : MapOp K V} {k : K} (h : op.key ≠ k) :
    op.write m k = m k := by
  cases op with
  | put key value => exact Function.update_of_ne (Ne.symm h) _ _
  | delete key => exact Function.update_of_ne (Ne.symm h) _ _
  | assert key expected => rfl

/-- A key that no operation names keeps its value. -/
theorem runAll_write_of_forall_ne {m : K → Option V} {ops : List (MapOp K V)} {k : K}
    (h : ∀ op ∈ ops, op.key ≠ k) : runAll write m ops k = m k := by
  induction ops generalizing m with
  | nil => rfl
  | cons op ops ih =>
    rw [runAll_cons, ih fun later hlater => h later (mem_cons_of_mem _ hlater)]
    exact write_of_ne m (h op mem_cons_self)

variable [DecidableEq V]

instance Holds.decidable (m : K → Option V) : (op : MapOp K V) → Decidable (Holds m op)
  | .assert key expected => inferInstanceAs (Decidable (m key = expected))
  | .put _ _ | .delete _ => inferInstanceAs (Decidable True)

/-- The map after a batch, or the key of the first assertion that does not hold. -/
def commit (m : K → Option V) : List (MapOp K V) → Except K (K → Option V)
  | [] => .ok m
  | op :: ops => if op.Holds m then commit (op.write m) ops else .error op.key

theorem commit_eq_ok {m n : K → Option V} {ops : List (MapOp K V)} :
    commit m ops = .ok n ↔ Along write Holds m ops ∧ runAll write m ops = n := by
  induction ops generalizing m with
  | nil => simp [commit, Along]
  | cons op ops ih =>
    rw [commit, Along]
    by_cases h : op.Holds m
    · rw [if_pos h, ih]
      simp [h]
    · simp [h]

end MapOp

end PhenixConductor.Collections
