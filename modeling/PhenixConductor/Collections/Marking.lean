import PhenixConductor.Collections.BTreeMap
import Mathlib.Algebra.Order.Ring.Nat
import Mathlib.Algebra.Order.BigOperators.Group.List

/-! # Marking what can be reached

A depth-first walk marks the nodes that it enters and does not enter a node that is marked.
-/
namespace PhenixConductor.Collections
open Relation List

section Avoiding
variable {α : Type} {r : α → α → Prop} {s t : Set α}

/-- An edge to a node that is not in a set. -/
def Avoiding (r : α → α → Prop) (s : Set α) (a b : α) : Prop := r a b ∧ b ∉ s

theorem reflTransGen_avoiding_anti (h : s ⊆ t) {a b : α} (hab : ReflTransGen (Avoiding r t) a b) :
    ReflTransGen (Avoiding r s) a b := by
  apply ReflTransGen.mono _ a b hab
  intro a b hab
  exact ⟨hab.1,fun hb => hab.2 (h hb)⟩

/-- After its last visit to `a` a path avoids `a`. -/
theorem reflTransGen_avoiding_cases {a p x : α} (h : ReflTransGen (Avoiding r s) p x)
    (hp : p ∉ s) :
    x = a ∨ (∃ q, r a q ∧ q ∉ insert a s ∧ ReflTransGen (Avoiding r (insert a s)) q x) ∨
      p ∉ insert a s ∧ ReflTransGen (Avoiding r (insert a s)) p x := by
  induction h using ReflTransGen.head_induction_on with
  | refl =>
    by_cases hx : x = a
    · exact .inl hx
    · exact .inr (.inr ⟨by simp [hx, hp],.refl⟩)
  | @head p q hpq hqx ih =>
    rcases ih hpq.2 with hx | hnext | ⟨hq,hpath⟩
    · exact .inl hx
    · exact .inr (.inl hnext)
    · by_cases hpa : p = a
      · subst hpa
        exact .inr (.inl ⟨q,hpq.1,hq,hpath⟩)
      · exact .inr (.inr ⟨by simp [hpa, hp],.head ⟨hpq.1,hq⟩ hpath⟩)

/-- What can be reached from `a` and is not in `s` can be reached without passing
through `s`. -/
def Uncut (r : α → α → Prop) (s : Set α) (a : α) : Prop :=
  ∀ b, TransGen r a b → b ∈ s ∨ TransGen (Avoiding r s) a b

theorem transGen_of_avoiding {a b : α} (h : TransGen (Avoiding r s) a b) : TransGen r a b :=
  TransGen.mono (fun _ _ hab => hab.1) a b h

/-- A path from `a` is not cut by `a`. -/
theorem uncut_singleton (r : α → α → Prop) (a : α) : Uncut r {a} a := by
  intro b hab
  rw [TransGen.head'_iff] at hab
  obtain ⟨p,hap,hpb⟩ := hab
  have hfree : ReflTransGen (Avoiding r ∅) p b :=
    ReflTransGen.mono (fun _ _ h => ⟨h,Set.notMem_empty _⟩) p b hpb
  rw [TransGen.head'_iff]
  rcases reflTransGen_avoiding_cases (a := a) hfree (Set.notMem_empty p) with hb | ⟨q,haq,hq,hqb⟩ |
    ⟨hp,hpb⟩
  · exact .inl hb
  · rw [insert_empty_eq] at hq hqb
    exact .inr ⟨q,⟨haq,hq⟩,hqb⟩
  · rw [insert_empty_eq] at hp hpb
    exact .inr ⟨p,⟨hap,hp⟩,hpb⟩

end Avoiding

section Walk
attribute [local instance] lawfulBEq_of_linearOrder
variable {α : Type} [LinearOrder α] {nodes : List α} (next : α → List {a // a ∈ nodes})

def unmarkedCount (nodes : List α) (marked : BTreeSet α) : ℕ :=
  (nodes.filter (· ∉ marked.keys)).length

theorem unmarkedCount_insert_lt {marked : BTreeSet α} {a : α} (ha : a ∈ nodes)
    (hnew : a ∉ marked.keys) :
    unmarkedCount nodes (marked.insert a ()) < unmarkedCount nodes marked := by
  have hfilter : nodes.filter (· ∉ (marked.insert a ()).keys) =
      (nodes.filter (· ∉ marked.keys)).filter (· ≠ a) := by
    rw [filter_filter]
    apply filter_congr
    simp
  rw [unmarkedCount, hfilter]
  apply length_filter_lt_length_iff_exists.mpr
  exact ⟨a,mem_filter.mpr ⟨ha,by simpa using hnew⟩,by simp⟩

/-- A bound for the walk: every node is entered once and adds its neighbours. -/
def walkBound (pending : List {a // a ∈ nodes}) (marked : BTreeSet α) : ℕ :=
  unmarkedCount nodes marked * ((nodes.map fun a => (next a).length).sum + 1) + pending.length

theorem walkBound_enter_lt {a : {a // a ∈ nodes}} {rest : List {a // a ∈ nodes}}
    {marked : BTreeSet α} (hnew : a.1 ∉ marked.keys) :
    walkBound next (next a.1 ++ rest) (marked.insert a.1 ()) < walkBound next (a :: rest) marked := by
  have hcount := unmarkedCount_insert_lt a.2 hnew
  have hedges : (next a.1).length ≤ (nodes.map fun a => (next a).length).sum :=
    le_sum_of_mem (mem_map_of_mem (f := fun a => (next a).length) a.2)
  have hmul := Nat.mul_le_mul_right ((nodes.map fun a => (next a).length).sum + 1)
    (Nat.succ_le_of_lt hcount)
  rw [Nat.succ_mul] at hmul
  rw [walkBound, walkBound, length_append, length_cons]
  omega

/-- The walk. The pending nodes are those that the loops of all calls have still to
look at, the innermost call first. -/
def markAll (pending : List {a // a ∈ nodes}) (marked : BTreeSet α) : BTreeSet α :=
  match pending with
  | [] => marked
  | a :: rest =>
    if hmem : a.1 ∈ marked.keys then markAll rest marked
    else
      have : walkBound next (next a.1 ++ rest) (marked.insert a.1 ()) < _ :=
        walkBound_enter_lt next hmem
      markAll (next a.1 ++ rest) (marked.insert a.1 ())
termination_by walkBound next pending marked
decreasing_by
  · rw [walkBound, walkBound, length_cons]
    omega
  · exact this

/-- The edges that the walk follows. -/
def Follows (a b : α) : Prop := ∃ c ∈ next a, c.1 = b

def marks (marked : BTreeSet α) : Set α := {a | a ∈ marked.keys}

theorem marks_insert (marked : BTreeSet α) (a : α) :
    marks (marked.insert a ()) = insert a (marks marked) := by
  ext b
  simp [marks]

theorem mem_markAll (pending : List {a // a ∈ nodes}) (marked : BTreeSet α) (x : α) :
    x ∈ marks (markAll next pending marked) ↔ x ∈ marks marked ∨ ∃ p ∈ pending,
      p.1 ∉ marks marked ∧ ReflTransGen (Avoiding (Follows next) (marks marked)) p.1 x := by
  induction pending, marked using markAll.induct next with
  | case1 marked => simp [markAll]
  | case2 marked a rest hmem ih =>
    rw [markAll, dif_pos hmem, ih]
    have hmarked : a.1 ∈ marks marked := hmem
    simp [hmarked]
  | case3 marked a rest hmem _ ih =>
    rw [markAll, dif_neg hmem, ih, marks_insert]
    have hsub : marks marked ⊆ insert a.1 (marks marked) := Set.subset_insert _ _
    simp only [Set.mem_insert_iff, mem_append, mem_cons]
    constructor
    · rintro ((rfl | hx) | ⟨p,hp | hp,hnew,hpath⟩)
      · exact .inr ⟨a,.inl rfl,hmem,.refl⟩
      · exact .inl hx
      · have hfirst : Avoiding (Follows next) (marks marked) a.1 p.1 :=
          ⟨⟨p,hp,rfl⟩,fun h => hnew (.inr h)⟩
        exact .inr ⟨a,.inl rfl,hmem,.head hfirst (reflTransGen_avoiding_anti hsub hpath)⟩
      · exact .inr ⟨p,.inr hp,fun h => hnew (.inr h),reflTransGen_avoiding_anti hsub hpath⟩
    · rintro (hx | ⟨p,hp,hnew,hpath⟩)
      · exact .inl (.inr hx)
      · rcases reflTransGen_avoiding_cases (a := a.1) hpath hnew with
          hx | ⟨_,⟨q,hq,rfl⟩,hfree,hrest⟩ | ⟨hfree,hrest⟩
        · exact .inl (.inl hx)
        · exact .inr ⟨q,.inl hq,hfree,hrest⟩
        · rcases hp with rfl | hp
          · exact absurd (Set.mem_insert _ _) hfree
          · exact .inr ⟨p,.inr hp,hfree,hrest⟩

/-- A walk that starts from the neighbours of a node. -/
theorem mem_markAll_next (a : α) (marked : BTreeSet α) (x : α) :
    x ∈ marks (markAll next (next a) marked) ↔
      x ∈ marks marked ∨ TransGen (Avoiding (Follows next) (marks marked)) a x := by
  rw [mem_markAll]
  apply or_congr Iff.rfl
  rw [TransGen.head'_iff]
  constructor
  · rintro ⟨p,hp,hnew,hpath⟩
    exact ⟨p.1,⟨⟨p,hp,rfl⟩,hnew⟩,hpath⟩
  · rintro ⟨_,⟨⟨p,hp,rfl⟩,hnew⟩,hpath⟩
    exact ⟨p,hp,hnew,hpath⟩

/-- A walk is complete exactly when it is not cut off by the marks it starts with. -/
theorem markAll_next_complete (a : α) (marked : BTreeSet α) :
    marks (markAll next (next a) marked) = marks marked ∪ {x | TransGen (Follows next) a x} ↔
      Uncut (Follows next) (marks marked) a := by
  constructor
  · intro h x hx
    have hmem : x ∈ marks (markAll next (next a) marked) := by
      rw [h]
      exact .inr hx
    exact (mem_markAll_next next a marked x).mp hmem
  · intro h
    ext x
    rw [mem_markAll_next]
    constructor
    · rintro (hx | hx)
      · exact .inl hx
      · exact .inr (transGen_of_avoiding hx)
    · rintro (hx | hx)
      · exact .inl hx
      · exact h x hx

end Walk
end PhenixConductor.Collections

/-! ## Saturation

A set grows by passes over a list of rules until a pass adds nothing. What is left
is the least set that holds the first one and that no rule adds to.
-/
namespace PhenixConductor.Collections
open List
variable {α ρ : Type} [LinearOrder α]

theorem marks_injective : Function.Injective (marks : BTreeSet α → Set α) := by
  intro s t h
  ext a v
  have hmem : a ∈ s.keys ↔ a ∈ t.keys := Set.ext_iff.mp h a
  rw [s.mem_keys_iff, t.mem_keys_iff] at hmem
  cases hs : s.get? a <;> cases ht : t.get? a <;> simp_all

/-- A set that grows and keeps its size stays the same. -/
theorem eq_of_length_eq {s t : BTreeSet α} (h : marks s ⊆ marks t)
    (hlength : t.keys.length = s.keys.length) : t = s := by
  apply marks_injective
  have hperm : s.keys.Perm t.keys :=
    (subperm_of_subset s.nodup_keys h).perm_of_length_le hlength.le
  ext a
  exact hperm.mem_iff.symm

/-- A turn adds the conclusion of its rule, or nothing. -/
structure RuleSystem (α ρ : Type) [LinearOrder α] where
  conclusion : ρ → α
  turn : BTreeSet α → ρ → BTreeSet α
  grows : ∀ s r, marks s ⊆ marks (turn s r)
  adds : ∀ s r, marks (turn s r) ⊆ insert (conclusion r) (marks s)

namespace RuleSystem
variable (system : RuleSystem α ρ) (rules : List ρ) {s : BTreeSet α}

def pass (s : BTreeSet α) : BTreeSet α := rules.foldl system.turn s

theorem pass_grows (s : BTreeSet α) : marks s ⊆ marks (system.pass rules s) := by
  induction rules generalizing s with
  | nil => exact subset_rfl
  | cons r rules ih => exact (system.grows s r).trans (ih _)

theorem pass_adds (s : BTreeSet α) :
    marks (system.pass rules s) ⊆ marks s ∪ {a | a ∈ rules.map system.conclusion} := by
  induction rules generalizing s with
  | nil => exact Set.subset_union_left
  | cons r rules ih =>
    intro a ha
    rcases ih (system.turn s r) ha with ha | ha
    · rcases system.adds s r ha with rfl | ha
      · exact .inr (by simp)
      · exact .inl ha
    · exact .inr (mem_cons_of_mem _ ha)

/-- A pass that adds something leaves less to add. -/
theorem unmarkedCount_pass_lt (h : (system.pass rules s).keys.length ≠ s.keys.length) :
    unmarkedCount (rules.map system.conclusion) (system.pass rules s) <
      unmarkedCount (rules.map system.conclusion) s := by
  have hgrows := system.pass_grows rules s
  obtain ⟨a,ha,hnew⟩ : ∃ a ∈ (system.pass rules s).keys, a ∉ s.keys := by
    by_contra hnone
    have hsame : marks (system.pass rules s) = marks s :=
      (Set.Subset.antisymm hgrows fun a ha => by_contra fun hnew => hnone ⟨a,ha,hnew⟩).symm
    exact h (by rw [marks_injective hsame])
  have hfilter : ((rules.map system.conclusion).filter (· ∉ (system.pass rules s).keys)) =
      ((rules.map system.conclusion).filter (· ∉ s.keys)).filter (· ∉ (system.pass rules s).keys) := by
    rw [filter_filter]
    apply filter_congr
    intro b _
    by_cases hnow : b ∈ (system.pass rules s).keys
    · simp [hnow]
    · have hold : b ∉ s.keys := fun hold => hnow (hgrows hold)
      simp [hnow, hold]
  rw [unmarkedCount, hfilter]
  apply length_filter_lt_length_iff_exists.mpr
  rcases system.pass_adds rules s ha with hold | hadded
  · exact absurd hold hnew
  · exact ⟨a,mem_filter.mpr ⟨hadded,by simpa using hnew⟩,by simpa using ha⟩

/-- The loop, which ends with the first pass that keeps the size. -/
def saturate (s : BTreeSet α) : BTreeSet α :=
  if h : (system.pass rules s).keys.length = s.keys.length then system.pass rules s
  else
    have := system.unmarkedCount_pass_lt rules h
    saturate (system.pass rules s)
termination_by unmarkedCount (rules.map system.conclusion) s

theorem saturate_grows (s : BTreeSet α) : marks s ⊆ marks (system.saturate rules s) := by
  induction s using saturate.induct system rules with
  | case1 s h =>
    rw [saturate, dif_pos h]
    exact system.pass_grows rules s
  | case2 s h _ ih =>
    rw [saturate, dif_neg h]
    exact (system.pass_grows rules s).trans ih

/-- Where a pass adds nothing, no turn does. -/
theorem turn_eq_of_pass_eq (h : system.pass rules s = s) : ∀ r ∈ rules, system.turn s r = s := by
  induction rules generalizing s with
  | nil => exact fun r hr => nomatch hr
  | cons r rules ih =>
    have hturn : system.turn s r = s := by
      apply marks_injective
      have hrest : marks (system.turn s r) ⊆ marks (system.pass (r :: rules) s) :=
        system.pass_grows rules (system.turn s r)
      rw [h] at hrest
      exact Set.Subset.antisymm hrest (system.grows s r)
    intro q hq
    rcases mem_cons.mp hq with rfl | hq
    · exact hturn
    · have hpass : system.pass rules s = s := by
        rw [pass, foldl_cons, hturn] at h
        exact h
      exact ih hpass q hq

/-- No rule adds to a saturated set. -/
theorem turn_saturate (s : BTreeSet α) :
    ∀ r ∈ rules, system.turn (system.saturate rules s) r = system.saturate rules s := by
  induction s using saturate.induct system rules with
  | case1 s h =>
    rw [saturate, dif_pos h]
    have hsame : system.pass rules s = s := eq_of_length_eq (system.pass_grows rules s) h
    rw [hsame]
    exact system.turn_eq_of_pass_eq rules hsame
  | case2 s h _ ih =>
    rw [saturate, dif_neg h]
    exact ih

theorem pass_least {t : Set α} (hturn : ∀ r ∈ rules, ∀ s, marks s ⊆ t → marks (system.turn s r) ⊆ t)
    (h : marks s ⊆ t) : marks (system.pass rules s) ⊆ t := by
  induction rules generalizing s with
  | nil => exact h
  | cons r rules ih =>
    exact ih (fun q hq => hturn q (mem_cons_of_mem _ hq)) (hturn r mem_cons_self s h)

/-- A set that no rule leads out of holds the saturation of its parts. -/
theorem saturate_least {t : Set α}
    (hturn : ∀ r ∈ rules, ∀ s, marks s ⊆ t → marks (system.turn s r) ⊆ t) (h : marks s ⊆ t) :
    marks (system.saturate rules s) ⊆ t := by
  induction s using saturate.induct system rules with
  | case1 s hlength =>
    rw [saturate, dif_pos hlength]
    exact system.pass_least rules hturn h
  | case2 s hlength _ ih =>
    rw [saturate, dif_neg hlength]
    exact ih (system.pass_least rules hturn h)

end RuleSystem
end PhenixConductor.Collections
