import Mathlib.Algebra.Order.BigOperators.Group.Finset

/-! # Weights on a forest

Each node of a forest has at most one parent.
-/
namespace PhenixConductor.Collections
open Relation Finset
variable {K M : Type*} [DecidableEq K] (nodes : Finset K) (parent : K → Option K)

/-- `above` is the parent of `k`. -/
def IsParent (k above : K) : Prop := parent k = some above

/-- `k` is counted and no node above it is. -/
def Frontier (counted : K → Prop) (k : K) : Prop :=
  counted k ∧ ∀ above, TransGen (IsParent parent) k above → ¬ counted above

def children (k : K) : Finset K := nodes.filter (parent · = some k)

variable {nodes parent}

@[simp] theorem mem_children {k child : K} :
    child ∈ children nodes parent k ↔ child ∈ nodes ∧ parent child = some k := mem_filter

theorem disjoint_children {j k : K} (h : j ≠ k) :
    Disjoint (children nodes parent j) (children nodes parent k) := by
  apply disjoint_left.mpr
  intro child hj hk
  apply h
  apply Option.some.inj
  rw [← (mem_children.mp hj).2, (mem_children.mp hk).2]

variable (nodes parent) (counted : K → Prop) [DecidablePred counted]

/-- Every node that is not counted is replaced by its children. -/
def descend (s : Finset K) : Finset K :=
  s.filter counted ∪ (s.filter (¬ counted ·)).biUnion (children nodes parent)

variable {nodes parent counted}

theorem mem_descend_of_counted {s : Finset K} {k : K} (hk : k ∈ s) (h : counted k) :
    k ∈ descend nodes parent counted s := mem_union_left _ (mem_filter.mpr ⟨hk,h⟩)

theorem mem_descend_of_isParent {s : Finset K} {k above : K} (habove : above ∈ s)
    (h : ¬ counted above) (hk : k ∈ nodes) (hparent : IsParent parent k above) :
    k ∈ descend nodes parent counted s := by
  apply mem_union_right
  apply mem_biUnion.mpr
  exact ⟨above,mem_filter.mpr ⟨habove,h⟩,mem_children.mpr ⟨hk,hparent⟩⟩

theorem mem_iterate_of_counted {s : Finset K} {k : K} {m n : ℕ} (hmn : m ≤ n) (h : counted k)
    (hk : k ∈ (descend nodes parent counted)^[m] s) :
    k ∈ (descend nodes parent counted)^[n] s := by
  induction n, hmn using Nat.le_induction with
  | base => exact hk
  | succ n hmn ih =>
    rw [Function.iterate_succ_apply']
    exact mem_descend_of_counted ih h

/-- The way down from a node of `s` reaches every node that it does not have to skip. -/
theorem exists_mem_iterate {s : Finset K} {k start : K} (hstart : start ∈ s)
    (hpath : ReflTransGen (IsParent parent) k start)
    (hnodes : ∀ j above, IsParent parent j above → j ∈ nodes)
    (hclear : ∀ above, TransGen (IsParent parent) k above → ¬ counted above) :
    ∃ n, k ∈ (descend nodes parent counted)^[n] s := by
  induction hpath using ReflTransGen.head_induction_on with
  | refl => exact ⟨0,hstart⟩
  | @head k above hparent hpath ih =>
    obtain ⟨n,hn⟩ := ih fun higher hhigher => hclear higher (.head hparent hhigher)
    use n + 1
    rw [Function.iterate_succ_apply']
    exact mem_descend_of_isParent hn (hclear above (.single hparent)) (hnodes k above hparent)
      hparent

variable [AddCommMonoid M] [PartialOrder M] [IsOrderedAddMonoid M] [CanonicallyOrderedAdd M]
  {weight : K → M}

theorem sum_descend_le (s : Finset K)
    (h : ∀ k, ¬ counted k → ∑ child ∈ children nodes parent k, weight child ≤ weight k) :
    ∑ k ∈ descend nodes parent counted s, weight k ≤ ∑ k ∈ s, weight k := by
  have hdisjoint : (SetLike.coe (s.filter (¬ counted ·))).PairwiseDisjoint
      (children nodes parent) := fun _ _ _ _ hne => disjoint_children hne
  calc ∑ k ∈ descend nodes parent counted s, weight k
      ≤ ∑ k ∈ s.filter counted, weight k +
          ∑ k ∈ (s.filter (¬ counted ·)).biUnion (children nodes parent), weight k := by
        rw [← sum_union_inter]
        exact le_self_add
    _ = ∑ k ∈ s.filter counted, weight k +
          ∑ k ∈ s.filter (¬ counted ·), ∑ child ∈ children nodes parent k, weight child := by
        rw [sum_biUnion hdisjoint]
    _ ≤ ∑ k ∈ s.filter counted, weight k + ∑ k ∈ s.filter (¬ counted ·), weight k := by
        gcongr with k hk
        exact h k (mem_filter.mp hk).2
    _ = ∑ k ∈ s, weight k := sum_filter_add_sum_filter_not s counted weight

variable (nodes parent counted) in
/-- The counted nodes without a counted node above weigh at most as much as any nodes that they
are all below. -/
theorem sum_frontier_le {frontier s : Finset K}
    (hfrontier : ∀ k ∈ frontier, Frontier parent counted k)
    (habove : ∀ k ∈ frontier, ∃ start ∈ s, ReflTransGen (IsParent parent) k start)
    (hnodes : ∀ k above, IsParent parent k above → k ∈ nodes)
    (h : ∀ k, ¬ counted k → ∑ child ∈ children nodes parent k, weight child ≤ weight k) :
    ∑ k ∈ frontier, weight k ≤ ∑ k ∈ s, weight k := by
  have hreached : ∀ k ∈ frontier, ∃ n, k ∈ (descend nodes parent counted)^[n] s := by
    intro k hk
    obtain ⟨start,hstart,hpath⟩ := habove k hk
    exact exists_mem_iterate hstart hpath hnodes (hfrontier k hk).2
  choose! steps hsteps using hreached
  have hsubset : frontier ⊆ (descend nodes parent counted)^[frontier.sup steps] s := by
    intro k hk
    exact mem_iterate_of_counted (le_sup hk) (hfrontier k hk).1 (hsteps k hk)
  have hiterate : ∀ n, ∑ k ∈ (descend nodes parent counted)^[n] s, weight k ≤ ∑ k ∈ s, weight k := by
    intro n
    induction n with
    | zero => rfl
    | succ n ih =>
      rw [Function.iterate_succ_apply']
      exact (sum_descend_le _ h).trans ih
  exact (sum_le_sum_of_subset hsubset).trans (hiterate _)

end PhenixConductor.Collections
