import Mathlib.Order.WellFoundedSet

/-! # Directed graphs

A relation is acyclic when no path leads back to its start.
-/
namespace PhenixConductor.Collections
open Relation List
variable {α : Type}

def Acyclic (r : α → α → Prop) : Prop := ∀ a, ¬ TransGen r a a

/-- A list of nodes, each related to the next, that ends where it starts. -/
def ClosedWalk (r : α → α → Prop) (path : List α) : Prop :=
  ∃ a middle, path = a :: (middle ++ [a]) ∧ path.IsChain r

/-- No infinite path leaves `a`. -/
abbrev Grounded (r : α → α → Prop) (a : α) : Prop := Acc (fun b a => r a b) a

variable {r : α → α → Prop}

theorem acyclic_of_grounded (h : ∀ a, Grounded r a) : Acyclic r := by
  intro a ha
  have hwf : WellFounded (TransGen fun b a => r a b) := WellFounded.transGen ⟨h⟩
  apply hwf.irrefl.irrefl a
  exact transGen_swap.mpr ha

theorem Grounded.reached {a b : α} (h : Grounded r a) (hab : ReflTransGen r a b) : Grounded r b := by
  induction hab with
  | refl => exact h
  | tail _ hbc ih => exact ih.inv hbc

theorem Grounded.not_cyclic {a : α} (h : Grounded r a) : ¬ TransGen r a a := by
  induction h with
  | intro a _ ih =>
    intro ha
    obtain ⟨b,hab,hba⟩ := TransGen.head'_iff.mp ha
    exact ih b hab (.tail' hba hab)

/-- Where only the members of a finite set have edges, the acyclic relations are the
grounded ones. -/
theorem grounded_of_acyclic {s : Set α} (hs : s.Finite) (hsource : ∀ a b, r a b → a ∈ s)
    (h : Acyclic r) (a : α) : Grounded r a := by
  have hstrict : IsStrictOrder α (TransGen fun b a => r a b) :=
    { irrefl := fun a ha => h a (transGen_swap.mp ha)
      trans := fun _ _ _ => TransGen.trans }
  have hwf := Set.wellFoundedOn_iff.mp (hs.wellFoundedOn (r := TransGen fun b a => r a b))
  have hmember : ∀ a ∈ s, Grounded r a := by
    intro a
    induction a using hwf.induction with
    | _ a ih =>
      intro ha
      apply Acc.intro
      intro b hab
      by_cases hb : b ∈ s
      · exact ih b ⟨.single hab,hb,ha⟩ hb
      · exact Acc.intro _ fun c hbc => absurd (hsource b c hbc) hb
  exact Acc.intro _ fun b hab => (hmember a (hsource a b hab)).inv hab

theorem transGen_of_isChain {a b : α} {middle : List α} (h : (a :: (middle ++ [b])).IsChain r) :
    TransGen r a b := by
  induction middle generalizing a with
  | nil =>
    rw [nil_append, isChain_cons_cons] at h
    exact .single h.1
  | cons c middle ih =>
    rw [cons_append, isChain_cons_cons] at h
    exact .head h.1 (ih h.2)

theorem ClosedWalk.not_acyclic {path : List α} (h : ClosedWalk r path) : ¬ Acyclic r := by
  rcases h with ⟨a,middle,rfl,hchain⟩
  intro hacyclic
  exact hacyclic a (transGen_of_isChain hchain)

section Path
variable [DecidableEq α] {nodes path : List α} {a : α}

/-- The nodes that are not on a path. -/
def offPath (nodes path : List α) : ℕ := (nodes.filter (· ∉ path)).length

theorem offPath_append_lt (hmem : a ∈ nodes) (hnew : a ∉ path) :
    offPath nodes (path ++ [a]) < offPath nodes path := by
  have hfilter : nodes.filter (· ∉ path ++ [a]) = (nodes.filter (· ∉ path)).filter (· ≠ a) := by
    rw [filter_filter]
    apply filter_congr
    simp [and_comm]
  rw [offPath, hfilter]
  apply length_filter_lt_length_iff_exists.mpr
  exact ⟨a,mem_filter.mpr ⟨hmem,by simpa using hnew⟩,by simp⟩

theorem exists_dropWhile (h : a ∈ path) : ∃ middle, path.dropWhile (· ≠ a) = a :: middle := by
  induction path with
  | nil => cases h
  | cons first rest ih =>
    by_cases hfirst : first = a
    · exact ⟨rest,by simp [hfirst]⟩
    · obtain ⟨middle,hmiddle⟩ := ih ((mem_cons.mp h).resolve_left (Ne.symm hfirst))
      exact ⟨middle,by simp only [dropWhile_cons, hfirst, ne_eq, not_false_eq_true,
        decide_true, if_true, hmiddle]⟩

/-- A node on the path of a search closes a walk. -/
theorem closedWalk_of_mem (hmem : a ∈ path) (hchain : (path ++ [a]).IsChain r) :
    ClosedWalk r (path.dropWhile (· ≠ a) ++ [a]) := by
  have hsuffix : path.dropWhile (· ≠ a) ++ [a] <:+ path ++ [a] :=
    suffix_append_self_iff.mpr (dropWhile_suffix _)
  have hsub := hchain.suffix hsuffix
  obtain ⟨middle,hmiddle⟩ := exists_dropWhile hmem
  rw [hmiddle] at hsub ⊢
  exact ⟨a,middle,rfl,hsub⟩

end Path

/-- A relation that descends in a rank has no cycle. -/
theorem acyclic_of_rank (rank : α → ℕ) (h : ∀ a b, r a b → rank b < rank a) : Acyclic r := by
  have hlt : ∀ a b, TransGen r a b → rank b < rank a := by
    intro a b hab
    induction hab with
    | single hab => exact h _ _ hab
    | tail _ hbc ih => exact (h _ _ hbc).trans ih
  intro a ha
  exact lt_irrefl _ (hlt a a ha)

/-- Every member of the list stands behind all that it leads to. -/
def Topological (r : α → α → Prop) (order : List α) : Prop :=
  ∀ before a after, order = before ++ a :: after → ∀ b, r a b → b ∈ before

theorem Topological.nil (r : α → α → Prop) : Topological r [] := by
  intro before a after h
  simp at h

theorem Topological.concat {order : List α} {a : α} (h : Topological r order)
    (ha : ∀ b, r a b → b ∈ order) : Topological r (order ++ [a]) := by
  intro before other after heq b hb
  rcases eq_nil_or_concat after with rfl | ⟨rest,last,rfl⟩
  · obtain ⟨rfl,hlast⟩ := append_inj' heq rfl
    cases hlast
    exact ha b hb
  · rw [concat_eq_append, ← cons_append, ← append_assoc] at heq
    exact h before other rest (append_inj' heq rfl).1 b hb

theorem Topological.acyclic [DecidableEq α] {order : List α} (h : Topological r order)
    (hsource : ∀ a b, r a b → a ∈ order) : Acyclic r := by
  apply acyclic_of_rank (order.idxOf ·)
  intro a b hab
  obtain ⟨before,after,heq,hnew⟩ := eq_append_cons_of_mem (hsource a b hab)
  have hb : b ∈ before := h before a after heq b hab
  have hrank : order.idxOf a = before.length := by simp [heq, idxOf_append, hnew]
  rw [hrank, heq, idxOf_append_of_mem hb]
  exact idxOf_lt_length_of_mem hb

section Fresh
variable {r r' : α → α → Prop} {new : α} (hsource : ∀ a b, r' a b → a ≠ new → r a b)
  (htarget : ∀ a b, r' a b → b ≠ new)
include hsource htarget

/-- A path that starts at an old node never comes to a node that nothing leads to. -/
theorem transGen_of_fresh {a b : α} (ha : a ≠ new) (h : TransGen r' a b) : TransGen r a b := by
  induction h with
  | single h => exact .single (hsource _ _ h ha)
  | tail _ h ih =>
    next hpath =>
    obtain ⟨middle,-,hlast⟩ := TransGen.tail'_iff.mp hpath
    exact ih.tail (hsource _ _ h (htarget _ _ hlast))

end Fresh

/-- A new node that nothing leads to closes no cycle. -/
theorem Acyclic.of_fresh {r' : α → α → Prop} (h : Acyclic r) (new : α)
    (hsource : ∀ a b, r' a b → a ≠ new → r a b) (htarget : ∀ a b, r' a b → b ≠ new) :
    Acyclic r' := by
  intro a ha
  obtain ⟨middle,-,hlast⟩ := TransGen.tail'_iff.mp ha
  exact h a (transGen_of_fresh hsource htarget (htarget _ _ hlast) ha)

end PhenixConductor.Collections

/-! ## Lineages

Every node has at most one parent. The nodes below a root come in generations, the root
being the first one alone. Where no node has two children, every generation has one
member, and the lineage is as long as its last generation.
-/
namespace PhenixConductor.Collections
open List
variable {α : Type*} {parent : α → Option α} {root x y : α} {m n : ℕ}

/-- A node with the number of nodes from the root to it. -/
inductive Generation (parent : α → Option α) (root : α) : α → ℕ → Prop
  | root : Generation parent root root 1
  | child {x p : α} {n : ℕ} (above : Generation parent root p n) (h : parent x = some p) :
    Generation parent root x (n + 1)

def Descends (parent : α → Option α) (root x : α) : Prop := ∃ n, Generation parent root x n

theorem Generation.descends (h : Generation parent root x n) : Descends parent root x := ⟨n,h⟩

theorem Generation.pos (h : Generation parent root x n) : 0 < n := by
  cases h <;> omega

/-- A root that has no parent is nobody's descendant, and a node is in one generation. -/
theorem Generation.unique (hroot : parent root = none) (hm : Generation parent root x m)
    (hn : Generation parent root x n) : m = n := by
  induction hm generalizing n with
  | root =>
    cases hn with
    | root => rfl
    | child above h => cases hroot.symm.trans h
  | child above h ih =>
    cases hn with
    | root => cases hroot.symm.trans h
    | child above' h' =>
      cases h.symm.trans h'
      rw [ih above']

/-- Nobody below the root has two children. -/
def Unbranched (parent : α → Option α) (root : α) : Prop :=
  ∀ x y p, Descends parent root p → parent x = some p → parent y = some p → x = y

theorem Generation.eq_of_unbranched (hone : Unbranched parent root)
    (hx : Generation parent root x n) (hy : Generation parent root y n) : x = y := by
  induction hx generalizing y with
  | root =>
    cases hy with
    | root => rfl
    | child above h => exact absurd above.pos (lt_irrefl 0)
  | child above h ih =>
    cases hy with
    | root => exact absurd above.pos (lt_irrefl 0)
    | child above' h' =>
      obtain rfl := ih above'
      exact hone _ _ _ above.descends h h'

/-- An unbranched lineage has as many members as it has generations. -/
theorem length_le_of_unbranched {limit : ℕ} (hone : Unbranched parent root)
    (hlimit : ∀ x n, Generation parent root x n → n ≤ limit)
    {l : List α} (hnodup : l.Nodup) (hl : ∀ x ∈ l, Descends parent root x) :
    l.length ≤ limit := by
  choose! generation hgeneration using hl
  have hdistinct : (l.map fun x => generation x - 1).Nodup := by
    refine hnodup.map_on fun x hx y hy heq => ?_
    have hpos := (hgeneration x hx).pos
    have hpos' := (hgeneration y hy).pos
    have hsame : generation x = generation y := by omega
    exact (hgeneration x hx).eq_of_unbranched hone (hsame ▸ hgeneration y hy)
  have hrange : (l.map fun x => generation x - 1) ⊆ List.range limit := by
    intro n hn
    obtain ⟨x,hx,rfl⟩ := mem_map.mp hn
    have hpos := (hgeneration x hx).pos
    have hle := hlimit x _ (hgeneration x hx)
    rw [mem_range]
    omega
  simpa using (subperm_of_subset hdistinct hrange).length_le

/-- Where only known nodes have a parent, a generation is at most as deep as nodes are known. -/
theorem Generation.le_length {known : List α} (hroot : parent root = none) (hmem : root ∈ known)
    (hknown : ∀ x p, parent x = some p → x ∈ known) (h : Generation parent root x n) :
    n ≤ known.length := by
  suffices hl : ∃ l : List α, l.Nodup ∧ l.length = n ∧ l ⊆ known ∧
      ∀ y ∈ l, ∃ m ≤ n, Generation parent root y m by
    obtain ⟨l,hnodup,hlength,hsubset,-⟩ := hl
    exact hlength ▸ (subperm_of_subset hnodup hsubset).length_le
  induction h with
  | root => exact ⟨[root],by simp,rfl,by simpa using hmem,by simpa using ⟨1,le_rfl,.root⟩⟩
  | @child x p n above h ih =>
    obtain ⟨l,hnodup,hlength,hsubset,hgeneration⟩ := ih
    have hx : x ∉ l := by
      intro hx
      obtain ⟨m,hm,hgen⟩ := hgeneration x hx
      have := (above.child h).unique hroot hgen
      omega
    refine ⟨x :: l,nodup_cons.mpr ⟨hx,hnodup⟩,by simp [hlength],?_,?_⟩
    · exact cons_subset.mpr ⟨hknown x p h,hsubset⟩
    · intro y hy
      rcases mem_cons.mp hy with rfl | hy
      · exact ⟨n + 1,le_rfl,above.child h⟩
      · obtain ⟨m,hm,hgen⟩ := hgeneration y hy
        exact ⟨m,by omega,hgen⟩

end PhenixConductor.Collections
