import Mathlib.Data.List.Basic
import Mathlib.Logic.Relation

/-! # Forests of calls

A log of nodes that only grows. A node names the earlier node that it was called from, or none.
-/
namespace PhenixConductor.Collections
open Relation
variable {N : Type*}

/-- The nodes without a caller meet `Root`, and each of the others stands in `Link` to
its caller. -/
inductive CallForest (caller : N → Option ℕ) (Root : N → Prop) (Link : N → N → Prop) :
    List N → Prop
  | nil : CallForest caller Root Link []
  | root {nodes : List N} {node : N} : CallForest caller Root Link nodes → caller node = none →
      Root node → CallForest caller Root Link (nodes ++ [node])
  | call {nodes : List N} {node parent : N} {i : ℕ} : CallForest caller Root Link nodes →
      caller node = some i → nodes[i]? = some parent → Link parent node →
      CallForest caller Root Link (nodes ++ [node])

/-- The node at `j` was called from the one at `i`. -/
def Calls (caller : N → Option ℕ) (nodes : List N) (i j : ℕ) : Prop :=
  ∃ node, nodes[j]? = some node ∧ caller node = some i

/-- The node at `i` is on the path of calls that leads to the one at `j`. -/
def OnPath (caller : N → Option ℕ) (nodes : List N) : ℕ → ℕ → Prop :=
  ReflTransGen (Calls caller nodes)

/-- The nodes on the path to a node are on one path. -/
theorem OnPath.total {caller : N → Option ℕ} {nodes : List N} {i j k : ℕ}
    (hi : OnPath caller nodes i k) (hj : OnPath caller nodes j k) :
    OnPath caller nodes i j ∨ OnPath caller nodes j i := by
  have hunique : Relator.RightUnique (Function.swap (Calls caller nodes)) := by
    rintro k i j ⟨node,hnode,hcaller⟩ ⟨node',hnode',hcaller'⟩
    cases hnode.symm.trans hnode'
    exact Option.some.inj (hcaller.symm.trans hcaller')
  rcases ReflTransGen.total_of_right_unique hunique hi.swap hj.swap with h | h
  · exact .inr h.swap
  · exact .inl h.swap

theorem getElem?_append_singleton {nodes : List N} {node found : N} {j : ℕ}
    (h : (nodes ++ [node])[j]? = some found) :
    nodes[j]? = some found ∨ j = nodes.length ∧ found = node := by
  rcases Nat.lt_or_ge j nodes.length with hj | hj
  · rw [List.getElem?_append_left hj] at h
    exact .inl h
  · rw [List.getElem?_append_right hj, List.getElem?_singleton] at h
    split at h
    · cases h
      exact .inr ⟨by omega,rfl⟩
    · cases h

namespace CallForest
variable {caller : N → Option ℕ} {Root : N → Prop} {Link : N → N → Prop} {nodes : List N}

/-- What holds of the roots and is handed down by every call holds of all nodes. -/
theorem forall_mem {P : N → Prop} (hroot : ∀ node, Root node → P node)
    (hlink : ∀ parent node, Link parent node → P parent → P node)
    (h : CallForest caller Root Link nodes) : ∀ node ∈ nodes, P node := by
  induction h with
  | nil => exact fun _ hmem => absurd hmem List.not_mem_nil
  | root _ _ hnode ih =>
    intro node hmem
    rcases List.mem_append.mp hmem with hmem | hmem
    · exact ih node hmem
    · rw [List.mem_singleton.mp hmem]
      exact hroot _ hnode
  | call _ _ hparent hnode ih =>
    intro node hmem
    rcases List.mem_append.mp hmem with hmem | hmem
    · exact ih node hmem
    · rw [List.mem_singleton.mp hmem]
      exact hlink _ _ hnode (ih _ (List.mem_of_getElem? hparent))

section
variable (h : CallForest caller Root Link nodes)
include h

/-- A node that names a caller has one, to which it is linked. -/
theorem link {j : ℕ} {node : N}
    (hnode : nodes[j]? = some node) {i : ℕ} (hi : caller node = some i) :
    ∃ parent, nodes[i]? = some parent ∧ Link parent node := by
  have keep {nodes : List N} {added parent : N} (hparent : nodes[i]? = some parent) :
      (nodes ++ [added])[i]? = some parent := by
    rw [List.getElem?_append_left (List.getElem?_eq_some_iff.mp hparent).1, hparent]
  induction h with
  | nil => cases hnode
  | root _ hnone _ ih =>
    rcases getElem?_append_singleton hnode with hnode | ⟨-,rfl⟩
    · obtain ⟨parent,hparent,hlink⟩ := ih hnode
      exact ⟨parent,keep hparent,hlink⟩
    · cases hnone.symm.trans hi
  | call _ hsome hparent hlink ih =>
    rcases getElem?_append_singleton hnode with hnode | ⟨-,rfl⟩
    · obtain ⟨parent,hparent,hlink⟩ := ih hnode
      exact ⟨parent,keep hparent,hlink⟩
    · cases hsome.symm.trans hi
      exact ⟨_,keep hparent,hlink⟩

/-- A relation to oneself that calls hand down relates a node to all nodes below it. -/
theorem inherited {R : N → N → Prop}
    (hself : ∀ node ∈ nodes, R node node)
    (hlink : ∀ above parent node, R above parent → Link parent node → R above node)
    {i j : ℕ} (hpath : OnPath caller nodes i j) {above below : N}
    (habove : nodes[i]? = some above) (hbelow : nodes[j]? = some below) : R above below := by
  induction hpath generalizing below with
  | refl =>
    cases habove.symm.trans hbelow
    exact hself above (List.mem_of_getElem? habove)
  | tail _ hcall ih =>
    obtain ⟨node,hnode,hcaller⟩ := hcall
    cases hnode.symm.trans hbelow
    obtain ⟨parent,hparent,hrelated⟩ := h.link hbelow hcaller
    exact hlink above parent below (ih hparent) hrelated

/-- A path to a node consists of nodes. -/
theorem exists_of_onPath {i j : ℕ}
    (hpath : OnPath caller nodes i j) {below : N} (hbelow : nodes[j]? = some below) :
    ∃ above, nodes[i]? = some above := by
  rcases hpath.cases_head with rfl | ⟨k,⟨node,hnode,hcaller⟩,-⟩
  · exact ⟨below,hbelow⟩
  · obtain ⟨parent,hparent,-⟩ := h.link hnode hcaller
    exact ⟨parent,hparent⟩

/-- What a call adds to such a relation relates a node to those strictly below it. -/
theorem inherited_of_ne {R Q : N → N → Prop}
    (hself : ∀ node ∈ nodes, R node node)
    (hlink : ∀ above parent node, R above parent → Link parent node → R above node)
    (hstrict : ∀ above parent node, R above parent → Link parent node → Q above node)
    {i j : ℕ} (hpath : OnPath caller nodes i j) (hne : i ≠ j) {above below : N}
    (habove : nodes[i]? = some above) (hbelow : nodes[j]? = some below) : Q above below := by
  cases hpath with
  | refl => exact absurd rfl hne
  | tail hpath hcall =>
    obtain ⟨node,hnode,hcaller⟩ := hcall
    cases hnode.symm.trans hbelow
    obtain ⟨parent,hparent,hrelated⟩ := h.link hbelow hcaller
    exact hstrict above parent below (h.inherited hself hlink hpath habove hparent) hrelated

/-- Callers come first. -/
theorem lt {i j : ℕ} (hcall : Calls caller nodes i j) :
    i < j := by
  obtain ⟨node,hnode,hi⟩ := hcall
  induction h with
  | nil => cases hnode
  | root _ hnone _ ih =>
    rcases getElem?_append_singleton hnode with hnode | ⟨-,rfl⟩
    · exact ih hnode
    · cases hnone.symm.trans hi
  | call _ hsome hparent _ ih =>
    rcases getElem?_append_singleton hnode with hnode | ⟨rfl,rfl⟩
    · exact ih hnode
    · cases hsome.symm.trans hi
      exact (List.getElem?_eq_some_iff.mp hparent).1

end

end CallForest
end PhenixConductor.Collections
