import PhenixConductor.Observable.Model

/-! # The subscription index of a root

A trie over path segments. Its meaning is the relation `Subscribed`: which observation stands at
which path under which scope.
-/
namespace PhenixConductor.Observable
open Collections BTreeMap

inductive SubscriptionNode where
  | mk (exact recursive : List ObservationId)
      (children : BTreeMap ValuePathSegment SubscriptionNode)

/-- `extend_unique`. -/
def extendUnique (output values : List ObservationId) : List ObservationId :=
  values.foldl (fun output value => if value ∈ output then output else output ++ [value]) output

theorem mem_extendUnique (output values : List ObservationId) (id : ObservationId) :
    id ∈ extendUnique output values ↔ id ∈ output ∨ id ∈ values := by
  induction values generalizing output with
  | nil => simp [extendUnique]
  | cons v values ih =>
    rw [extendUnique, List.foldl_cons]
    refine (ih _).trans ?_
    split_ifs with hv
    · simp only [List.mem_cons]
      constructor
      · rintro (h | h) <;> simp [h]
      · rintro (h | rfl | h) <;> simp_all
    · simp [or_assoc]

theorem nodup_extendUnique {output : List ObservationId} (h : output.Nodup)
    (values : List ObservationId) : (extendUnique output values).Nodup := by
  induction values generalizing output with
  | nil => exact h
  | cons v values ih =>
    rw [extendUnique, List.foldl_cons]
    apply ih
    split_ifs with hv
    · exact h
    · exact List.nodup_append.mpr ⟨h,List.nodup_singleton v,by
        rintro a ha b hb rfl
        rw [List.mem_singleton] at hb
        exact hv (hb ▸ ha)⟩

/-- A loop whose rounds add the members described by `P` adds all of them. -/
theorem mem_foldl_collect {β : Type} {f : List ObservationId → β → List ObservationId}
    {id : ObservationId} {P : β → Prop} (l : List β) (output : List ObservationId)
    (hf : ∀ b ∈ l, ∀ output, id ∈ f output b ↔ id ∈ output ∨ P b) :
    id ∈ l.foldl f output ↔ id ∈ output ∨ ∃ b ∈ l, P b := by
  induction l generalizing output with
  | nil => simp
  | cons b l ih =>
    rw [List.foldl_cons, ih _ fun c hc => hf c (by simp [hc]), hf b (by simp)]
    simp [or_assoc]

theorem nodup_foldl_collect {β : Type} {f : List ObservationId → β → List ObservationId}
    (l : List β) {output : List ObservationId} (h : output.Nodup)
    (hf : ∀ b ∈ l, ∀ output : List ObservationId, output.Nodup → (f output b).Nodup) :
    (l.foldl f output).Nodup := by
  induction l generalizing output with
  | nil => exact h
  | cons b l ih => exact ih (hf b (by simp) _ h) fun c hc => hf c (by simp [hc])

namespace SubscriptionNode

/-- Induction with one hypothesis per child. -/
@[elab_as_elim]
theorem induct {motive : SubscriptionNode → Prop}
    (mk : ∀ exact recursive children,
      (∀ s child, children.get? s = some child → motive child) →
      motive (.mk exact recursive children)) (node : SubscriptionNode) : motive node := by
  refine @SubscriptionNode.rec motive
    (fun m => ∀ s child, m.get? s = some child → motive child) mk ?_ node
  intro keys sorted val ih s child h
  obtain ⟨hs,rfl⟩ := (get?_eq_some _).mp h
  exact ih s hs

def empty : SubscriptionNode := mk [] [] .empty

/-- Observations of one scope at this node. -/
def ids : SubscriptionNode → ObservationScope → List ObservationId
  | mk exact _ _, .exact => exact
  | mk _ recursive _, .recursive => recursive

def children : SubscriptionNode → BTreeMap ValuePathSegment SubscriptionNode
  | mk _ _ children => children

def insert (id : ObservationId) (scope : ObservationScope) :
    SubscriptionNode → ValuePath → SubscriptionNode
  | mk exact recursive children, head :: tail =>
    mk exact recursive
      (children.insert head (insert id scope ((children.get? head).getD empty) tail))
  | mk exact recursive children, [] =>
    match scope with
    | .exact => mk (exact ++ [id]) recursive children
    | .recursive => mk exact (recursive ++ [id]) children

def isEmpty : SubscriptionNode → Bool
  | mk exact recursive children => exact.isEmpty && recursive.isEmpty && children.keys.isEmpty

def remove (id : ObservationId) (scope : ObservationScope) :
    SubscriptionNode → ValuePath → SubscriptionNode
  | mk exact recursive children, head :: tail =>
    match children.get? head with
    | some child =>
      let child := remove id scope child tail
      mk exact recursive
        (if child.isEmpty then children.erase head else children.insert head child)
    | none => mk exact recursive children
  | mk exact recursive children, [] =>
    match scope with
    | .exact => mk (exact.filter (· ≠ id)) recursive children
    | .recursive => mk exact (recursive.filter (· ≠ id)) children

def collectAll : SubscriptionNode → List ObservationId → List ObservationId
  | mk exact recursive ⟨keys,_,val⟩, output =>
    keys.attach.foldl (fun output k => collectAll (val k.1 k.2) output)
      (extendUnique (extendUnique output exact) recursive)

def collectForPath : SubscriptionNode → ValuePath → List ObservationId → List ObservationId
  | mk exact recursive children, [], output =>
    collectAll (mk exact recursive children) (extendUnique (extendUnique output recursive) exact)
  | mk _ recursive children, head :: tail, output =>
    match children.get? head with
    | some child => collectForPath child tail (extendUnique output recursive)
    | none => extendUnique output recursive

/-- The indexes below a spliced list that the splice may have changed. -/
def affectedIndex (start deleteCount insertedCount index : UInt32) : Bool :=
  if insertedCount = deleteCount then
    start ≤ index && index.toNat < min (start.toNat + deleteCount.toNat) (2 ^ 32 - 1)
  else start ≤ index

def affectedSegment (start deleteCount insertedCount : UInt32) : ValuePathSegment → Bool
  | .index i => affectedIndex start deleteCount insertedCount i
  | _ => false

def collectForSplice (start deleteCount insertedCount : UInt32) :
    SubscriptionNode → ValuePath → List ObservationId → List ObservationId
  | mk exact recursive children, [], output =>
    children.toList.foldl (fun output (segment,child) =>
        if affectedSegment start deleteCount insertedCount segment then collectAll child output
        else output)
      (extendUnique (extendUnique (extendUnique output recursive) exact) recursive)
  | mk _ recursive children, head :: tail, output =>
    match children.get? head with
    | some child =>
      collectForSplice start deleteCount insertedCount child tail (extendUnique output recursive)
    | none => extendUnique output recursive

/-! ## What an index means -/

/-- The node at a path, when the trie reaches it. -/
def descend : SubscriptionNode → ValuePath → Option SubscriptionNode
  | node, [] => some node
  | node, head :: tail => (node.children.get? head).bind fun child => descend child tail

/-- Observation `id` stands at `path` under `scope`. -/
def Subscribed (node : SubscriptionNode) (path : ValuePath) (id : ObservationId)
    (scope : ObservationScope) : Prop :=
  ∃ n, node.descend path = some n ∧ id ∈ n.ids scope

theorem subscribed_nil (node : SubscriptionNode) (id : ObservationId) (scope : ObservationScope) :
    node.Subscribed [] id scope ↔ id ∈ node.ids scope := by
  simp [Subscribed, descend]

theorem subscribed_cons (node : SubscriptionNode) (s : ValuePathSegment) (p : ValuePath)
    (id : ObservationId) (scope : ObservationScope) :
    node.Subscribed (s :: p) id scope ↔
      ∃ child, node.children.get? s = some child ∧ child.Subscribed p id scope := by
  cases h : node.children.get? s <;> simp [Subscribed, descend, h]

theorem not_subscribed_empty (p : ValuePath) (id : ObservationId) (scope : ObservationScope) :
    ¬ empty.Subscribed p id scope := by
  cases p with
  | nil => cases scope <;> simp [subscribed_nil, empty, ids]
  | cons s p => simp [subscribed_cons, empty, children]

variable {node : SubscriptionNode}

theorem not_subscribed_of_isEmpty (h : node.isEmpty = true) (p : ValuePath) (id : ObservationId)
    (scope : ObservationScope) : ¬ node.Subscribed p id scope := by
  obtain ⟨exact,recursive,children⟩ := node
  simp only [isEmpty, Bool.and_eq_true, List.isEmpty_iff] at h
  obtain ⟨⟨rfl,rfl⟩,hc⟩ := h
  cases p with
  | nil => cases scope <;> simp [subscribed_nil, ids]
  | cons s p =>
    have hs : children.get? s = none := (get?_eq_none _).mpr (by simp [hc])
    simp [subscribed_cons, SubscriptionNode.children, hs]

/-- The ids that stand at a path under a scope, as often as they were added. -/
def idsAt (node : SubscriptionNode) (path : ValuePath) (scope : ObservationScope) :
    List ObservationId :=
  ((node.descend path).map fun found => found.ids scope).getD []

theorem idsAt_nil (node : SubscriptionNode) (scope : ObservationScope) :
    node.idsAt [] scope = node.ids scope := rfl

theorem idsAt_cons (node : SubscriptionNode) (s : ValuePathSegment) (path : ValuePath)
    (scope : ObservationScope) : node.idsAt (s :: path) scope =
      ((node.children.get? s).map fun child => child.idsAt path scope).getD [] := by
  unfold idsAt
  rw [descend]
  cases node.children.get? s <;> rfl

theorem mem_idsAt {path : ValuePath} {id : ObservationId} {scope : ObservationScope} :
    id ∈ node.idsAt path scope ↔ node.Subscribed path id scope := by
  unfold idsAt Subscribed
  cases node.descend path <;> simp

theorem idsAt_eq_nil (h : node.isEmpty = true) (path : ValuePath) (scope : ObservationScope) :
    node.idsAt path scope = [] := by
  apply List.eq_nil_iff_forall_not_mem.mpr
  intro id hid
  exact not_subscribed_of_isEmpty h path id scope (mem_idsAt.mp hid)

theorem isEmpty_empty : empty.isEmpty = true := rfl

theorem idsAt_insert (node : SubscriptionNode) (p q : ValuePath) (id : ObservationId)
    (scope t : ObservationScope) : (insert id scope node p).idsAt q t =
      if q = p ∧ t = scope then node.idsAt q t ++ [id] else node.idsAt q t := by
  induction p generalizing node q with
  | nil =>
    obtain ⟨exact,recursive,children⟩ := node
    cases q with
    | nil => cases scope <;> cases t <;> simp [idsAt_nil, insert, ids]
    | cons s q => cases scope <;> simp [idsAt_cons, insert, SubscriptionNode.children]
  | cons s p ih =>
    obtain ⟨exact,recursive,children⟩ := node
    cases q with
    | nil => cases t <;> simp [idsAt_nil, insert, ids]
    | cons u q =>
      simp only [idsAt_cons, insert, SubscriptionNode.children, get?_insert]
      by_cases hu : u = s
      · subst hu
        simp only [if_true, Option.map_some, Option.getD_some, ih, List.cons.injEq, true_and]
        cases children.get? u with
        | none => simp [idsAt_eq_nil isEmpty_empty]
        | some child => simp
      · simp [hu]

theorem idsAt_remove (node : SubscriptionNode) (p q : ValuePath) (id : ObservationId)
    (scope t : ObservationScope) : (remove id scope node p).idsAt q t =
      if q = p ∧ t = scope then (node.idsAt q t).filter (· ≠ id) else node.idsAt q t := by
  induction p generalizing node q with
  | nil =>
    obtain ⟨exact,recursive,children⟩ := node
    cases q with
    | nil => cases scope <;> cases t <;> simp [idsAt_nil, remove, ids]
    | cons s q => cases scope <;> simp [idsAt_cons, remove, SubscriptionNode.children]
  | cons s p ih =>
    obtain ⟨exact,recursive,children⟩ := node
    cases hc : children.get? s with
    | none =>
      simp only [remove, hc]
      cases q with
      | nil => simp
      | cons u q =>
        by_cases hu : u = s
        · subst hu
          simp [idsAt_cons, SubscriptionNode.children, hc]
        · simp [hu]
    | some child =>
      simp only [remove, hc]
      cases q with
      | nil => cases t <;> simp [idsAt_nil, ids]
      | cons u q =>
        simp only [idsAt_cons, SubscriptionNode.children]
        by_cases hu : u = s
        · subst hu
          have hi := ih child q
          have hchild : ((children.get? u).map fun child => child.idsAt q t).getD [] =
              child.idsAt q t := by rw [hc]; rfl
          rw [hchild]
          simp only [List.cons.injEq, true_and]
          rw [← hi]
          split_ifs with he
          · simp [idsAt_eq_nil he]
          · simp
        · have hne : ¬(u :: q = s :: p ∧ t = scope) := by simp [hu]
          split_ifs <;> simp [hu, get?_erase_of_ne, get?_insert_of_ne]

theorem subscribed_insert (node : SubscriptionNode) (p q : ValuePath) (id j : ObservationId)
    (scope t : ObservationScope) :
    (insert id scope node p).Subscribed q j t ↔
      node.Subscribed q j t ∨ (q = p ∧ j = id ∧ t = scope) := by
  rw [← mem_idsAt, ← mem_idsAt, idsAt_insert]
  split_ifs with h <;> simp_all

theorem subscribed_remove (node : SubscriptionNode) (p q : ValuePath) (id j : ObservationId)
    (scope t : ObservationScope) :
    (remove id scope node p).Subscribed q j t ↔
      node.Subscribed q j t ∧ ¬ (q = p ∧ j = id ∧ t = scope) := by
  rw [← mem_idsAt, ← mem_idsAt, idsAt_remove]
  split_ifs with h <;> simp_all

/-! ## What the collectors list -/

/-- Below a node stand its own observations and those below its children. -/
theorem exists_subscribed_mk (exact recursive : List ObservationId)
    (children : BTreeMap ValuePathSegment SubscriptionNode) (id : ObservationId) :
    (∃ p scope, (mk exact recursive children).Subscribed p id scope) ↔
      (id ∈ exact ∨ id ∈ recursive) ∨
        ∃ s child, children.get? s = some child ∧ ∃ p scope, child.Subscribed p id scope := by
  constructor
  · rintro ⟨p,scope,h⟩
    cases p with
    | nil =>
      rw [subscribed_nil] at h
      cases scope
      exacts [.inl (.inl h),.inl (.inr h)]
    | cons s p =>
      obtain ⟨child,hc,h⟩ := (subscribed_cons _ _ _ _ _).mp h
      exact .inr ⟨s,child,hc,p,scope,h⟩
  · rintro ((h | h) | ⟨s,child,hc,p,scope,h⟩)
    · exact ⟨[],.exact,(subscribed_nil _ _ _).mpr h⟩
    · exact ⟨[],.recursive,(subscribed_nil _ _ _).mpr h⟩
    · exact ⟨s :: p,scope,(subscribed_cons _ _ _ _ _).mpr ⟨child,hc,h⟩⟩

theorem mem_collectAll (node : SubscriptionNode) (output : List ObservationId) (id : ObservationId) :
    id ∈ collectAll node output ↔ id ∈ output ∨ ∃ p scope, node.Subscribed p id scope := by
  induction node using induct generalizing output with
  | mk exact recursive children ih =>
    obtain ⟨keys,sorted,val⟩ := children
    rw [collectAll, mem_foldl_collect keys.attach _ fun k _ output =>
      ih k.1 (val k.1 k.2) (get?_of_mem ⟨keys,sorted,val⟩ k.2) output]
    rw [mem_extendUnique, mem_extendUnique, exists_subscribed_mk, or_assoc, or_assoc, or_assoc]
    simp only [List.mem_attach, true_and, Subtype.exists, get?_eq_some]
    refine or_congr_right (or_congr_right (or_congr_right ?_))
    constructor
    · rintro ⟨s,hs,h⟩
      exact ⟨s,_,⟨hs,rfl⟩,h⟩
    · rintro ⟨s,_,⟨hs,rfl⟩,h⟩
      exact ⟨s,hs,h⟩

variable {output : List ObservationId}

theorem nodup_collectAll (node : SubscriptionNode) (h : output.Nodup) :
    (collectAll node output).Nodup := by
  induction node using induct generalizing output with
  | mk exact recursive children ih =>
    obtain ⟨keys,sorted,val⟩ := children
    refine nodup_foldl_collect _ (nodup_extendUnique (nodup_extendUnique h _) _) ?_
    intro k _ output ho
    exact ih k.1 (val k.1 k.2) (get?_of_mem ⟨keys,sorted,val⟩ k.2) ho

theorem mem_exact_iff (exact recursive : List ObservationId)
    (children : BTreeMap ValuePathSegment SubscriptionNode) (id : ObservationId) :
    id ∈ exact ↔ (mk exact recursive children).Subscribed [] id .exact := by
  rw [subscribed_nil]
  rfl

theorem mem_recursive_iff (exact recursive : List ObservationId)
    (children : BTreeMap ValuePathSegment SubscriptionNode) (id : ObservationId) :
    id ∈ recursive ↔ (mk exact recursive children).Subscribed [] id .recursive := by
  rw [subscribed_nil]
  rfl

/-- The recursive observations above a path, by its first segment. -/
theorem exists_above_cons (exact recursive : List ObservationId)
    (children : BTreeMap ValuePathSegment SubscriptionNode) (s : ValuePathSegment)
    (path : ValuePath) (id : ObservationId) :
    (∃ p, p <+: s :: path ∧ (mk exact recursive children).Subscribed p id .recursive) ↔
      id ∈ recursive ∨ ∃ child, children.get? s = some child ∧
        ∃ p, p <+: path ∧ child.Subscribed p id .recursive := by
  rw [mem_recursive_iff exact recursive children]
  constructor
  · rintro ⟨p,hp,h⟩
    rcases List.prefix_cons_iff.mp hp with rfl | ⟨q,rfl,hq⟩
    · exact .inl h
    · obtain ⟨child,hc,h⟩ := (subscribed_cons _ _ _ _ _).mp h
      exact .inr ⟨child,hc,q,hq,h⟩
  · rintro (h | ⟨child,hc,p,hp,h⟩)
    · exact ⟨[], List.nil_prefix,h⟩
    · exact ⟨s :: p,List.cons_prefix_cons.mpr ⟨rfl,hp⟩,
        (subscribed_cons _ _ _ _ _).mpr ⟨child,hc,h⟩⟩

/-- A changed path reaches the recursive observations above it and everything at
or below it. -/
theorem mem_collectForPath (node : SubscriptionNode) (path : ValuePath)
    (output : List ObservationId) (id : ObservationId) :
    id ∈ collectForPath node path output ↔ id ∈ output ∨
      (∃ p, p <+: path ∧ node.Subscribed p id .recursive) ∨
        ∃ rest scope, node.Subscribed (path ++ rest) id scope := by
  induction path generalizing node output with
  | nil =>
    obtain ⟨exact,recursive,children⟩ := node
    rw [collectForPath, mem_collectAll, mem_extendUnique, mem_extendUnique,
      mem_recursive_iff exact recursive children, mem_exact_iff exact recursive children]
    simp only [List.prefix_nil, exists_eq_left, List.nil_append]
    constructor
    · rintro (((h | h) | h) | h)
      · exact .inl h
      · exact .inr (.inl h)
      · exact .inr (.inr ⟨[],_,h⟩)
      · exact .inr (.inr h)
    · rintro (h | h | h)
      · exact .inl (.inl (.inl h))
      · exact .inl (.inl (.inr h))
      · exact .inr h
  | cons s path ih =>
    obtain ⟨exact,recursive,children⟩ := node
    rw [exists_above_cons]
    simp only [List.cons_append, subscribed_cons, SubscriptionNode.children]
    cases hc : children.get? s with
    | none => simp [collectForPath, hc, mem_extendUnique]
    | some child => simp [collectForPath, hc, ih, mem_extendUnique, or_assoc]

theorem nodup_collectForPath (node : SubscriptionNode) (path : ValuePath) (h : output.Nodup) :
    (collectForPath node path output).Nodup := by
  induction path generalizing node output with
  | nil =>
    obtain ⟨exact,recursive,children⟩ := node
    exact nodup_collectAll _ (nodup_extendUnique (nodup_extendUnique h _) _)
  | cons s path ih =>
    obtain ⟨exact,recursive,children⟩ := node
    cases hc : children.get? s with
    | none => simpa [collectForPath, hc] using nodup_extendUnique h recursive
    | some child => simpa [collectForPath, hc] using ih child (nodup_extendUnique h recursive)

/-- A splice reaches the recursive observations at or above its list, the exact
ones of the list, and those below the affected indexes. -/
theorem mem_collectForSplice (start deleteCount insertedCount : UInt32) (node : SubscriptionNode)
    (path : ValuePath) (output : List ObservationId) (id : ObservationId) :
    id ∈ collectForSplice start deleteCount insertedCount node path output ↔ id ∈ output ∨
      (∃ p, p <+: path ∧ node.Subscribed p id .recursive) ∨ node.Subscribed path id .exact ∨
        ∃ s rest scope, affectedSegment start deleteCount insertedCount s = true ∧
          node.Subscribed (path ++ s :: rest) id scope := by
  induction path generalizing node output with
  | nil =>
    obtain ⟨exact,recursive,children⟩ := node
    rw [collectForSplice, mem_foldl_collect (P := fun e =>
      affectedSegment start deleteCount insertedCount e.1 = true ∧
        ∃ p scope, e.2.Subscribed p id scope)]
    · rw [mem_extendUnique, mem_extendUnique, mem_extendUnique,
        mem_recursive_iff exact recursive children, mem_exact_iff exact recursive children]
      simp only [List.prefix_nil, exists_eq_left, List.nil_append, Prod.exists, mem_toList,
        subscribed_cons, SubscriptionNode.children]
      constructor
      · rintro ((((h | h) | h) | h) | ⟨s,child,hc,ha,p,scope,h⟩)
        · exact .inl h
        · exact .inr (.inl h)
        · exact .inr (.inr (.inl h))
        · exact .inr (.inl h)
        · exact .inr (.inr (.inr ⟨s,p,scope,ha,child,hc,h⟩))
      · rintro (h | h | h | ⟨s,p,scope,ha,child,hc,h⟩)
        · exact .inl (.inl (.inl (.inl h)))
        · exact .inl (.inr h)
        · exact .inl (.inl (.inr h))
        · exact .inr ⟨s,child,hc,ha,p,scope,h⟩
    · rintro ⟨s,child⟩ _ output
      by_cases ha : affectedSegment start deleteCount insertedCount s = true
      · simp [ha, mem_collectAll]
      · simp [ha]
  | cons s path ih =>
    obtain ⟨exact,recursive,children⟩ := node
    rw [exists_above_cons]
    simp only [List.cons_append, subscribed_cons, SubscriptionNode.children]
    cases hc : children.get? s with
    | none => simp [collectForSplice, hc, mem_extendUnique]
    | some child => simp [collectForSplice, hc, ih, mem_extendUnique, or_assoc]

theorem nodup_collectForSplice (start deleteCount insertedCount : UInt32) (node : SubscriptionNode)
    (path : ValuePath) (h : output.Nodup) :
    (collectForSplice start deleteCount insertedCount node path output).Nodup := by
  induction path generalizing node output with
  | nil =>
    obtain ⟨exact,recursive,children⟩ := node
    refine nodup_foldl_collect _
      (nodup_extendUnique (nodup_extendUnique (nodup_extendUnique h _) _) _) ?_
    rintro ⟨s,child⟩ _ output ho
    dsimp only
    split_ifs
    exacts [nodup_collectAll child ho,ho]
  | cons s path ih =>
    obtain ⟨exact,recursive,children⟩ := node
    cases hc : children.get? s with
    | none => simpa [collectForSplice, hc] using nodup_extendUnique h recursive
    | some child => simpa [collectForSplice, hc] using ih child (nodup_extendUnique h recursive)

end SubscriptionNode
end PhenixConductor.Observable
