import Mathlib.Data.List.Induction
import Mathlib.Data.List.Nodup

/-! # The first member of every key

A loop that remembers the keys it has seen works on the first member of every key.
-/
namespace PhenixConductor.Collections
open List
variable {α κ : Type}

/-- A place in a list with one member more is a place in the list, or the last one. -/
theorem concat_eq_append_cons {l before after : List α} {last a : α} :
    l ++ [last] = before ++ a :: after ↔
      (∃ rest, after = rest ++ [last] ∧ l = before ++ a :: rest) ∨
        after = [] ∧ before = l ∧ a = last := by
  constructor
  · intro h
    rcases eq_nil_or_concat after with rfl | ⟨rest,b,rfl⟩
    · obtain ⟨rfl,hlast⟩ := append_inj' h rfl
      cases hlast
      exact .inr ⟨rfl,rfl,rfl⟩
    · rw [concat_eq_append, ← cons_append, ← append_assoc] at h
      obtain ⟨rfl,hlast⟩ := append_inj' h rfl
      cases hlast
      exact .inl ⟨rest,concat_eq_append,rfl⟩
  · rintro (⟨rest,rfl,rfl⟩ | ⟨rfl,rfl,rfl⟩)
    · rw [append_assoc, cons_append]
    · rfl

variable [DecidableEq κ] (key : α → κ)

/-- A member whose key has not been seen is added. -/
def keepNew (kept : List α) (a : α) : List α :=
  if key a ∈ kept.map key then kept else kept ++ [a]

def firsts (l : List α) : List α := l.foldl (keepNew key) []

theorem firsts_concat (l : List α) (a : α) :
    firsts key (l ++ [a]) = keepNew key (firsts key l) a :=
  foldl_concat ..

theorem firsts_sublist (l : List α) : (firsts key l).Sublist l := by
  induction l using List.reverseRecOn with
  | nil => exact .slnil
  | append_singleton l a ih =>
    rw [firsts_concat, keepNew]
    split_ifs with hseen
    · exact ih.trans (sublist_append_left l [a])
    · exact ih.append_right [a]

theorem mem_map_keepNew {kept : List α} {a : α} {k : κ} :
    k ∈ (keepNew key kept a).map key ↔ k ∈ kept.map key ∨ k = key a := by
  rw [keepNew]
  split_ifs with hseen
  · refine (or_iff_left_of_imp ?_).symm
    rintro rfl
    exact hseen
  · rw [map_append, mem_append, map_singleton, mem_singleton]

theorem nodup_map_keepNew {kept : List α} (h : (kept.map key).Nodup) (a : α) :
    ((keepNew key kept a).map key).Nodup := by
  rw [keepNew]
  split_ifs with hseen
  · exact h
  · rw [map_append, map_singleton, ← concat_eq_append]
    exact h.concat hseen

theorem mem_map_foldl_keepNew {kept l : List α} {k : κ} :
    k ∈ (l.foldl (keepNew key) kept).map key ↔ k ∈ kept.map key ∨ k ∈ l.map key := by
  induction l generalizing kept with
  | nil => simp
  | cons a l ih => rw [foldl_cons, ih, mem_map_keepNew, or_assoc, map_cons, mem_cons]

theorem nodup_map_foldl_keepNew {kept : List α} (h : (kept.map key).Nodup) (l : List α) :
    ((l.foldl (keepNew key) kept).map key).Nodup := by
  induction l generalizing kept with
  | nil => exact h
  | cons a l ih => exact ih (nodup_map_keepNew key h a)

/-- Members that come first do not change how many there are. -/
theorem length_foldl_keepNew {kept l : List α} (hkept : (kept.map key).Nodup)
    (hl : (l.map key).Nodup) (hsubset : kept.map key ⊆ l.map key) :
    (l.foldl (keepNew key) kept).length = l.length := by
  have hsame : ((l.foldl (keepNew key) kept).map key).Perm (l.map key) := by
    refine (perm_ext_iff_of_nodup (nodup_map_foldl_keepNew key hkept l) hl).mpr fun k => ?_
    rw [mem_map_foldl_keepNew]
    exact or_iff_right_of_imp fun hk => hsubset hk
  simpa using hsame.length_eq

theorem mem_map_firsts {l : List α} {k : κ} : k ∈ (firsts key l).map key ↔ k ∈ l.map key := by
  simp [firsts, mem_map_foldl_keepNew]

theorem nodup_map_firsts (l : List α) : ((firsts key l).map key).Nodup := by
  have hnil : (([] : List α).map key).Nodup := .nil
  exact nodup_map_foldl_keepNew key hnil l

/-- Lists with the same members have the same first ones, in some order, as far as members of one
key agree. -/
theorem perm_map_firsts {β : Type} {key : α → κ} {l m : List α} {f : α → β}
    (hagree : ∀ a ∈ l, ∀ b ∈ l, key a = key b → f a = f b) (hsame : ∀ a, a ∈ l ↔ a ∈ m) :
    ((firsts key l).map f).Perm ((firsts key m).map f) := by
  have hkeyed : ∀ l : List α, ((firsts key l).map fun a => (key a,f a)).Nodup := fun l => by
    refine List.Nodup.of_map Prod.fst ?_
    rw [map_map]
    exact nodup_map_firsts key l
  have hmem : ∀ {l : List α}, (∀ a ∈ l, ∀ b ∈ l, key a = key b → f a = f b) → ∀ entry : κ × β,
      entry ∈ (firsts key l).map (fun a => (key a,f a)) ↔ ∃ a ∈ l, (key a,f a) = entry := by
    intro l hagree entry
    rw [mem_map]
    constructor
    · rintro ⟨a,ha,rfl⟩
      exact ⟨a,(firsts_sublist key l).subset ha,rfl⟩
    · rintro ⟨a,ha,rfl⟩
      obtain ⟨b,hb,hkey⟩ := mem_map.mp ((mem_map_firsts key).mpr (mem_map_of_mem ha))
      have hmember := (firsts_sublist key l).subset hb
      exact ⟨b,hb,Prod.ext hkey (hagree b hmember a ha hkey)⟩
  have hother : ∀ a ∈ m, ∀ b ∈ m, key a = key b → f a = f b := fun a ha b hb =>
    hagree a ((hsame a).mpr ha) b ((hsame b).mpr hb)
  have hperm := (perm_ext_iff_of_nodup (hkeyed l) (hkeyed m)).mpr fun entry => by
    rw [hmem hagree,hmem hother]
    exact exists_congr fun a => and_congr_left fun _ => hsame a
  simpa only [map_map,Function.comp_def] using hperm.map Prod.snd

/-- The first member of a key is related to every member that has the key. -/
theorem firsts_related {key : α → κ} {R : α → α → Prop} [Std.Refl R]
    {l : List α} (hpairwise : l.Pairwise R) {a b : α} (ha : a ∈ firsts key l) (hb : b ∈ l)
    (hkey : key a = key b) : R a b := by
  induction l using List.reverseRecOn with
  | nil => cases hb
  | append_singleton l last ih =>
    obtain ⟨hbefore,-,hlast⟩ := pairwise_append.mp hpairwise
    rw [firsts_concat, keepNew] at ha
    rw [mem_append, mem_singleton] at hb
    split_ifs at ha with hseen
    · rcases hb with hb | rfl
      · exact ih hbefore ha hb
      · exact hlast a ((firsts_sublist key l).subset ha) b (mem_singleton_self b)
    · rw [mem_append, mem_singleton] at ha
      rcases ha with ha | rfl <;> rcases hb with hb | rfl
      · exact ih hbefore ha hb
      · exact hlast a ((firsts_sublist key l).subset ha) b (mem_singleton_self b)
      · exact absurd ((mem_map_firsts key).mpr (hkey ▸ mem_map_of_mem hb)) hseen
      · exact refl_of R _

/-- A member that no later member has the key of. -/
def LastAt {α κ : Type} (key : α → κ) (l : List α) (a : α) : Prop :=
  ∃ earlier later, l = earlier ++ a :: later ∧ ∀ b ∈ later, key b ≠ key a

theorem not_lastAt_nil {α κ : Type} (key : α → κ) (a : α) : ¬LastAt key [] a := by
  rintro ⟨earlier,later,h,-⟩
  simp at h

theorem lastAt_concat {α κ : Type} {key : α → κ} {l : List α} {a b : α} :
    LastAt key (l ++ [b]) a ↔ a = b ∨ (LastAt key l a ∧ key b ≠ key a) := by
  constructor
  · rintro ⟨earlier,later,h,hlater⟩
    rcases concat_eq_append_cons.mp h with ⟨rest,rfl,rfl⟩ | ⟨-,-,rfl⟩
    · exact .inr ⟨⟨earlier,rest,rfl,fun c hc => hlater c (by simp [hc])⟩,hlater b (by simp)⟩
    · exact .inl rfl
  · rintro (rfl | ⟨⟨earlier,later,rfl,hlater⟩,hb⟩)
    · exact ⟨l,[],rfl,by simp⟩
    · refine ⟨earlier,later ++ [b],by simp,?_⟩
      simpa [or_imp,forall_and] using ⟨hlater,hb⟩

end PhenixConductor.Collections
