import Mathlib.Data.List.Sort
import Mathlib.Data.Prod.Lex
import Mathlib.Data.List.Lex

/-! # Sorting by a key

A comparison that goes through several fields, some of them from the greater to the smaller
value, compares one key of a lexicographic product.
-/
namespace PhenixConductor.Collections
variable {α β κ : Type}

theorem isLE_compare_iff [LinearOrder α] {a b : α} : (compare a b).isLE = true ↔ a ≤ b := by
  rw [Ordering.isLE_iff_ne_gt, compare_gt_iff_gt, not_lt]

/-- The first field decides unless it is equal. -/
theorem isLE_then_iff [LinearOrder α] {a b : α} {o : Ordering} :
    ((compare a b).then o).isLE = true ↔ a < b ∨ a = b ∧ o.isLE = true := by
  rw [Ordering.isLE_then_iff_or, compare_lt_iff_lt, compare_eq_iff_eq]

variable {l : List α}

/-- Lists are compared in lexicographic order. -/
theorem isLE_compare_list_iff [LinearOrder α] {m : List α} : (compare l m).isLE = true ↔ l ≤ m := by
  induction l generalizing m with
  | nil =>
    constructor
    · intro _
      rw [← not_lt]
      exact List.not_lt_nil m
    · intro _
      exact List.isLE_compareLex_nil_left
  | cons a l ih =>
    cases m with
    | nil =>
      constructor
      · intro h
        cases h
      · intro h
        exact absurd (List.nil_lt_cons a l) (not_lt.mpr h)
    | cons b m =>
      rw [List.compare_eq_compareLex, List.compareLex_cons_cons, ← List.compare_eq_compareLex,
        isLE_then_iff, ih, ← not_lt, ← not_lt, List.cons_lt_cons_iff, not_or, not_and]
      constructor
      · rintro (h | ⟨rfl,h⟩)
        · exact ⟨h.not_gt,fun hba => absurd hba h.ne'⟩
        · exact ⟨lt_irrefl a,fun _ => h⟩
      · rintro ⟨hle,h⟩
        rcases (not_lt.mp hle).lt_or_eq with hlt | rfl
        · exact .inl hlt
        · exact .inr ⟨rfl,h rfl⟩

variable [LinearOrder κ]

/-- The stable sort of the comparison of keys. -/
def sortByKey (key : α → κ) (l : List α) : List α := l.insertionSort fun a b => key a ≤ key b

variable {key : α → κ}

theorem insertionSort_eq_sortByKey {cmp : α → α → Ordering}
    (h : ∀ a b, (cmp a b).isLE = true ↔ key a ≤ key b) (l : List α) :
    l.insertionSort (fun a b => (cmp a b).isLE) = sortByKey key l := by
  have hmap := List.map_insertionSort (fun a b => (cmp a b).isLE = true) (fun a b => key a ≤ key b)
    id l fun a _ b _ => h a b
  simpa [sortByKey] using hmap

theorem sortByKey_perm (key : α → κ) (l : List α) : (sortByKey key l).Perm l :=
  List.perm_insertionSort _ l

theorem sortByKey_pairwise (key : α → κ) (l : List α) :
    (sortByKey key l).Pairwise fun a b => key a ≤ key b := by
  exact List.pairwise_insertionSort _ l

/-- Distinct keys stand in strict order. -/
theorem sortByKey_strict (h : (l.map key).Nodup) :
    (sortByKey key l).Pairwise fun a b => key a < key b := by
  have hne : (sortByKey key l).Pairwise fun a b => key a ≠ key b :=
    List.pairwise_map.mp (((sortByKey_perm key l).map key).nodup_iff.mpr h)
  exact (sortByKey_pairwise key l).imp₂ (fun _ _ => lt_of_le_of_ne) hne

/-- Where keys are distinct, the order before the sort makes no difference. -/
theorem sortByKey_congr {m : List α} (h : l.Perm m) (hdistinct : (l.map key).Nodup) :
    sortByKey key l = sortByKey key m := by
  have hperm : (sortByKey key l).Perm (sortByKey key m) :=
    (sortByKey_perm key l).trans (h.trans (sortByKey_perm key m).symm)
  apply hperm.eq_of_pairwise _ (sortByKey_pairwise key l) (sortByKey_pairwise key m)
  intro a b ha hb hab hba
  have hl : ∀ c, c ∈ sortByKey key l → c ∈ l := fun c hc => (sortByKey_perm key l).mem_iff.mp hc
  have hm : ∀ c, c ∈ sortByKey key m → c ∈ l := fun c hc =>
    h.mem_iff.mpr ((sortByKey_perm key m).mem_iff.mp hc)
  exact List.inj_on_of_nodup_map hdistinct (hl a ha) (hm b hb) (le_antisymm hab hba)

theorem orderedInsert_comm {a b : α} (h : key a ≠ key b) (l : List α) :
    (l.orderedInsert (fun a b => key a ≤ key b) b).orderedInsert (fun a b => key a ≤ key b) a =
      (l.orderedInsert (fun a b => key a ≤ key b) a).orderedInsert (fun a b => key a ≤ key b) b := by
  induction l with
  | nil => grind [List.orderedInsert]
  | cons c l ih => grind [List.orderedInsert]

/-- Members with distinct keys may come in any order before the others. -/
theorem sortByKey_append_congr {m : List α} (h : l.Perm m) (hdistinct : (l.map key).Nodup)
    (rest : List α) : sortByKey key (l ++ rest) = sortByKey key (m ++ rest) := by
  have hfold : ∀ l, sortByKey key (l ++ rest) =
      l.foldr (List.orderedInsert fun a b => key a ≤ key b) (sortByKey key rest) := by
    intro l
    induction l with
    | nil => rfl
    | cons a l ih => exact congrArg (List.orderedInsert _ a) ih
  rw [hfold, hfold]
  refine h.foldr_eq' (fun a ha b hb l => ?_) _
  by_cases hab : a = b
  · rw [hab]
  · exact (orderedInsert_comm
      (fun hkey => hab (List.inj_on_of_nodup_map hdistinct ha hb hkey)) l).symm

@[simp] theorem sortByKey_eq_nil : sortByKey key l = [] ↔ l = [] := by
  rw [← List.length_eq_zero_iff, (sortByKey_perm key l).length_eq, List.length_eq_zero_iff]

/-- No key is smaller than that of the first member. -/
theorem sortByKey_eq_cons {rest : List α} {a : α} (h : sortByKey key l = a :: rest) :
    a ∈ l ∧ ∀ b ∈ l, key a ≤ key b := by
  have hmem : ∀ {b}, b ∈ l ↔ b = a ∨ b ∈ rest := by
    intro b
    rw [← (sortByKey_perm key l).mem_iff, h, List.mem_cons]
  have hsorted := sortByKey_pairwise key l
  rw [h, List.pairwise_cons] at hsorted
  refine ⟨hmem.mpr (.inl rfl),fun b hb => ?_⟩
  rcases hmem.mp hb with rfl | hrest
  · exact le_rfl
  · exact hsorted.1 b hrest

/-- The first members of a list in strict order are those that few others come before. -/
theorem mem_take_of_strict (hsorted : l.Pairwise fun a b => key a < key b) {n : ℕ} {a : α} :
    a ∈ l.take n ↔ a ∈ l ∧ (l.countP fun b => key b < key a) < n := by
  induction l generalizing n with
  | nil => simp
  | cons c l ih =>
    obtain ⟨hfirst,hrest⟩ := List.pairwise_cons.mp hsorted
    cases n with
    | zero => simp
    | succ n =>
      rw [List.take_succ_cons, List.mem_cons, List.mem_cons, ih hrest, List.countP_cons]
      constructor
      · rintro (rfl | ⟨hmem,hcount⟩)
        · have hnone : (l.countP fun b => key b < key a) = 0 :=
            List.countP_eq_zero.mpr fun b hb => by simpa using (hfirst b hb).le
          simp [hnone]
        · simp only [hmem, or_true, true_and]
          split_ifs <;> omega
      · rintro ⟨rfl | hmem,hcount⟩
        · exact .inl rfl
        · rw [if_pos (by simpa using hfirst a hmem)] at hcount
          exact .inr ⟨hmem,by omega⟩

theorem mem_take_sortByKey (hdistinct : (l.map key).Nodup) {n : ℕ} {a : α} :
    a ∈ (sortByKey key l).take n ↔ a ∈ l ∧ (l.countP fun b => key b < key a) < n := by
  have hperm := sortByKey_perm key l
  rw [mem_take_of_strict (sortByKey_strict hdistinct), hperm.mem_iff, hperm.countP_eq]

theorem map_sortByKey (key : β → κ) (f : α → β) (l : List α) :
    (sortByKey (fun a => key (f a)) l).map f = sortByKey key (l.map f) :=
  List.map_insertionSort _ _ f l fun _ _ _ _ => Iff.rfl

/-- One member more is one member more at some place, with the others as before. -/
theorem exists_orderedInsert {a c : α} {before after : List α} (hafter : ∀ b ∈ after, key c ≤ key b) :
    ∃ before' after',
      (before ++ c :: after).orderedInsert (fun a b => key a ≤ key b) a = before' ++ c :: after' ∧
      (before ++ after).orderedInsert (fun a b => key a ≤ key b) a = before' ++ after' := by
  induction before with
  | nil =>
    by_cases hc : key a ≤ key c
    · refine ⟨[a],after,List.orderedInsert_cons_of_le _ _ hc,?_⟩
      -- what follows `c` is not less than `a` either
      cases after with
      | nil => rfl
      | cons b after => exact List.orderedInsert_cons_of_le _ _ (hc.trans (hafter b (by simp)))
    · exact ⟨[],after.orderedInsert _ a,List.orderedInsert_of_not_le _ _ hc,rfl⟩
  | cons b before ih =>
    by_cases hb : key a ≤ key b
    · exact ⟨a :: b :: before,after,List.orderedInsert_cons_of_le _ _ hb,
        List.orderedInsert_cons_of_le _ _ hb⟩
    · obtain ⟨before',after',hwith,hwithout⟩ := ih
      refine ⟨b :: before',after',?_,?_⟩
      · calc
          _ = b :: (before ++ c :: after).orderedInsert (fun a b => key a ≤ key b) a :=
            List.orderedInsert_of_not_le (fun a b => key a ≤ key b) _ hb
          _ = b :: before' ++ c :: after' := by rw [hwith, List.cons_append]
      · calc
          _ = b :: (before ++ after).orderedInsert (fun a b => key a ≤ key b) a :=
            List.orderedInsert_of_not_le (fun a b => key a ≤ key b) _ hb
          _ = b :: before' ++ after' := by rw [hwithout, List.cons_append]

theorem exists_sortByKey (key : α → κ) (before : List α) (c : α) (after : List α) :
    ∃ before' after', sortByKey key (before ++ c :: after) = before' ++ c :: after' ∧
      sortByKey key (before ++ after) = before' ++ after' := by
  induction before with
  | nil =>
    exact ⟨_,_,List.orderedInsert_eq_take_drop _ _ _,(List.takeWhile_append_dropWhile).symm⟩
  | cons b before ih =>
    obtain ⟨before',after',hwith,hwithout⟩ := ih
    have hsorted := sortByKey_pairwise key (before ++ c :: after)
    rw [hwith, List.pairwise_append, List.pairwise_cons] at hsorted
    obtain ⟨first,last,hwith',hwithout'⟩ := exists_orderedInsert (a := b) hsorted.2.1.1
    refine ⟨first,last,?_,?_⟩
    · rw [← hwith', ← hwith]
      rfl
    · rw [← hwithout', ← hwithout]
      rfl

end PhenixConductor.Collections
