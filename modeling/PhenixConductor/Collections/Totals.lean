import PhenixConductor.Collections.BTreeMap
import Mathlib.Algebra.BigOperators.Group.Finset.Basic
import Mathlib.Algebra.Ring.Nat

/-! # Totals

Arithmetic of fixed width that stops at its bounds, and sums over the values of a map.
-/
namespace PhenixConductor.Collections
open List

/-- The widths of the machine integers, as atoms, so that a numeral reads the same everywhere. -/
instance (priority := high) neZeroU64 : NeZero (2 ^ 64) := ⟨by decide⟩

instance (priority := high) neZeroU32 : NeZero (2 ^ 32) := ⟨by decide⟩

section Saturating
variable {n : ℕ}

def saturatingSub (a b : Fin n) : Fin n := ⟨a - b,(Nat.sub_le _ _).trans_lt a.isLt⟩

def saturatingAdd (a b : Fin n) : Fin n :=
  ⟨min (a + b : ℕ) (n - 1),(min_le_right _ _).trans_lt (Nat.sub_one_lt_of_lt a.isLt)⟩

@[simp] theorem val_saturatingSub (a b : Fin n) : (saturatingSub a b : ℕ) = a - b := rfl

@[simp] theorem val_saturatingAdd (a b : Fin n) :
    (saturatingAdd a b : ℕ) = min (a + b : ℕ) (n - 1) := rfl

end Saturating

section Maxima
variable {α : Type}

theorem max?_concat [Max α] (l : List α) (a : α) :
    (l ++ [a]).max? = some (l.max?.elim a (max · a)) := by
  cases l with
  | nil => rfl
  | cons b l => simp [max?_cons', foldl_append]

/-- The maximum depends on the members only. -/
theorem max?_congr [LinearOrder α] {l m : List α} (h : ∀ a, a ∈ l ↔ a ∈ m) : l.max? = m.max? := by
  ext a
  rw [max?_eq_some_iff, max?_eq_some_iff]
  simp only [h]

end Maxima

section Folds
variable {α β : Type*} {step : β → α → β} {weight : α → ℕ}

/-- Taking amounts away one after another takes their sum away. -/
theorem foldl_sub {left : β → Option ℕ}
    (h : ∀ b a, left (step b a) = (left b).map (· - weight a)) (l : List α) (b : β) :
    left (l.foldl step b) = (left b).map (· - (l.map weight).sum) := by
  induction l generalizing b with
  | nil => simp
  | cons a l ih =>
    rw [foldl_cons, ih, h, Option.map_map, map_cons, sum_cons]
    congr 1
    ext n
    simp only [Function.comp_apply]
    omega

/-- Adding amounts up to a bound gives the sum, or the bound. -/
theorem foldl_min {total : β → ℕ} {bound : ℕ} {I : β → Prop} (hI : ∀ b, I b → total b ≤ bound)
    (h : ∀ b a, I b → I (step b a) ∧ total (step b a) = min (total b + weight a) bound)
    (l : List α) {b : β} (hb : I b) :
    total (l.foldl step b) = min (total b + (l.map weight).sum) bound := by
  induction l generalizing b with
  | nil => simp [hI b hb]
  | cons a l ih =>
    obtain ⟨hnext,htotal⟩ := h b a hb
    rw [foldl_cons, ih hnext, map_cons, sum_cons]
    omega

/-- A sum that stops at the largest number of the width. -/
def saturatingSum {n : ℕ} [NeZero n] (l : List (Fin n)) : Fin n := l.foldl saturatingAdd 0

theorem saturatingSum_concat {n : ℕ} [NeZero n] (l : List (Fin n)) (a : Fin n) :
    saturatingSum (l ++ [a]) = saturatingAdd (saturatingSum l) a :=
  foldl_concat ..

theorem val_saturatingSum {n : ℕ} [NeZero n] (l : List (Fin n)) :
    (saturatingSum l : ℕ) = min (l.map Fin.val).sum (n - 1) := by
  have hbound : ∀ a : Fin n, True → (a : ℕ) ≤ n - 1 := fun a _ => Nat.le_sub_one_of_lt a.isLt
  have hfold : (l.foldl saturatingAdd 0).val = min ((0 : Fin n).val + (l.map Fin.val).sum) (n - 1) :=
    foldl_min hbound (fun a b _ => ⟨trivial,rfl⟩) l trivial
  rw [saturatingSum, hfold, Fin.val_zero, Nat.zero_add]

/-- The order of the amounts does not matter. -/
theorem saturatingSum_perm {n : ℕ} [NeZero n] {l m : List (Fin n)} (h : l.Perm m) :
    saturatingSum l = saturatingSum m := by
  rw [Fin.ext_iff, val_saturatingSum, val_saturatingSum, (h.map _).sum_eq]

end Folds

section Sums
variable {K V : Type} [LinearOrder K] {M : Type*} [AddCommMonoid M]

theorem sum_map_filter (l : List V) (p : V → Bool) (f : V → M) :
    ((l.filter p).map f).sum = (l.map fun v => if p v then f v else 0).sum := by
  induction l with
  | nil => rfl
  | cons v l ih =>
    by_cases hv : p v
    · simp [hv, ih]
    · simp [hv, ih]

/-- A sum over some values of a map is a sum over their keys. -/
theorem sum_values (m : BTreeMap K V) (p : V → Bool) (f : V → M) :
    ((m.values.filter p).map f).sum =
      ∑ k ∈ m.keys.toFinset with (m.get? k).any p, ((m.get? k).map f).getD 0 := by
  rw [sum_map_filter, Finset.sum_filter, sum_toFinset _ m.nodup_keys, BTreeMap.values,
    map_map]
  conv_rhs => rw [← attach_map_subtype_val m.keys, map_map]
  congr 1
  apply map_congr_left
  intro k _
  simp only [Function.comp_apply, m.get?_of_mem k.2, Option.any_some, Option.map_some,
    Option.getD_some]

end Sums

section Counts
variable {K V : Type} [LinearOrder K] {p : V → Bool}

theorem length_filter_values (m : BTreeMap K V) (p : V → Bool) :
    (m.values.filter p).length = (m.keys.toFinset.filter fun k => (m.get? k).any p).card := by
  have hlength : ((m.values.filter p).map fun _ => 1).sum = (m.values.filter p).length := by
    rw [map_const', sum_replicate_nat, mul_one]
  rw [← hlength, sum_values, Finset.card_eq_sum_ones]
  apply Finset.sum_congr rfl
  intro k hk
  cases hv : m.get? k with
  | none => simp [hv] at hk
  | some v => rfl

theorem length_filter_insert_of_notMem (m : BTreeMap K V) {k : K} (v : V) (h : k ∉ m.keys) :
    ((m.insert k v).values.filter p).length = (m.values.filter p).length + if p v then 1 else 0 := by
  have hkeys : (m.insert k v).keys.toFinset = insert k m.keys.toFinset := by
    ext j
    simp
  have hfresh : k ∉ m.keys.toFinset.filter fun j => (m.get? j).any p := by simp [h]
  have hold : (m.keys.toFinset.filter fun j => ((m.insert k v).get? j).any p) =
      m.keys.toFinset.filter fun j => (m.get? j).any p := by
    apply Finset.filter_congr
    intro j hj
    rw [m.get?_insert_of_ne v]
    rintro rfl
    exact h (mem_toFinset.mp hj)
  rw [length_filter_values, length_filter_values, hkeys, Finset.filter_insert, hold,
    m.get?_insert_self, Option.any_some]
  split_ifs
  · rw [Finset.card_insert_of_notMem hfresh]
  · rfl

/-- A value that takes the place of another one counts in its place. -/
theorem length_filter_insert_add (m : BTreeMap K V) {k : K} {w : V} (h : m.get? k = some w)
    (v : V) : ((m.insert k v).values.filter p).length + (if p w then 1 else 0) =
      (m.values.filter p).length + if p v then 1 else 0 := by
  have hfresh : k ∉ (m.erase k).keys := by
    rw [BTreeMap.mem_keys_iff]
    simp
  have hinsert : ∀ u, (m.erase k).insert k u = m.insert k u := by
    intro u
    ext j : 1
    rw [BTreeMap.get?_insert, BTreeMap.get?_insert, BTreeMap.get?_erase]
    split_ifs <;> rfl
  have hnew := length_filter_insert_of_notMem (p := p) (m.erase k) v hfresh
  have hold := length_filter_insert_of_notMem (p := p) (m.erase k) w hfresh
  rw [hinsert] at hnew hold
  rw [m.insert_of_get? h] at hold
  omega

theorem length_filter_insert_of_get (m : BTreeMap K V) {k : K} {v w : V} (h : m.get? k = some w)
    (hp : p v = p w) : ((m.insert k v).values.filter p).length = (m.values.filter p).length := by
  have hadd := length_filter_insert_add (p := p) m h v
  rw [hp] at hadd
  exact Nat.add_right_cancel hadd

end Counts

end PhenixConductor.Collections
