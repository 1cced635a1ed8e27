import Mathlib.Data.List.Sort

/-! # Ordered finite maps with a canonical representation

The keys are a strictly sorted list and the values a function on the members of that list, so
two maps with the same lookups are equal and no unsorted or duplicated key can be written down.
-/
namespace PhenixConductor.Collections
open List

theorem lawfulBEq_of_linearOrder {K : Type} [LinearOrder K] : LawfulBEq K := inferInstance

/-- An ordered map: iteration visits `keys` from left to right. -/
structure BTreeMap (K V : Type) [LinearOrder K] where
  keys : List K
  sorted : keys.Pairwise (· < ·)
  val : (k : K) → k ∈ keys → V

namespace BTreeMap
variable {K V W : Type} [LinearOrder K]

def get? (m : BTreeMap K V) (k : K) : Option V :=
  if h : k ∈ m.keys then some (m.val k h) else none

variable {k : K}

theorem get?_of_mem (m : BTreeMap K V) (h : k ∈ m.keys) : m.get? k = some (m.val k h) :=
  dif_pos h

theorem get?_eq_none (m : BTreeMap K V) : m.get? k = none ↔ k ∉ m.keys := by
  simp [get?]

theorem get?_eq_some (m : BTreeMap K V) {v : V} :
    m.get? k = some v ↔ ∃ h : k ∈ m.keys, m.val k h = v := by
  by_cases h : k ∈ m.keys <;> simp [get?, h]

theorem mem_keys_iff (m : BTreeMap K V) : k ∈ m.keys ↔ (m.get? k).isSome := by
  by_cases h : k ∈ m.keys <;> simp [get?, h]

theorem nodup_keys (m : BTreeMap K V) : m.keys.Nodup :=
  m.sorted.imp ne_of_lt

variable {m : BTreeMap K V}

/-- Lookups determine the map. -/
@[ext] theorem ext {n : BTreeMap K V} (h : ∀ k, m.get? k = n.get? k) : m = n := by
  have hk : m.keys = n.keys := List.Pairwise.eq_of_mem_iff m.sorted n.sorted fun k => by
    rw [mem_keys_iff,mem_keys_iff,h]
  obtain ⟨keys,sorted,f⟩ := m
  cases hk
  congr 1
  funext k hm
  simpa [get?, hm] using h k

theorem eq_iff {n : BTreeMap K V} :
    m = n ↔ m.keys = n.keys ∧ ∀ k (h : k ∈ m.keys), n.get? k = some (m.val k h) := by
  constructor
  · rintro rfl
    exact ⟨rfl,fun k h => get?_of_mem _ h⟩
  · rintro ⟨hk,hv⟩
    ext1 k
    by_cases h : k ∈ m.keys
    · rw [hv k h, get?_of_mem]
    · rw [(get?_eq_none m).mpr h, (get?_eq_none n).mpr (hk ▸ h)]

/-- Maps with the same keys and related values, seen through lookups. -/
theorem forall_rel_iff {n : BTreeMap K W} {R : V → W → Prop} :
    (m.keys = n.keys ∧ ∀ k (h : k ∈ m.keys), ∃ w, n.get? k = some w ∧ R (m.val k h) w) ↔
      ∀ k, Option.Rel R (m.get? k) (n.get? k) := by
  constructor
  · rintro ⟨hk,hv⟩ k
    by_cases h : k ∈ m.keys
    · obtain ⟨w,hw,hr⟩ := hv k h
      rw [get?_of_mem m h, hw]
      exact .some hr
    · rw [(get?_eq_none m).mpr h, (get?_eq_none n).mpr (hk ▸ h)]
      exact .none
  · intro h
    refine ⟨List.Pairwise.eq_of_mem_iff m.sorted n.sorted fun k => ?_,fun k hk => ?_⟩
    · rw [mem_keys_iff, mem_keys_iff]
      have hr := h k
      generalize m.get? k = a at hr ⊢
      generalize n.get? k = b at hr ⊢
      cases hr <;> simp
    · have hr := h k
      rw [get?_of_mem m hk] at hr
      generalize n.get? k = b at hr ⊢
      cases hr with
      | some hr => exact ⟨_,rfl,hr⟩

def empty : BTreeMap K V where
  keys := []
  sorted := .nil
  val _ h := absurd h not_mem_nil

@[simp] theorem get?_empty (k : K) : (empty : BTreeMap K V).get? k = none := by simp [get?, empty]

/-- The key list after an insertion: a present key keeps its place. -/
def insertKey (keys : List K) (k : K) : List K :=
  if k ∈ keys then keys else keys.orderedInsert (· ≤ ·) k

theorem mem_insertKey {keys : List K} {j : K} : j ∈ insertKey keys k ↔ j = k ∨ j ∈ keys := by
  unfold insertKey
  split
  · constructor
    · exact Or.inr
    · rintro (rfl | h) <;> assumption
  · exact mem_orderedInsert _

theorem sorted_insertKey {keys : List K} (h : keys.Pairwise (· < ·)) (k : K) :
    (insertKey keys k).Pairwise (· < ·) := by
  unfold insertKey
  split
  · exact h
  · rename_i hk
    have hle : (keys.orderedInsert (· ≤ ·) k).Pairwise (· ≤ ·) := (h.imp le_of_lt).orderedInsert _ _
    have hnd : (keys.orderedInsert (· ≤ ·) k).Nodup :=
      (perm_orderedInsert _ k keys).nodup_iff.mpr (nodup_cons.mpr ⟨hk,h.imp ne_of_lt⟩)
    exact hle.imp₂ (fun _ _ => lt_of_le_of_ne) hnd

def insert (m : BTreeMap K V) (k : K) (v : V) : BTreeMap K V where
  keys := insertKey m.keys k
  sorted := sorted_insertKey m.sorted k
  val j hj := if h : j = k then v else m.val j ((mem_insertKey.mp hj).resolve_left h)

theorem get?_insert (m : BTreeMap K V) (k j : K) (v : V) :
    (m.insert k v).get? j = if j = k then some v else m.get? j := by
  by_cases h : j = k
  · subst h; simp [get?, insert, mem_insertKey]
  · simp [get?, insert, mem_insertKey, h]

@[simp] theorem get?_insert_self (m : BTreeMap K V) (k : K) (v : V) :
    (m.insert k v).get? k = some v := by simp [get?_insert]

theorem get?_insert_of_ne (m : BTreeMap K V) {j : K} (v : V) (h : j ≠ k) :
    (m.insert k v).get? j = m.get? j := by simp [get?_insert, h]

theorem insert_of_get? (m : BTreeMap K V) {v : V} (h : m.get? k = some v) : m.insert k v = m := by
  ext j
  rw [get?_insert]
  split_ifs with hj
  · rw [hj, h]
  · rfl

def erase (m : BTreeMap K V) (k : K) : BTreeMap K V where
  keys := m.keys.filter (· ≠ k)
  sorted := m.sorted.filter _
  val j hj := m.val j (mem_of_mem_filter hj)

theorem get?_erase (m : BTreeMap K V) (k j : K) :
    (m.erase k).get? j = if j = k then none else m.get? j := by
  by_cases h : j = k <;> by_cases hm : j ∈ m.keys <;> simp_all [get?, erase]

@[simp] theorem get?_erase_self (m : BTreeMap K V) (k : K) : (m.erase k).get? k = none := by
  simp [get?_erase]

theorem get?_erase_of_ne (m : BTreeMap K V) {j : K} (h : j ≠ k) :
    (m.erase k).get? j = m.get? j := by simp [get?_erase, h]

theorem erase_insert_of_notMem (m : BTreeMap K V) (v : V) (h : k ∉ m.keys) :
    (m.insert k v).erase k = m := by
  ext1 j
  rw [get?_erase, get?_insert]
  split_ifs with hj
  · rw [hj, (get?_eq_none m).mpr h]
  · rfl

theorem get?_foldl_erase (m : BTreeMap K V) (ks : List K) (j : K) :
    (ks.foldl (fun acc k => acc.erase k) m).get? j = if j ∈ ks then none else m.get? j := by
  induction ks generalizing m with
  | nil => simp
  | cons k ks ih =>
    rw [foldl_cons, ih, get?_erase]
    by_cases hk : j = k <;> by_cases hj : j ∈ ks <;> simp [hk, hj]

theorem mem_keys_foldl_erase (m : BTreeMap K V) {ks : List K} {j : K} :
    j ∈ (ks.foldl (fun acc k => acc.erase k) m).keys ↔ j ∈ m.keys ∧ j ∉ ks := by
  rw [mem_keys_iff, get?_foldl_erase, mem_keys_iff]
  split_ifs with h <;> simp [h]

/-- Insertion of a present value, removal for an absent one. -/
def alter (m : BTreeMap K V) (k : K) : Option V → BTreeMap K V
  | some v => m.insert k v
  | none => m.erase k

theorem get?_alter (m : BTreeMap K V) (k j : K) (x : Option V) :
    (m.alter k x).get? j = if j = k then x else m.get? j := by
  cases x with
  | none => exact get?_erase m k j
  | some v => exact get?_insert m k j v

/-- Writing at a present key; an absent key stays absent. -/
def replace (m : BTreeMap K V) (k : K) (v : V) : BTreeMap K V :=
  if (m.get? k).isSome then m.insert k v else m

theorem get?_replace (m : BTreeMap K V) (k j : K) (v : V) :
    (m.replace k v).get? j = if j = k then (m.get? k).map fun _ => v else m.get? j := by
  cases h : m.get? k with
  | none => by_cases hj : j = k <;> simp [replace, h, hj]
  | some w => simp [replace, h, get?_insert]

theorem replace_of_isSome (m : BTreeMap K V) (v : V) (h : (m.get? k).isSome) :
    m.replace k v = m.insert k v := if_pos h

/-- Values in key order. -/
def values (m : BTreeMap K V) : List V := m.keys.attach.map fun k => m.val k.1 k.2

theorem mem_values (m : BTreeMap K V) {v : V} : v ∈ m.values ↔ ∃ k, m.get? k = some v := by
  simp only [values, mem_map, mem_attach, true_and, Subtype.exists, get?_eq_some]

/-- Values that name their key stand for the keys. -/
theorem map_values (m : BTreeMap K V) {f : V → K} (h : ∀ k v, m.get? k = some v → f v = k) :
    m.values.map f = m.keys := by
  rw [values, map_map]
  calc
    m.keys.attach.map (f ∘ fun k => m.val k.1 k.2) = m.keys.attach.map Subtype.val :=
      map_congr_left fun k _ => h k.1 _ (m.get?_of_mem k.2)
    _ = m.keys := attach_map_subtype_val _

theorem forall₂_values {n : BTreeMap K W} {R : V → W → Prop}
    (h : ∀ k, Option.Rel R (m.get? k) (n.get? k)) : List.Forall₂ R m.values n.values := by
  obtain ⟨hk,hv⟩ := forall_rel_iff.mpr h
  rcases n with ⟨keys,sorted,val⟩
  cases hk
  rw [values, values, forall₂_map_left_iff, forall₂_map_right_iff, forall₂_same]
  rintro ⟨k,hmem⟩ -
  obtain ⟨w,hw,hr⟩ := hv k hmem
  obtain ⟨_,rfl⟩ := (get?_eq_some _).mp hw
  exact hr

/-- Entries in key order. -/
def toList (m : BTreeMap K V) : List (K × V) := m.keys.attach.map fun k => (k.1,m.val k.1 k.2)

theorem mem_toList (m : BTreeMap K V) {v : V} : (k,v) ∈ m.toList ↔ m.get? k = some v := by
  simp [toList, get?_eq_some]

theorem map_fst_toList (m : BTreeMap K V) : m.toList.map (·.1) = m.keys := by
  rw [toList, map_map]
  exact attach_map_subtype_val m.keys

def mapVal (m : BTreeMap K V) (f : V → W) : BTreeMap K W where
  keys := m.keys
  sorted := m.sorted
  val k h := f (m.val k h)

@[simp] theorem get?_mapVal (m : BTreeMap K V) (f : V → W) (k : K) :
    (m.mapVal f).get? k = (m.get? k).map f := by
  by_cases h : k ∈ m.keys <;> simp [get?, mapVal, h]

/-- The entries of a strictly sorted key list for which `f` gives a value. -/
def collect (keys : List K) (sorted : keys.Pairwise (· < ·))
    (f : (k : K) → k ∈ keys → Option V) : BTreeMap K V where
  keys := keys.filter fun k => if h : k ∈ keys then (f k h).isSome else false
  sorted := sorted.filter _
  val k h := (f k (mem_of_mem_filter h)).get (by
    have hk := of_mem_filter h
    rwa [dif_pos (mem_of_mem_filter h)] at hk)

theorem get?_collect (keys : List K) (sorted : keys.Pairwise (· < ·))
    (f : (k : K) → k ∈ keys → Option V) (k : K) :
    (collect keys sorted f).get? k = if h : k ∈ keys then f k h else none := by
  by_cases h : k ∈ keys
  · cases hf : f k h <;> simp [get?, collect, h, hf]
  · simp [get?, collect, h]

theorem find?_toList (m : BTreeMap K V) (k : K) :
    m.toList.find? (·.1 = k) = (m.get? k).map fun v => (k,v) := by
  cases hf : m.toList.find? (·.1 = k) with
  | none =>
    cases hk : m.get? k with
    | none => rfl
    | some v =>
      have hne := find?_eq_none.mp hf (k,v) (m.mem_toList.mpr hk)
      simp at hne
  | some e =>
    obtain ⟨j,v⟩ := e
    have hj : j = k := by simpa using find?_some hf
    subst hj
    rw [m.mem_toList.mp (mem_of_find?_eq_some hf)]
    rfl

/-- Writing the entries of a list over `m`: the last one for a key stays, and
with one entry for each key that is the only one. -/
theorem get?_foldl_insert (l : List (K × V)) (m : BTreeMap K W) (g : K → V → W) (k : K)
    (hl : ∀ v w, (k,v) ∈ l → (k,w) ∈ l → v = w) :
    (l.foldl (fun acc e => acc.insert e.1 (g e.1 e.2)) m).get? k =
      ((l.find? (·.1 = k)).map fun e => g e.1 e.2).or (m.get? k) := by
  induction l generalizing m with
  | nil => simp
  | cons e l ih =>
    obtain ⟨j,v⟩ := e
    rw [foldl_cons, ih _ fun v w hv hw => hl v w (by simp [hv]) (by simp [hw])]
    by_cases hj : j = k
    · subst hj
      cases hf : l.find? (·.1 = j) with
      | none => simp
      | some e =>
        obtain ⟨j',w⟩ := e
        have he : j' = j := by simpa using find?_some hf
        have hm := mem_of_find?_eq_some hf
        subst he
        rw [hl v w (by simp) (by simp [hm])]
        simp
    · simp [hj, get?_insert_of_ne _ _ (Ne.symm hj)]

/-- Writing `g k v` for every entry of `n` over `m`. -/
theorem get?_foldl_insert_toList (n : BTreeMap K V) (m : BTreeMap K W) (g : K → V → W) (k : K) :
    (n.toList.foldl (fun acc e => acc.insert e.1 (g e.1 e.2)) m).get? k =
      ((n.get? k).map (g k)).or (m.get? k) := by
  rw [get?_foldl_insert, find?_toList]
  · cases n.get? k <;> rfl
  · intro v w hv hw
    rw [mem_toList] at hv hw
    exact Option.some.inj (hv.symm.trans hw)

/-- Copying what `source` has for the keys of some entries of `n` over `m`. -/
theorem get?_foldl_copy (n : BTreeMap K V) (source m : BTreeMap K W) (keep : K × V → Bool) (k : K) :
    (n.toList.foldl (fun acc e =>
        if keep e then
          match source.get? e.1 with
          | some w => acc.insert e.1 w
          | none => acc
        else acc) m).get? k =
      if (n.get? k).any fun v => keep (k,v) then (source.get? k).or (m.get? k) else m.get? k := by
  have hcopy : ∀ (l : List (K × V)) (m : BTreeMap K W), (l.foldl (fun acc e =>
      if keep e then
        match source.get? e.1 with
        | some w => acc.insert e.1 w
        | none => acc
      else acc) m).get? k =
        if l.any fun e => e.1 = k && keep e then (source.get? k).or (m.get? k) else m.get? k := by
    intro l
    induction l with
    | nil => simp
    | cons e l ih =>
      intro m
      rw [foldl_cons, ih, any_cons]
      cases hkeep : keep e with
      | false =>
        rw [Bool.and_false, Bool.false_or]
        rfl
      | true =>
        rw [Bool.and_true, if_pos rfl]
        by_cases hkey : e.1 = k
        · subst hkey
          cases hsource : source.get? e.1 <;> simp
        · rw [decide_eq_false hkey, Bool.false_or]
          cases source.get? e.1 with
          | none => rfl
          | some w => rw [get?_insert_of_ne _ _ (Ne.symm hkey)]
  rw [hcopy]
  have hany : (n.toList.any fun e => e.1 = k && keep e) = (n.get? k).any fun v => keep (k,v) := by
    rw [Bool.eq_iff_iff, any_eq_true, Option.any_eq_true]
    simp [mem_toList]
  rw [hany]

/-- Adding those entries of `n` that `keep` picks and that are not there yet. -/
theorem get?_foldl_keep (n m : BTreeMap K V) (keep : V → Bool) (k : K) :
    (n.toList.foldl (fun acc e =>
        if e.1 ∉ acc.keys ∧ keep e.2 then acc.insert e.1 e.2 else acc) m).get? k =
      (m.get? k).or ((n.get? k).filter keep) := by
  have hkeep : ∀ (l : List (K × V)) (m : BTreeMap K V), (l.foldl (fun acc e =>
      if e.1 ∉ acc.keys ∧ keep e.2 then acc.insert e.1 e.2 else acc) m).get? k =
        (m.get? k).or ((l.find? fun e => e.1 = k && keep e.2).map (·.2)) := by
    intro l
    induction l with
    | nil => simp
    | cons e l ih =>
      intro m
      rw [foldl_cons, ih, find?_cons]
      by_cases hkey : e.1 = k
      · subst hkey
        cases hget : m.get? e.1 with
        | none =>
          have hmem : e.1 ∉ m.keys := m.get?_eq_none.mp hget
          cases hpick : keep e.2 <;> simp [hmem, hget]
        | some v =>
          have hmem : e.1 ∈ m.keys := by simp [mem_keys_iff, hget]
          simp [hmem, hget]
      · rw [decide_eq_false hkey, Bool.false_and]
        split_ifs
        · rw [get?_insert_of_ne _ _ (Ne.symm hkey)]
        · rfl
  rw [hkeep]
  congr 1
  ext v
  rw [Option.map_eq_some_iff, Option.filter_eq_some_iff, ← mem_toList]
  constructor
  · rintro ⟨⟨j,w⟩,hfind,rfl⟩
    have hpick := find?_some hfind
    simp only [Bool.and_eq_true, decide_eq_true_eq] at hpick
    exact ⟨hpick.1 ▸ mem_of_find?_eq_some hfind,hpick.2⟩
  · rintro ⟨hmem,hpick⟩
    cases hfind : n.toList.find? fun e => e.1 = k && keep e.2 with
    | none => simpa [hpick] using find?_eq_none.mp hfind _ hmem
    | some e =>
      obtain ⟨j,w⟩ := e
      have hkey := find?_some hfind
      simp only [Bool.and_eq_true, decide_eq_true_eq] at hkey
      obtain rfl := hkey.1
      have hsame := (n.mem_toList.mp (mem_of_find?_eq_some hfind)).symm.trans
        (n.mem_toList.mp hmem)
      exact ⟨_,rfl,Option.some.inj hsame⟩

def ofList (l : List (K × V)) : BTreeMap K V := l.foldl (fun m e => m.insert e.1 e.2) empty

theorem get?_ofList {l : List (K × V)} (hl : ∀ k v w, (k,v) ∈ l → (k,w) ∈ l → v = w) {v : V} :
    (ofList l).get? k = some v ↔ (k,v) ∈ l := by
  have h := get?_foldl_insert l empty (fun _ v => v) k (hl k)
  have hlist : (ofList l).get? k = (l.find? (·.1 = k)).map (·.2) := by
    rw [ofList, h, get?_empty, Option.or_none]
  rw [hlist, Option.map_eq_some_iff]
  constructor
  · rintro ⟨⟨j,w⟩,hfind,rfl⟩
    have hj : j = k := by simpa using find?_some hfind
    exact hj ▸ mem_of_find?_eq_some hfind
  · intro hmem
    obtain ⟨⟨j,w⟩,hfind⟩ := Option.isSome_iff_exists.mp
      (find?_isSome.mpr ⟨(k,v),hmem,by simp⟩ : (l.find? (·.1 = k)).isSome)
    have hj : j = k := by simpa using find?_some hfind
    subst hj
    exact ⟨(j,w),hfind,hl j w v (mem_of_find?_eq_some hfind) hmem⟩

/-- A list without repeated keys is read back entry by entry. -/
theorem get?_ofList_of_nodup {l : List (K × V)} (hl : (l.map Prod.fst).Nodup) {v : V} :
    (ofList l).get? k = some v ↔ (k,v) ∈ l :=
  get?_ofList fun _ _ _ hv hw => congrArg Prod.snd (inj_on_of_nodup_map hl hv hw rfl)

/-- Lists that name the same keys in the same order make different maps if they differ. -/
theorem ofList_inj {l m : List (K × V)} (hl : (l.map Prod.fst).Nodup)
    (hkeys : l.map Prod.fst = m.map Prod.fst) (h : ofList l = ofList m) : l = m := by
  have hlen : l.length = m.length := by simpa using congrArg List.length hkeys
  refine ext_getElem hlen fun i hi hj => ?_
  have hfst : l[i].1 = m[i].1 := by
    simpa [hi, hj] using congrArg (fun keys => keys[i]?) hkeys
  have hright : (ofList m).get? l[i].1 = some m[i].2 := by
    rw [hfst]
    exact (get?_ofList_of_nodup (hkeys ▸ hl)).mpr (getElem_mem hj)
  have hleft : (ofList l).get? l[i].1 = some l[i].2 :=
    (get?_ofList_of_nodup hl).mpr (getElem_mem hi)
  exact Prod.ext hfst (Option.some.inj (hleft.symm.trans (h ▸ hright)))

@[simp] theorem mem_keys_insert (m : BTreeMap K V) {j : K} (v : V) :
    j ∈ (m.insert k v).keys ↔ j = k ∨ j ∈ m.keys := mem_insertKey

theorem mem_keys_ofList {l : List (K × V)} : k ∈ (ofList l).keys ↔ k ∈ l.map (·.1) := by
  have hfold : ∀ m : BTreeMap K V, k ∈ (l.foldl (fun m e => m.insert e.1 e.2) m).keys ↔
      k ∈ m.keys ∨ k ∈ l.map (·.1) := by
    induction l with
    | nil => simp
    | cons e l ih =>
      intro m
      rw [foldl_cons, ih, mem_keys_insert, map_cons, mem_cons]
      tauto
  rw [ofList, hfold]
  simp [empty]

/-- A map has at most as many keys as the list that it is made of has entries. -/
theorem length_keys_ofList_le (l : List (K × V)) : (ofList l).keys.length ≤ l.length := by
  have hsubset : (ofList l).keys ⊆ l.map (·.1) := fun k hk => mem_keys_ofList.mp hk
  simpa using (subperm_of_subset (nodup_keys _) hsubset).length_le

/-- The entries whose key satisfies `p`. -/
def filter (m : BTreeMap K V) (p : K → Bool) : BTreeMap K V where
  keys := m.keys.filter p
  sorted := m.sorted.filter _
  val k h := m.val k (mem_of_mem_filter h)

theorem toList_injective {n : BTreeMap K V} (h : m.toList = n.toList) : m = n := by
  ext k v
  have hm : (k,v) ∈ m.toList ↔ (k,v) ∈ n.toList := by rw [h]
  rwa [mem_toList, mem_toList] at hm

instance [DecidableEq V] : DecidableEq (BTreeMap K V) := fun m n =>
  decidable_of_iff (m.toList = n.toList) ⟨toList_injective,fun h => h ▸ rfl⟩

end BTreeMap

/-- A set is a map without values; `keys` are its members in order. -/
abbrev BTreeSet (K : Type) [LinearOrder K] := BTreeMap K Unit

/-- The set of the members of a list. -/
def BTreeSet.collect {K : Type} [LinearOrder K] (l : List K) : BTreeSet K :=
  l.foldl (fun s k => s.insert k ()) .empty

@[simp] theorem BTreeSet.mem_collect {K : Type} [LinearOrder K] {l : List K} {k : K} :
    k ∈ (BTreeSet.collect l).keys ↔ k ∈ l := by
  have hfold : ∀ s : BTreeSet K,
      k ∈ (l.foldl (fun s k => s.insert k ()) s).keys ↔ k ∈ s.keys ∨ k ∈ l := by
    induction l with
    | nil => simp
    | cons j l ih =>
      intro s
      rw [foldl_cons, ih, BTreeMap.mem_keys_insert, mem_cons]
      tauto
  rw [collect, hfold]
  simp [BTreeMap.empty]

end PhenixConductor.Collections
