import PhenixConductor.Collections.BTreeMap
import PhenixConductor.Collections.Fallible

/-! # The entries of a map as a multiset

An insertion under a new key adds one entry, a removal takes one away, and the others stay.
-/
namespace PhenixConductor.Collections.BTreeMap
variable {K V : Type} [LinearOrder K]

section
variable (m : BTreeMap K V)
include m

theorem values_eq_map : m.values = m.toList.map (·.2) := by
  rw [toList, List.map_map]
  rfl

theorem nodup_toList : m.toList.Nodup := by
  apply List.Nodup.of_map Prod.fst
  rw [map_fst_toList]
  exact m.nodup_keys

theorem toList_insert_perm {k : K} (v : V) (h : m.get? k = none) :
    (m.insert k v).toList.Perm ((k,v) :: m.toList) := by
  have hnew : (k,v) ∉ m.toList := by
    rw [mem_toList, h]
    nofun
  refine (List.perm_ext_iff_of_nodup (nodup_toList _)
    (List.nodup_cons.mpr ⟨hnew,m.nodup_toList⟩)).mpr fun ⟨j,w⟩ => ?_
  rw [mem_toList, get?_insert, List.mem_cons, mem_toList]
  by_cases hj : j = k
  · subst hj
    simp [h, eq_comm]
  · simp [hj]

theorem toList_erase_perm {k : K} {v : V} (h : m.get? k = some v) :
    m.toList.Perm ((k,v) :: (m.erase k).toList) := by
  have hgone : (k,v) ∉ (m.erase k).toList := by
    rw [mem_toList, get?_erase, if_pos rfl]
    nofun
  refine (List.perm_ext_iff_of_nodup m.nodup_toList
    (List.nodup_cons.mpr ⟨hgone,nodup_toList _⟩)).mpr fun ⟨j,w⟩ => ?_
  rw [mem_toList, List.mem_cons, mem_toList, get?_erase]
  by_cases hj : j = k
  · subst hj
    simp [h, eq_comm]
  · simp [hj]

theorem values_insert_perm {k : K} (v : V) (h : m.get? k = none) :
    (m.insert k v).values.Perm (v :: m.values) := by
  rw [values_eq_map, values_eq_map]
  exact (m.toList_insert_perm v h).map (·.2)

theorem values_erase_perm {k : K} {v : V} (h : m.get? k = some v) :
    m.values.Perm (v :: (m.erase k).values) := by
  rw [values_eq_map, values_eq_map]
  exact (m.toList_erase_perm h).map (·.2)

end

end PhenixConductor.Collections.BTreeMap

/-! ## Converting the entries -/

namespace PhenixConductor.Collections.BTreeMap
variable {K V W ε : Type} [LinearOrder K]

/-- The entries of a map, listed in any order and converted one by one, make the map of the
converted values. -/
theorem mapM_ofList_eq_ok {entries : List (K × V)} {get : K → Option V}
    (hget : ∀ k v, (k,v) ∈ entries ↔ get k = some v) {f : K → V → Except ε W} {r : BTreeMap K W} :
    (entries.mapM fun e => (f e.1 e.2).map fun w => (e.1,w)).map ofList = .ok r ↔
      ∀ k, Option.Rel (fun v w => f k v = .ok w) (get k) (r.get? k) := by
  have hconverted : ∀ {r : BTreeMap K W},
      (entries.mapM fun e => (f e.1 e.2).map fun w => (e.1,w)).map ofList = .ok r →
        ∀ k, Option.Rel (fun v w => f k v = .ok w) (get k) (r.get? k) := by
    intro r hr
    obtain ⟨values,hvalues,rfl⟩ := map_eq_ok.mp hr
    have hall := mapM_eq_ok.mp hvalues
    have hmem : ∀ k w, (k,w) ∈ values ↔ ∃ v, get k = some v ∧ f k v = .ok w := by
      intro k w
      constructor
      · intro h
        obtain ⟨⟨j,v⟩,hentry,hw⟩ := Forall₂.exists_left hall h
        obtain ⟨w',hw',hsame⟩ := map_eq_ok.mp hw
        cases hsame
        exact ⟨v,(hget _ v).mp hentry,hw'⟩
      · rintro ⟨v,hv,hw⟩
        obtain ⟨e,he,hentry⟩ := Forall₂.exists_right hall ((hget k v).mpr hv)
        obtain ⟨w',hw',rfl⟩ := map_eq_ok.mp hentry
        cases hw.symm.trans hw'
        exact he
    have hlookup : ∀ {k w}, (ofList values).get? k = some w ↔ (k,w) ∈ values := by
      refine get?_ofList fun k w w' h h' => ?_
      obtain ⟨v,hv,hw⟩ := (hmem k w).mp h
      obtain ⟨v',hv',hw'⟩ := (hmem k w').mp h'
      cases hv.symm.trans hv'
      exact Except.ok.inj (hw.symm.trans hw')
    intro k
    cases hk : get k with
    | none =>
      cases hr : (ofList values).get? k with
      | none => exact .none
      | some w =>
        obtain ⟨v,hv,-⟩ := (hmem k w).mp (hlookup.mp hr)
        cases hk.symm.trans hv
    | some v =>
      obtain ⟨e,he,hentry⟩ := Forall₂.exists_right hall ((hget k v).mpr hk)
      obtain ⟨w,hw,rfl⟩ := map_eq_ok.mp hentry
      rw [hlookup.mpr he]
      exact .some hw
  refine ⟨hconverted,fun hrel => ?_⟩
  obtain ⟨values,hvalues⟩ : ∃ values,
      entries.mapM (fun e => (f e.1 e.2).map fun w => (e.1,w)) = .ok values := by
    refine mapM_ok_of_forall fun e he => ?_
    have hk := hrel e.1
    rw [(hget e.1 e.2).mp he] at hk
    generalize r.get? e.1 = found at hk
    cases hk with
    | some hw => exact ⟨_,map_eq_ok.mpr ⟨_,hw,rfl⟩⟩
  rw [hvalues]
  refine congrArg Except.ok ?_
  ext1 k
  have hk := hconverted (congrArg (Except.map ofList) hvalues) k
  have hk' := hrel k
  generalize get k = found at hk hk'
  generalize (ofList values).get? k = w at hk
  generalize r.get? k = w' at hk'
  cases hk with
  | none =>
    cases hk'
    rfl
  | some hw =>
    cases hk' with
    | some hw' => exact congrArg some (Except.ok.inj (hw.symm.trans hw'))

end PhenixConductor.Collections.BTreeMap

/-! ## Registration under unique keys

Items enter a map one at a time, and the loop stops at the first item that is
refused or whose key is taken. The order of the items decides which of the errors
is reported; it decides neither whether there is one nor the map.
-/
namespace PhenixConductor.Collections
attribute [local instance] lawfulBEq_of_linearOrder
variable {ε V K : Type} [LinearOrder K] {key : V → K} {check : V → Except ε Unit} {taken : V → ε}

def registerInto (key : V → K) (check : V → Except ε Unit) (taken : V → ε) (m : BTreeMap K V) :
    List V → Except ε (BTreeMap K V)
  | [] => .ok m
  | v :: vs => do
    check v
    if key v ∈ m.keys then .error (taken v)
    else registerInto key check taken (m.insert (key v) v) vs

def register (key : V → K) (check : V → Except ε Unit) (taken : V → ε) (items : List V) :
    Except ε (BTreeMap K V) :=
  registerInto key check taken .empty items

theorem registerInto_eq_ok {items : List V} {m n : BTreeMap K V} :
    registerInto key check taken m items = .ok n ↔
      (∀ v ∈ items, check v = .ok ()) ∧ (items.map key).Nodup ∧ (∀ v ∈ items, key v ∉ m.keys) ∧
        ∀ k v, n.get? k = some v ↔ v ∈ items ∧ key v = k ∨ m.get? k = some v := by
  induction items generalizing m with
  | nil =>
    simp only [registerInto, Except.ok.injEq, List.not_mem_nil, false_and, false_or, List.map_nil,
      List.nodup_nil, true_and, IsEmpty.forall_iff, implies_true]
    constructor
    · rintro rfl
      simp
    · intro h
      ext1 k
      apply Option.ext
      intro v
      exact (h k v).symm
  | cons v vs ih =>
    rw [registerInto, seq_eq_ok]
    by_cases hk : key v ∈ m.keys
    · simp [hk]
    · rw [if_neg hk, ih]
      have hnone : m.get? (key v) = none := (m.get?_eq_none).mpr hk
      -- the first item is seen by the later ones through the map, not through the list
      have hfresh : ((vs.map key).Nodup ∧ ∀ w ∈ vs, key w ∉ (m.insert (key v) v).keys) ↔
          (key v :: vs.map key).Nodup ∧ ∀ w ∈ vs, key w ∉ m.keys := by
        simp only [List.nodup_cons, List.mem_map, BTreeMap.mem_keys_insert, not_or, not_exists,
          not_and]
        grind
      have hget : ∀ k w, (w ∈ vs ∧ key w = k ∨ (m.insert (key v) v).get? k = some w) ↔
          w ∈ v :: vs ∧ key w = k ∨ m.get? k = some w := by
        intro k w
        rw [BTreeMap.get?_insert]
        grind
      simp only [hget]
      rw [List.forall_mem_cons, List.forall_mem_cons]
      tauto

/-- Registration succeeds when no item is refused and no key is used twice; the
map then has every item under its key and nothing else. -/
theorem register_eq_ok {items : List V} {m : BTreeMap K V} :
    register key check taken items = .ok m ↔
      (∀ v ∈ items, check v = .ok ()) ∧ (items.map key).Nodup ∧
        ∀ k v, m.get? k = some v ↔ v ∈ items ∧ key v = k := by
  rw [register, registerInto_eq_ok]
  simp [BTreeMap.empty, BTreeMap.get?]

theorem registerInto_eq_error {items : List V} {m : BTreeMap K V} {e : ε}
    (h : registerInto key check taken m items = .error e) :
    ∃ v ∈ items, check v = .error e ∨ e = taken v := by
  induction items generalizing m with
  | nil => cases h
  | cons v vs ih =>
    rcases bind_eq_error.mp h with hcheck | ⟨_,-,hrest⟩
    · exact ⟨v,by simp,.inl hcheck⟩
    · split_ifs at hrest
      · cases hrest
        exact ⟨v,by simp,.inr rfl⟩
      · obtain ⟨w,hw,hor⟩ := ih hrest
        exact ⟨w,by simp [hw],hor⟩

theorem register_eq_error {items : List V} {e : ε} (h : register key check taken items = .error e) :
    ∃ v ∈ items, check v = .error e ∨ e = taken v :=
  registerInto_eq_error h

theorem register_perm {items items' : List V} (h : items.Perm items') {m : BTreeMap K V} :
    register key check taken items = .ok m ↔ register key check taken items' = .ok m := by
  rw [register_eq_ok, register_eq_ok, (h.map key).nodup_iff]
  simp only [h.mem_iff]

end PhenixConductor.Collections

/-! ## Taking entries out of a map

Keys are taken out of a map one after another. What comes out was in the map, and
an entry comes out once, also when its key is named again.
-/
namespace PhenixConductor.Collections
variable {K V I : Type} [LinearOrder K]

/-- What comes out when the keys of a list are taken out one after another. -/
def drain (m : BTreeMap K V) : List K → List V
  | [] => []
  | k :: ks => (m.get? k).toList ++ drain (m.erase k) ks

theorem mem_drain {m : BTreeMap K V} {ks : List K} {v : V} (h : v ∈ drain m ks) :
    ∃ k ∈ ks, m.get? k = some v := by
  induction ks generalizing m with
  | nil => cases h
  | cons k ks ih =>
    rcases List.mem_append.mp h with h | h
    · exact ⟨k,List.mem_cons_self,Option.mem_toList.mp h⟩
    · obtain ⟨j,hj,hv⟩ := ih h
      rw [BTreeMap.get?_erase] at hv
      split at hv
      · cases hv
      · exact ⟨j,List.mem_cons_of_mem _ hj,hv⟩

/-- The entries of a map are told apart by a name. -/
def Named (f : V → I) (m : BTreeMap K V) : Prop :=
  ∀ j k v w, m.get? j = some v → m.get? k = some w → f v = f w → j = k

variable {f : V → I} {m : BTreeMap K V}

theorem named_empty : Named f (.empty : BTreeMap K V) := by
  intro j k v w hj
  cases hj

theorem Named.erase (h : Named f m) (k : K) : Named f (m.erase k) := by
  have keep : ∀ j v, (m.erase k).get? j = some v → m.get? j = some v := by
    intro j v hj
    rw [BTreeMap.get?_erase] at hj
    split at hj
    · cases hj
    · exact hj
  exact fun j k v w hj hk => h j k v w (keep j v hj) (keep k w hk)

theorem Named.insert (h : Named f m) {k : K} {v : V} (hnew : ∀ j w, m.get? j = some w → f w ≠ f v) :
    Named f (m.insert k v) := by
  intro i j w w' hi hj hsame
  rw [BTreeMap.get?_insert] at hi hj
  split at hi <;> split at hj
  · next hik hjk => exact hik.trans hjk.symm
  · cases hi
    exact absurd hsame.symm (hnew j w' hj)
  · cases hj
    exact absurd hsame (hnew i w hi)
  · exact h i j w w' hi hj hsame

/-- What was taken out is no longer in the map. -/
theorem Named.not_mem_drain (h : Named f m) {ks : List K} {k : K} {v w : V} (hv : v ∈ drain m ks)
    (hw : (ks.foldl BTreeMap.erase m).get? k = some w) : f v ≠ f w := by
  intro hsame
  obtain ⟨j,hj,hv⟩ := mem_drain hv
  rw [BTreeMap.get?_foldl_erase] at hw
  split at hw
  · cases hw
  · next hk => exact hk (h j k v w hv hw hsame ▸ hj)

/-- An entry comes out once. -/
theorem Named.nodup_drain (h : Named f m) (ks : List K) : ((drain m ks).map f).Nodup := by
  induction ks generalizing m with
  | nil => exact List.nodup_nil
  | cons k ks ih =>
    cases hk : m.get? k with
    | none => simpa [drain, hk] using ih (h.erase k)
    | some v =>
      simp only [drain, hk, Option.toList_some, List.singleton_append, List.map_cons,
        List.nodup_cons]
      refine ⟨fun hmem => ?_,ih (h.erase k)⟩
      obtain ⟨w,hw,hsame⟩ := List.mem_map.mp hmem
      obtain ⟨j,-,hw⟩ := mem_drain hw
      rw [BTreeMap.get?_erase] at hw
      split at hw
      · cases hw
      · next hj => exact hj (h j k w v hw hk hsame)

end PhenixConductor.Collections
