import PhenixConductor.Contract.Schema

/-! # Structural values

`PhenixValue` carries no identity of its own.
-/
namespace PhenixConductor.Contract
open Collections

/-- An `f64` by its bits. -/
structure F64 where
  bits : UInt64
  deriving DecidableEq

namespace F64

def magnitude (a : F64) : UInt64 := a.bits &&& 0x7fffffffffffffff
def isNaN (a : F64) : Bool := a.magnitude > 0x7ff0000000000000
def isZero (a : F64) : Bool := a.magnitude == 0

/-- `PartialEq` of `f64`. -/
def partialEq (a b : F64) : Bool :=
  !a.isNaN && !b.isNaN && (a == b || a.isZero && b.isZero)

theorem partialEq_symm {a b : F64} (h : a.partialEq b = true) : b.partialEq a = true := by
  simp only [partialEq, Bool.and_eq_true, Bool.or_eq_true, beq_iff_eq] at h ⊢
  tauto

theorem partialEq_trans {a b c : F64} (h : a.partialEq b = true) (h' : b.partialEq c = true) :
    a.partialEq c = true := by
  simp only [partialEq, Bool.and_eq_true, Bool.or_eq_true, beq_iff_eq] at h h' ⊢
  refine ⟨⟨h.1.1,h'.1.2⟩,?_⟩
  rcases h.2 with rfl | hab
  · exact h'.2
  · rcases h'.2 with rfl | hbc
    · exact .inr hab
    · exact .inr ⟨hab.1,hbc.2⟩

/-- Bitwise equal or equal as numbers: `partialEq` made reflexive. -/
def same (a b : F64) : Bool := a == b || a.partialEq b

end F64

inductive CapabilityOwnerId where
  | plugin (id : PluginId)
  | client (id : ClientConnectionId)
  | runtime (id : RuntimeId)
  deriving DecidableEq

inductive CapabilityKind where
  | callable | object
  deriving DecidableEq

/-- The two reference structs that `capability_ref!` generates. -/
structure CapabilityRef (kind : CapabilityKind) where
  contract : ContractId
  owner : CapabilityOwnerId
  generation : CapabilityGenerationId
  id : ReferenceId
  deriving DecidableEq

abbrev CallableRef := CapabilityRef .callable
abbrev ObjectRef := CapabilityRef .object

inductive PhenixValue where
  | unit
  | bool (value : Bool)
  | i64 (value : Int64)
  | u64 (value : UInt64)
  | f64 (value : F64)
  | string (value : String)
  | bytes (value : List UInt8)
  | option (value : Option PhenixValue)
  | list (values : List PhenixValue)
  | map (values : BTreeMap String PhenixValue)
  | table (fields : BTreeMap Key PhenixValue)
  | variant (tag : Key) (value : PhenixValue)
  | callable (reference : CallableRef)
  | object (reference : ObjectRef)

namespace PhenixValue

def kind : PhenixValue → TypeKind
  | .unit => .unit
  | .bool _ => .bool
  | .i64 _ => .i64
  | .u64 _ => .u64
  | .f64 _ => .f64
  | .string _ => .string
  | .bytes _ => .bytes
  | .option _ => .option
  | .list _ => .list
  | .map _ => .map
  | .table _ => .table
  | .variant _ _ => .variant
  | .callable _ => .callable
  | .object _ => .object

/-- Induction with one hypothesis per member of a container. -/
@[elab_as_elim]
theorem induct {motive : PhenixValue → Prop} (unit : motive .unit)
    (bool : ∀ v, motive (.bool v)) (i64 : ∀ v, motive (.i64 v)) (u64 : ∀ v, motive (.u64 v))
    (f64 : ∀ v, motive (.f64 v)) (string : ∀ v, motive (.string v))
    (bytes : ∀ v, motive (.bytes v)) (none : motive (.option none))
    (some : ∀ v, motive v → motive (.option (some v)))
    (list : ∀ vs, (∀ v ∈ vs, motive v) → motive (.list vs))
    (map : ∀ vs, (∀ k v, vs.get? k = .some v → motive v) → motive (.map vs))
    (table : ∀ fs, (∀ k v, fs.get? k = .some v → motive v) → motive (.table fs))
    (variant : ∀ tag v, motive v → motive (.variant tag v))
    (callable : ∀ r, motive (.callable r)) (object : ∀ r, motive (.object r))
    (v : PhenixValue) : motive v := by
  refine @PhenixValue.rec motive (fun o => motive (.option o)) (fun vs => ∀ v ∈ vs, motive v)
    (fun m => ∀ k v, m.get? k = .some v → motive v)
    (fun m => ∀ k v, m.get? k = .some v → motive v) unit bool i64 u64 f64 string
    bytes (fun _ h => h) list map table variant callable object none some ?_ ?_ ?_ ?_ v
  · simp
  · intro v vs hv hvs w hw
    rcases List.mem_cons.mp hw with rfl | hw
    exacts [hv,hvs w hw]
  all_goals
    intro keys sorted val ih k v h
    obtain ⟨hk,rfl⟩ := (BTreeMap.get?_eq_some _).mp h
    exact ih k hk

mutual
/-- Structural equality up to a comparison of floats. -/
def compareWith (r : F64 → F64 → Bool) : PhenixValue → PhenixValue → Bool
  | .unit, .unit => true
  | .bool a, .bool b => a == b
  | .i64 a, .i64 b => a == b
  | .u64 a, .u64 b => a == b
  | .f64 a, .f64 b => r a b
  | .string a, .string b => a == b
  | .bytes a, .bytes b => a == b
  | .option none, .option none => true
  | .option (some a), .option (some b) => compareWith r a b
  | .list as, .list bs => compareAllWith r as bs
  | .map ⟨keys,_,val⟩, .map n => keys == n.keys && keys.attach.all fun ⟨k,h⟩ =>
      (n.get? k).any fun b => compareWith r (val k h) b
  | .table ⟨keys,_,val⟩, .table n => keys == n.keys && keys.attach.all fun ⟨k,h⟩ =>
      (n.get? k).any fun b => compareWith r (val k h) b
  | .variant s a, .variant t b => s == t && compareWith r a b
  | .callable a, .callable b => a == b
  | .object a, .object b => a == b
  | _, _ => false

def compareAllWith (r : F64 → F64 → Bool) : List PhenixValue → List PhenixValue → Bool
  | [], [] => true
  | a :: as, b :: bs => compareWith r a b && compareAllWith r as bs
  | _, _ => false
end

/-- The derived `PartialEq`. -/
def partialEq : PhenixValue → PhenixValue → Bool := compareWith F64.partialEq

/-- Equal bit for bit or by the derived equality: a value that the kernel
cannot tell from the other one. -/
def same : PhenixValue → PhenixValue → Bool := compareWith F64.same

example : partialEq (.list [.unit]) (.list [.unit]) = true := by
  simp [partialEq, compareWith, compareAllWith]

/-- The derived equality of optional values, for the same comparison of floats. -/
def compareOption (r : F64 → F64 → Bool) : Option PhenixValue → Option PhenixValue → Bool
  | none, none => true
  | some a, some b => compareWith r a b
  | _, _ => false

theorem compareOption_iff (r : F64 → F64 → Bool) (a b : Option PhenixValue) :
    compareOption r a b = true ↔ Option.Rel (fun x y => compareWith r x y = true) a b := by
  cases a <;> cases b <;> simp [compareOption]

theorem compareAllWith_iff (r : F64 → F64 → Bool) (as bs : List PhenixValue) :
    compareAllWith r as bs = true ↔ List.Forall₂ (fun a b => compareWith r a b = true) as bs := by
  induction as generalizing bs with
  | nil => cases bs <;> simp [compareAllWith]
  | cons a as ih => cases bs <;> simp [compareAllWith, ih]

section Comparison
variable {r : F64 → F64 → Bool}

@[simp] theorem compareWith_list (as bs : List PhenixValue) :
    compareWith r (.list as) (.list bs) = true ↔
      List.Forall₂ (fun a b => compareWith r a b = true) as bs := by
  rw [compareWith, compareAllWith_iff]

@[simp] theorem compareWith_map (m n : BTreeMap String PhenixValue) :
    compareWith r (.map m) (.map n) = true ↔
      ∀ k, Option.Rel (fun a b => compareWith r a b = true) (m.get? k) (n.get? k) := by
  rw [← BTreeMap.forall_rel_iff, compareWith]
  simp [Option.any_eq_true]

@[simp] theorem compareWith_table (m n : BTreeMap Key PhenixValue) :
    compareWith r (.table m) (.table n) = true ↔
      ∀ k, Option.Rel (fun a b => compareWith r a b = true) (m.get? k) (n.get? k) := by
  rw [← BTreeMap.forall_rel_iff, compareWith]
  simp [Option.any_eq_true]

theorem compareWith_refl (hr : ∀ a, r a a = true) (v : PhenixValue) :
    compareWith r v v = true := by
  induction v using induct with
  | unit | bool | i64 | u64 | string | bytes | none | callable | object => simp [compareWith]
  | f64 v => simp [compareWith, hr]
  | some v ih => simpa [compareWith] using ih
  | list vs ih => exact (compareWith_list vs vs).mpr (List.forall₂_same.mpr ih)
  | map m ih =>
    refine (compareWith_map m m).mpr fun k => ?_
    cases h : m.get? k with
    | none => exact .none
    | some v => exact .some (ih k v h)
  | table m ih =>
    refine (compareWith_table m m).mpr fun k => ?_
    cases h : m.get? k with
    | none => exact .none
    | some v => exact .some (ih k v h)
  | variant tag v ih => simpa [compareWith] using ih

theorem compareOption_refl (hr : ∀ a, r a a = true) (o : Option PhenixValue) :
    compareOption r o o = true := by
  cases o with
  | none => rfl
  | some v => exact compareWith_refl hr v

end Comparison

variable {r : F64 → F64 → Bool} {v w : PhenixValue}

theorem compareWith_symm (hr : ∀ a b, r a b = true → r b a = true) (h : compareWith r v w = true) :
    compareWith r w v = true := by
  induction v using induct generalizing w with
  | unit | bool | i64 | u64 | string | bytes | callable | object =>
    cases w <;> simp_all [compareWith]
  | f64 v =>
    cases w with
    | f64 w => exact hr v w h
    | _ => simp [compareWith] at h
  | none =>
    cases w with
    | option w => cases w <;> exact h
    | _ => simp [compareWith] at h
  | some v ih =>
    cases w with
    | option w =>
      cases w with
      | none => simp [compareWith] at h
      | some w => exact ih h
    | _ => simp [compareWith] at h
  | list vs ih =>
    cases w with
    | list ws =>
      rw [compareWith_list, List.forall₂_iff_get] at h ⊢
      exact ⟨h.1.symm,fun i hi hj => ih _ (List.get_mem _ _) (h.2 i hj hi)⟩
    | _ => simp [compareWith] at h
  | map m ih =>
    cases w with
    | map n =>
      rw [compareWith_map] at h ⊢
      refine fun k => ?_
      have hk := h k
      cases hm : m.get? k <;> cases hn : n.get? k <;> simp_all
      exact ih _ _ hm hk
    | _ => simp [compareWith] at h
  | table m ih =>
    cases w with
    | table n =>
      rw [compareWith_table] at h ⊢
      refine fun k => ?_
      have hk := h k
      cases hm : m.get? k <;> cases hn : n.get? k <;> simp_all
      exact ih _ _ hm hk
    | _ => simp [compareWith] at h
  | variant tag v ih =>
    cases w with
    | variant tag' w =>
      simp only [compareWith, Bool.and_eq_true, beq_iff_eq] at h ⊢
      exact ⟨h.1.symm,ih h.2⟩
    | _ => simp [compareWith] at h

/-- Comparisons of values compose as the comparisons of their floats do. -/
theorem compareWith_trans {r' r'' : F64 → F64 → Bool}
    (hr : ∀ a b c, r a b = true → r' b c = true → r'' a c = true) {u : PhenixValue}
    (h : compareWith r v w = true) (h' : compareWith r' w u = true) :
    compareWith r'' v u = true := by
  induction v using induct generalizing w u with
  | unit | bool | i64 | u64 | string | bytes | callable | object =>
    cases w <;> first
      | (simp [compareWith] at h; done)
      | (cases u <;> simp_all [compareWith])
  | f64 v =>
    cases w with
    | f64 w =>
      cases u with
      | f64 u => exact hr v w u h h'
      | _ => simp [compareWith] at h'
    | _ => simp [compareWith] at h
  | none =>
    cases w with
    | option w =>
      cases w with
      | none =>
        cases u with
        | option u => cases u <;> exact h'
        | _ => simp [compareWith] at h'
      | some w => simp [compareWith] at h
    | _ => simp [compareWith] at h
  | some v ih =>
    cases w with
    | option w =>
      cases w with
      | none => simp [compareWith] at h
      | some w =>
        cases u with
        | option u =>
          cases u with
          | none => simp [compareWith] at h'
          | some u => exact ih h h'
        | _ => simp [compareWith] at h'
    | _ => simp [compareWith] at h
  | list vs ih =>
    cases w with
    | list ws =>
      cases u with
      | list us =>
        rw [compareWith_list, List.forall₂_iff_get] at h h' ⊢
        refine ⟨h.1.trans h'.1,fun i hi hj => ?_⟩
        have hw : i < ws.length := h.1 ▸ hi
        exact ih _ (List.get_mem _ _) (h.2 i hi hw) (h'.2 i hw hj)
      | _ => simp [compareWith] at h'
    | _ => simp [compareWith] at h
  | map m ih =>
    cases w with
    | map n =>
      cases u with
      | map p =>
        rw [compareWith_map] at h h' ⊢
        refine fun k => ?_
        have hk := h k
        have hk' := h' k
        cases hm : m.get? k <;> cases hn : n.get? k <;> cases hp : p.get? k <;> simp_all
        exact ih _ _ hm hk hk'
      | _ => simp [compareWith] at h'
    | _ => simp [compareWith] at h
  | table m ih =>
    cases w with
    | table n =>
      cases u with
      | table p =>
        rw [compareWith_table] at h h' ⊢
        refine fun k => ?_
        have hk := h k
        have hk' := h' k
        cases hm : m.get? k <;> cases hn : n.get? k <;> cases hp : p.get? k <;> simp_all
        exact ih _ _ hm hk hk'
      | _ => simp [compareWith] at h'
    | _ => simp [compareWith] at h
  | variant tag v ih =>
    cases w with
    | variant tag' w =>
      cases u with
      | variant tag'' u =>
        simp only [compareWith, Bool.and_eq_true, beq_iff_eq] at h h' ⊢
        exact ⟨h.1.trans h'.1,ih h.2 h'.2⟩
      | _ => simp [compareWith] at h'
    | _ => simp [compareWith] at h

/-- A coarser comparison of floats gives a coarser comparison of values. -/
theorem compareWith_mono {r' : F64 → F64 → Bool} (hr : ∀ a b, r a b = true → r' a b = true)
    (h : compareWith r v w = true) : compareWith r' v w = true := by
  refine compareWith_trans (fun a b c hab hbc => ?_) h (compareWith_refl (r := (· == ·)) (by simp) w)
  rw [← eq_of_beq hbc]
  exact hr a b hab

/-- Values that are the same are equal when the second one equals itself. -/
theorem compareWith_of_same (h : same v w = true) (hw : partialEq w w = true) :
    partialEq v w = true := by
  refine compareWith_trans (fun a b c hab hbc => ?_) h hw
  rcases Bool.or_eq_true_iff.mp hab with hab | hab
  · rwa [eq_of_beq hab]
  · exact F64.partialEq_trans hab hbc

/-- The derived equality is an equivalence on the values that equal themselves. -/
theorem partialEq_symm (h : partialEq v w = true) : partialEq w v = true :=
  compareWith_symm (fun _ _ => F64.partialEq_symm) h

theorem partialEq_trans {u : PhenixValue} (h : partialEq v w = true) (h' : partialEq w u = true) :
    partialEq v u = true :=
  have hf : ∀ a b c, F64.partialEq a b = true → F64.partialEq b c = true →
    F64.partialEq a c = true := fun _ _ _ => F64.partialEq_trans
  compareWith_trans hf h h'

/-- Equal values are the same. -/
theorem same_of_partialEq (h : partialEq v w = true) : same v w = true :=
  compareWith_mono (fun _ _ h => Bool.or_eq_true_iff.mpr (.inr h)) h

end PhenixValue
end PhenixConductor.Contract
