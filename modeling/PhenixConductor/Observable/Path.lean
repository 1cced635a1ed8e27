import PhenixConductor.Observable.Model
import PhenixConductor.Collections.Branching

/-! # Reading and writing a value at a path

The mutators of the store walk to an addressed member and exchange it.
-/
namespace PhenixConductor.Observable
open Contract Collections Branching BTreeMap
open Option (isSome_iff_exists)

/-- `value_at_optional`. -/
def valueAtOptional : PhenixValue → ValuePath → Option PhenixValue
  | value, [] => some value
  | value, head :: tail =>
    match value, head with
    | .table fields, .field key => (fields.get? key).bind fun next => valueAtOptional next tail
    | .map values, .mapKey key => (values.get? key).bind fun next => valueAtOptional next tail
    | .list values, .index i => (values[i.toNat]?).bind fun next => valueAtOptional next tail
    | .option (some next), .optionPayload => valueAtOptional next tail
    | .variant _ next, .variantPayload => valueAtOptional next tail
    | _, _ => none

/-- `value_at`. -/
def valueAt (value : PhenixValue) (path : ValuePath) : Except String PhenixValue :=
  match valueAtOptional value path with
  | some found => .ok found
  | none => .error "addressed observable value is absent"

/-- One step of `value_at_mut`: the place a mutable reference points to, as its
content and the value around it for a new content. -/
def stepMut (value : PhenixValue) (head : ValuePathSegment) :
    Except String (PhenixValue × (PhenixValue → PhenixValue)) :=
  match value, head with
  | .table fields, .field key =>
    match fields.get? key with
    | some next => .ok (next,fun new => .table (fields.insert key new))
    | none => .error ("table field " ++ key.text ++ " is absent")
  | .map values, .mapKey key =>
    match values.get? key with
    | some next => .ok (next,fun new => .map (values.insert key new))
    | none => .error ("map key " ++ key ++ " is absent")
  | .list values, .index i =>
    match values[i.toNat]? with
    | some next => .ok (next,fun new => .list (values.set i.toNat new))
    | none => .error ("list index " ++ toString i.toNat ++ " is absent")
  | .option (some next), .optionPayload => .ok (next,fun new => .option (some new))
  | .variant tag next, .variantPayload => .ok (next,fun new => .variant tag new)
  | _, head => .error ("path segment " ++ head.debug ++ " does not match current value")

/-- `value_at_mut`. -/
def valueAtMut : PhenixValue → ValuePath →
    Except String (PhenixValue × (PhenixValue → PhenixValue))
  | value, [] => .ok (value,id)
  | value, head :: tail => do
    let (next,put) ← stepMut value head
    let (target,inner) ← valueAtMut next tail
    return (target,fun new => put (inner new))

/-- `replace_at`: the previous content and the value after the replacement. -/
def replaceAt (replacement : PhenixValue) : PhenixValue → ValuePath →
    Except String (Option PhenixValue × PhenixValue)
  | value, [] => .ok (some value,replacement)
  | value, [head] =>
    match value, head with
    | .table fields, .field key =>
      match fields.get? key with
      | some slot => .ok (some slot,.table (fields.insert key replacement))
      | none => .error ("table field " ++ key.text ++ " is absent")
    | .map values, .mapKey key => .ok (values.get? key,.map (values.insert key replacement))
    | .list values, .index i =>
      match values[i.toNat]? with
      | some slot => .ok (some slot,.list (values.set i.toNat replacement))
      | none => .error ("list index " ++ toString i.toNat ++ " is absent")
    | .option slot, .optionPayload => .ok (slot,.option (some replacement))
    | .variant tag slot, .variantPayload => .ok (some slot,.variant tag replacement)
    | _, head => .error ("path segment " ++ head.debug ++ " does not match current value")
  | value, head :: tail => do
    let (next,put) ← stepMut value head
    let (previous,next) ← replaceAt replacement next tail
    return (previous,put next)

/-- `remove_at`: the removed content and the value after the removal. -/
def removeAt : PhenixValue → ValuePath → Except String (Option PhenixValue × PhenixValue)
  | _, [] => .error "registered roots cannot be removed"
  | value, [head] =>
    match value, head with
    | .map values, .mapKey key => .ok (values.get? key,.map (values.erase key))
    | .option slot, .optionPayload => .ok (slot,.option none)
    | _, head => .error ("path segment " ++ head.debug ++ " is not removable")
  | value, head :: tail => do
    let (next,put) ← stepMut value head
    let (previous,next) ← removeAt next tail
    return (previous,put next)

/-- `restore_optional`. -/
def restoreOptional (previous : Option PhenixValue) : PhenixValue → ValuePath →
    Except String PhenixValue
  | _, [] =>
    match previous with
    | some previous => .ok previous
    | none => .error "cannot remove registered root during rollback"
  | value, [head] =>
    match value, head, previous with
    | .table fields, .field key, some previous => .ok (.table (fields.insert key previous))
    | .map values, .mapKey key, some previous => .ok (.map (values.insert key previous))
    | .map values, .mapKey key, none => .ok (.map (values.erase key))
    | .list values, .index i, some previous =>
      match values[i.toNat]? with
      | some _ => .ok (.list (values.set i.toNat previous))
      | none => .error ("rollback list index " ++ toString i.toNat ++ " is absent")
    | .option _, .optionPayload, previous => .ok (.option previous)
    | .variant tag _, .variantPayload, some previous => .ok (.variant tag previous)
    | _, head, _ => .error ("cannot restore path segment " ++ head.debug)
  | value, head :: tail => do
    let (next,put) ← stepMut value head
    return put (← restoreOptional previous next tail)

/-! ## Values branch by path segments -/

namespace Segment

def child : PhenixValue → ValuePathSegment → Option PhenixValue
  | .table fields, .field key => fields.get? key
  | .map values, .mapKey key => values.get? key
  | .list values, .index i => values[i.toNat]?
  | .option payload, .optionPayload => payload
  | .variant _ payload, .variantPayload => some payload
  | _, _ => none

def setChild : PhenixValue → ValuePathSegment → Option PhenixValue → PhenixValue
  | .table fields, .field key, some x => .table (fields.replace key x)
  | .map values, .mapKey key, x => .map (values.alter key x)
  | .list values, .index i, some x => .list (values.set i.toNat x)
  | .option _, .optionPayload, x => .option x
  | .variant tag _, .variantPayload, some x => .variant tag x
  | v, _, _ => v

/-- Table fields, list members and variant payloads are replaced but neither
added nor removed. -/
def admits : PhenixValue → ValuePathSegment → Option PhenixValue → Prop
  | .table fields, .field key, x => (fields.get? key).isSome ∧ x.isSome
  | .map _, .mapKey _, _ => True
  | .list values, .index i, x => i.toNat < values.length ∧ x.isSome
  | .option _, .optionPayload, _ => True
  | .variant _ _, .variantPayload, x => x.isSome
  | _, _, _ => False

end Segment

namespace Segment

variable {v : PhenixValue} {s : ValuePathSegment}

theorem child_setChild_self {x : Option PhenixValue} (h : admits v s x) :
    child (setChild v s x) s = x := by
  cases v <;> cases s <;> try exact h.elim
  case map.mapKey m k => simp [setChild, child, get?_alter]
  case option.optionPayload o => rfl
  case table.field m k =>
    obtain ⟨hk,hx⟩ := h
    obtain ⟨x,rfl⟩ := isSome_iff_exists.mp hx
    simp [setChild, child, replace_of_isSome _ _ hk]
  case list.index l i =>
    obtain ⟨hi,hx⟩ := h
    obtain ⟨x,rfl⟩ := isSome_iff_exists.mp hx
    simp [setChild, child, hi]
  case variant.variantPayload tag o =>
    obtain ⟨x,rfl⟩ := isSome_iff_exists.mp h
    rfl

variable {t : ValuePathSegment}

theorem child_setChild_of_ne (x : Option PhenixValue) (h : s ≠ t) :
    child (setChild v s x) t = child v t := by
  cases v <;> cases s <;> cases x <;> cases t <;> try rfl
  case table.field.some.field m j x k =>
    have hjk : k ≠ j := fun e => h (by rw [e])
    simp [setChild, child, get?_replace, hjk]
  case map.mapKey.none.mapKey m j k | map.mapKey.some.mapKey m j x k =>
    have hjk : k ≠ j := fun e => h (by rw [e])
    simp [setChild, child, get?_alter, hjk]
  case list.index.some.index l i x j =>
    have hij : i.toNat ≠ j.toNat := fun e => h (by rw [UInt32.toNat_inj.mp e])
    simp [setChild, child, List.getElem?_set_ne hij]
  all_goals exact absurd rfl h

theorem setChild_child (v : PhenixValue) (s : ValuePathSegment) :
    setChild v s (child v s) = v := by
  cases v <;> cases s <;> try rfl
  case table.field m k =>
    cases h : m.get? k with
    | none => simp [child, setChild, h]
    | some x =>
      have hm : m.replace k x = m := by
        ext1 j
        rw [get?_replace]
        split_ifs with hj <;> simp [hj, h]
      simp [child, setChild, h, hm]
  case map.mapKey m k =>
    have hm : m.alter k (m.get? k) = m := by
      ext1 j
      rw [get?_alter]
      split_ifs with hj <;> simp [hj]
    simp [child, setChild, hm]
  case list.index l i =>
    cases h : l[i.toNat]? with
    | none => simp [child, setChild, h]
    | some x =>
      obtain ⟨hi,rfl⟩ := List.getElem?_eq_some_iff.mp h
      simp [child, setChild, h, List.set_getElem_self]

theorem setChild_setChild {y : Option PhenixValue} (x : Option PhenixValue) (h : admits v s y) :
    setChild (setChild v s x) s y = setChild v s y := by
  cases v <;> cases s <;> try exact h.elim
  case map.mapKey m k =>
    have hm : (m.alter k x).alter k y = m.alter k y := by
      ext1 j
      simp only [get?_alter]
      split_ifs <;> rfl
    simp [setChild, hm]
  case option.optionPayload o => rfl
  case table.field m k =>
    obtain ⟨y,rfl⟩ := isSome_iff_exists.mp h.2
    cases x with
    | none => rfl
    | some x =>
      have hm : (m.replace k x).replace k y = m.replace k y := by
        ext1 j
        simp only [get?_replace]
        split_ifs <;> simp [Function.comp_def]
      simp [setChild, hm]
  case list.index l i =>
    obtain ⟨y,rfl⟩ := isSome_iff_exists.mp h.2
    cases x with
    | none => rfl
    | some x => simp [setChild, List.set_set]
  case variant.variantPayload tag o =>
    obtain ⟨y,rfl⟩ := isSome_iff_exists.mp h
    cases x <;> rfl

theorem setChild_comm (x y : Option PhenixValue) (h : s ≠ t) :
    setChild (setChild v s x) t y = setChild (setChild v t y) s x := by
  cases v <;> cases s <;> cases t <;> cases x <;> cases y <;> try rfl
  case table.field.field.some.some m j k x y =>
    have hjk : j ≠ k := fun e => h (by rw [e])
    have hm : (m.replace j x).replace k y = (m.replace k y).replace j x := by
      ext1 i
      simp only [get?_replace]
      split_ifs <;> simp_all
    simp [setChild, hm]
  case list.index.index.some.some l i j x y =>
    have hij : i.toNat ≠ j.toNat := fun e => h (by rw [UInt32.toNat_inj.mp e])
    simp [setChild, List.set_comm _ _ hij]
  case map.mapKey.mapKey.none.none m j k | map.mapKey.mapKey.none.some m j k y
      | map.mapKey.mapKey.some.none m j k x | map.mapKey.mapKey.some.some m j k x y =>
    simp only [setChild, PhenixValue.map.injEq]
    ext1 i
    simp only [get?_alter]
    split_ifs <;> simp_all
  all_goals exact absurd rfl h

theorem admits_setChild (x y : Option PhenixValue) :
    admits (setChild v s x) t y ↔ admits v t y := by
  cases v <;> cases s <;> cases x <;> cases t <;> try rfl
  case table.field.some.field m j x k =>
    simp only [setChild, admits, get?_replace]
    split_ifs with hk <;> simp [hk]
  case list.index.some.index l i x j => simp [setChild, admits]

theorem admits_of_child {c : PhenixValue} (y : PhenixValue) (h : child v s = some c) :
    admits v s (some y) := by
  cases v <;> cases s <;> try simp [child] at h
  case list.index l i => exact ⟨(List.getElem?_eq_some_iff.mp h).1,rfl⟩
  all_goals simp [admits, h]

theorem admits_child {x : Option PhenixValue} (h : admits v s x) : admits v s (child v s) := by
  cases v <;> cases s <;> simp_all [child, admits]

end Segment

instance : Branching PhenixValue ValuePathSegment where
  child := Segment.child
  setChild := Segment.setChild
  admits := Segment.admits
  child_setChild_self := Segment.child_setChild_self
  child_setChild_of_ne := Segment.child_setChild_of_ne
  setChild_child := Segment.setChild_child
  setChild_setChild := Segment.setChild_setChild
  setChild_comm := Segment.setChild_comm
  admits_setChild := Segment.admits_setChild
  admits_of_child := Segment.admits_of_child
  admits_child := Segment.admits_child

/-! ## The mutators are writes at admitted slots -/

theorem valueAtOptional_eq (v : PhenixValue) (p : ValuePath) :
    valueAtOptional v p = getAt (some v) p := by
  fun_induction valueAtOptional v p with
  | case1 v => simp
  | case2 p m k ih =>
    change _ = getAt (m.get? k) p
    cases hk : m.get? k with
    | none => simp
    | some w => exact ih w
  | case3 p m k ih =>
    change _ = getAt (m.get? k) p
    cases hk : m.get? k with
    | none => simp
    | some w => exact ih w
  | case4 p l i ih =>
    change _ = getAt l[i.toNat]? p
    cases hk : l[i.toNat]? with
    | none => simp
    | some w => exact ih w
  | case5 p v ih => exact ih
  | case6 p tag v ih => exact ih
  | case7 v s p h1 h2 h3 h4 h5 =>
    have hc : child v s = none := by
      cases v <;> cases s <;> try rfl
      case option.optionPayload o =>
        cases o with
        | none => rfl
        | some w => exact (h4 w rfl rfl).elim
      all_goals simp_all
    simp [hc]

variable {v : PhenixValue}

theorem stepMut_eq_ok {next : PhenixValue} {s : ValuePathSegment} {put : PhenixValue → PhenixValue}
    (h : stepMut v s = .ok (next,put)) :
    child v s = some next ∧ ∀ new, put new = setChild v s (some new) := by
  cases v <;> cases s <;> try simp [stepMut] at h
  case table.field m k =>
    split at h <;> cases h
    next hk =>
    refine ⟨hk,fun new => ?_⟩
    change _ = PhenixValue.table (m.replace k new)
    rw [replace_of_isSome _ _ (by simp [hk])]
  case map.mapKey m k =>
    split at h <;> cases h
    next hk => exact ⟨hk,fun new => rfl⟩
  case list.index l i =>
    split at h <;> cases h
    next hk => exact ⟨hk,fun new => rfl⟩
  case option.optionPayload o =>
    cases o <;> simp at h
    obtain ⟨rfl,rfl⟩ := h
    exact ⟨rfl,fun new => rfl⟩
  case variant.variantPayload tag w =>
    obtain ⟨rfl,rfl⟩ := h
    exact ⟨rfl,fun new => rfl⟩

theorem stepMut_of_child {next : PhenixValue} {s : ValuePathSegment} (h : child v s = some next) :
    ∃ put, stepMut v s = .ok (next,put) := by
  cases v <;> cases s <;> try cases h
  case table.field m k =>
    exact ⟨fun new => .table (m.insert k new),by simp [stepMut, show m.get? k = some next from h]⟩
  case map.mapKey m k =>
    exact ⟨fun new => .map (m.insert k new),by simp [stepMut, show m.get? k = some next from h]⟩
  case list.index l i =>
    exact ⟨fun new => .list (l.set i.toNat new),
      by simp [stepMut, show l[i.toNat]? = some next from h]⟩
  all_goals exact ⟨_,rfl⟩

variable {p : ValuePath}

theorem valueAtMut_eq_ok {target : PhenixValue} {put : PhenixValue → PhenixValue}
    (h : valueAtMut v p = .ok (target,put)) :
    getAt (some v) p = some target ∧ ∀ new, putAt (some v) p (some new) = some (put new) := by
  induction p generalizing v put with
  | nil =>
    cases h
    simp
  | cons s p ih =>
    rw [valueAtMut, bind_eq_ok] at h
    obtain ⟨⟨next,put'⟩,hs,h⟩ := h
    obtain ⟨⟨target',inner⟩,hi,he⟩ := bind_eq_ok.mp h
    cases he
    obtain ⟨hc,hput⟩ := stepMut_eq_ok hs
    obtain ⟨hg,hp⟩ := ih hi
    refine ⟨by simpa [hc] using hg,fun new => ?_⟩
    rw [putAt_some_cons, hc, hp, ← hput]

theorem valueAtMut_of_getAt {target : PhenixValue} (h : getAt (some v) p = some target) :
    ∃ put, valueAtMut v p = .ok (target,put) := by
  induction p generalizing v with
  | nil =>
    cases h
    exact ⟨id,rfl⟩
  | cons s p ih =>
    rw [getAt_some_cons] at h
    cases hc : child v s with
    | none => simp [hc] at h
    | some next =>
      rw [hc] at h
      obtain ⟨inner,hi⟩ := ih h
      obtain ⟨put,hs⟩ := stepMut_of_child hc
      exact ⟨fun new => put (inner new),by simp [valueAtMut, hs, hi]⟩

variable {v' : PhenixValue}

variable {previous : Option PhenixValue}

/-- A successful replacement is a write at an admitted slot. -/
theorem replaceAt_eq_ok {r : PhenixValue} (h : replaceAt r v p = .ok (previous,v')) :
    Admits (some v) p (some r) ∧ getAt (some v) p = previous ∧
      putAt (some v) p (some r) = some v' := by
  induction p generalizing v v' with
  | nil =>
    cases h
    simp
  | cons s p ih =>
    cases p with
    | cons t p =>
      rw [replaceAt, bind_eq_ok] at h
      · obtain ⟨⟨next,put⟩,hs,h⟩ := h
        obtain ⟨⟨previous',next'⟩,hr,he⟩ := bind_eq_ok.mp h
        cases he
        obtain ⟨hc,hput⟩ := stepMut_eq_ok hs
        obtain ⟨ha,hg,hp⟩ := ih hr
        rw [admits_some_cons (List.cons_ne_nil _ _), getAt_some_cons, putAt_some_cons, hc, hp, hput]
        exact ⟨ha,hg,rfl⟩
      · exact List.cons_ne_nil _ _
    | nil =>
      cases v <;> cases s <;> try simp [replaceAt] at h
      case table.field m k =>
        split at h <;> cases h
        next hk =>
        refine ⟨⟨by simp [hk],rfl⟩,hk,?_⟩
        rw [← replace_of_isSome _ _ (by simp [hk])]
        rfl
      case list.index l i =>
        split at h <;> cases h
        next hk => exact ⟨⟨(List.getElem?_eq_some_iff.mp hk).1,rfl⟩,hk,rfl⟩
      all_goals
        obtain ⟨rfl,rfl⟩ := h
        exact ⟨by simp [admits, Segment.admits],rfl,rfl⟩

/-- Below its first segment a write at a path is a write in the child. -/
theorem exists_stepMut {x : Option PhenixValue} {t : ValuePathSegment}
    (ha : Admits (some v) (s :: t :: p) x) (hp : putAt (some v) (s :: t :: p) x = some v') :
    ∃ next put next', child v s = some next ∧ stepMut v s = .ok (next,put) ∧
      Admits (some next) (t :: p) x ∧ putAt (some next) (t :: p) x = some next' ∧
      put next' = v' := by
  rw [admits_some_cons (List.cons_ne_nil _ _)] at ha
  cases hc : child v s with
  | none => exact absurd (hc ▸ ha) (not_admits_none_cons _ _ _)
  | some next =>
    obtain ⟨put,hs⟩ := stepMut_of_child hc
    rw [putAt_some_cons, hc] at hp
    rw [hc] at ha
    obtain ⟨next',hn⟩ : ∃ n, putAt (some next) (t :: p) x = some n := ⟨_,rfl⟩
    rw [hn, Option.some.injEq] at hp
    exact ⟨next,put,next',rfl,hs,ha,hn,by rw [← hp, ← (stepMut_eq_ok hs).2]⟩

theorem replaceAt_of_admits {r : PhenixValue} (ha : Admits (some v) p (some r))
    (hp : putAt (some v) p (some r) = some v') : replaceAt r v p = .ok (getAt (some v) p,v') := by
  induction p generalizing v v' with
  | nil =>
    cases hp
    rfl
  | cons s p ih =>
    cases p with
    | cons t p =>
      obtain ⟨next,put,next',hc,hs,ha,hn,rfl⟩ := exists_stepMut ha hp
      rw [getAt_some_cons, hc]
      simp [replaceAt, hs, ih ha hn]
    | nil =>
      simp only [admits_some_singleton, putAt_some_cons, putAt_nil, Option.some.injEq] at ha hp
      subst hp
      cases v <;> cases s <;> try exact ha.elim
      case table.field m k =>
        obtain ⟨w,hw⟩ := isSome_iff_exists.mp ha.1
        simp [replaceAt, child, Segment.child, setChild, Segment.setChild, hw, replace]
      case list.index l i =>
        simp [replaceAt, child, Segment.child, setChild, Segment.setChild,
          List.getElem?_eq_getElem ha.1]
      all_goals rfl

theorem removeAt_eq_ok (h : removeAt v p = .ok (previous,v')) :
    p ≠ [] ∧ Admits (some v) p none ∧ getAt (some v) p = previous ∧
      putAt (some v) p none = some v' := by
  induction p generalizing v v' with
  | nil => cases h
  | cons s p ih =>
    refine ⟨List.cons_ne_nil _ _,?_⟩
    cases p with
    | cons t p =>
      rw [removeAt, bind_eq_ok] at h
      · obtain ⟨⟨next,put⟩,hs,h⟩ := h
        obtain ⟨⟨previous',next'⟩,hr,he⟩ := bind_eq_ok.mp h
        cases he
        obtain ⟨hc,hput⟩ := stepMut_eq_ok hs
        obtain ⟨-,ha,hg,hp⟩ := ih hr
        rw [admits_some_cons (List.cons_ne_nil _ _), getAt_some_cons, putAt_some_cons, hc, hp, hput]
        exact ⟨ha,hg,rfl⟩
      · exact List.cons_ne_nil _ _
    | nil =>
      cases v <;> cases s <;> try simp [removeAt] at h
      all_goals
        obtain ⟨rfl,rfl⟩ := h
        exact ⟨trivial,rfl,rfl⟩

theorem removeAt_of_admits (hne : p ≠ []) (ha : Admits (some v) p none)
    (hp : putAt (some v) p none = some v') : removeAt v p = .ok (getAt (some v) p,v') := by
  induction p generalizing v v' with
  | nil => exact absurd rfl hne
  | cons s p ih =>
    cases p with
    | cons t p =>
      obtain ⟨next,put,next',hc,hs,ha,hn,rfl⟩ := exists_stepMut ha hp
      rw [getAt_some_cons, hc]
      simp [removeAt, hs, ih (List.cons_ne_nil _ _) ha hn]
    | nil =>
      simp only [admits_some_singleton, putAt_some_cons, putAt_nil, Option.some.injEq] at ha hp
      subst hp
      cases v <;> cases s <;> try simp [admits, Segment.admits] at ha
      all_goals rfl

/-- `restore_optional` succeeds where the restored content is admitted. -/
theorem restoreOptional_of_admits {x : Option PhenixValue} (ha : Admits (some v) p x)
    (hp : putAt (some v) p x = some v') : restoreOptional x v p = .ok v' := by
  induction p generalizing v v' with
  | nil =>
    cases hp
    rfl
  | cons s p ih =>
    cases p with
    | cons t p =>
      obtain ⟨next,put,next',hc,hs,ha,hn,rfl⟩ := exists_stepMut ha hp
      simp [restoreOptional, hs, ih ha hn]
    | nil =>
      simp only [admits_some_singleton, putAt_some_cons, putAt_nil, Option.some.injEq] at ha hp
      subst hp
      cases v <;> cases s <;> try exact ha.elim
      case map.mapKey m k => cases x <;> rfl
      case option.optionPayload o => rfl
      case table.field m k =>
        obtain ⟨x,rfl⟩ := isSome_iff_exists.mp ha.2
        simp [restoreOptional, setChild, Segment.setChild, replace_of_isSome _ _ ha.1]
      case list.index l i =>
        obtain ⟨x,rfl⟩ := isSome_iff_exists.mp ha.2
        simp [restoreOptional, setChild, Segment.setChild, List.getElem?_eq_getElem ha.1]
      case variant.variantPayload tag w =>
        obtain ⟨x,rfl⟩ := isSome_iff_exists.mp ha
        rfl

end PhenixConductor.Observable

/-! ## Values that agree at a path

Two values that a comparison of floats cannot tell apart agree at every path,
and stay so when the same slot of both is written with contents that agree.
-/
namespace PhenixConductor.Observable
open Contract Collections Branching PhenixValue BTreeMap

variable {r : F64 → F64 → Bool}

theorem forall₂_getElem? {α : Type} {R : α → α → Prop} {l l' : List α} (h : List.Forall₂ R l l')
    (i : ℕ) : Option.Rel R l[i]? l'[i]? := by
  induction h generalizing i with
  | nil => exact .none
  | cons hr _ ih =>
    cases i with
    | zero => exact .some hr
    | succ i => exact ih i

theorem forall₂_set {α : Type} {R : α → α → Prop} {l l' : List α} {x y : α}
    (h : List.Forall₂ R l l') (hxy : R x y) (i : ℕ) : List.Forall₂ R (l.set i x) (l'.set i y) := by
  induction h generalizing i with
  | nil => exact .nil
  | cons hr hs ih =>
    cases i with
    | zero => exact .cons hxy hs
    | succ i => exact .cons hr (ih i)

theorem compareWith_child {v w : PhenixValue} (h : compareWith r v w = true)
    (s : ValuePathSegment) : compareOption r (child v s) (child w s) = true := by
  rw [compareOption_iff]
  cases v <;> cases w <;> try (simp [compareWith] at h; done)
  case table.table m n =>
    cases s with
    | field k => exact (compareWith_table m n).mp h k
    | _ => exact .none
  case map.map m n =>
    cases s with
    | mapKey k => exact (compareWith_map m n).mp h k
    | _ => exact .none
  case list.list l l' =>
    cases s with
    | index i => exact forall₂_getElem? ((compareWith_list l l').mp h) i.toNat
    | _ => exact .none
  case option.option o o' =>
    cases s with
    | optionPayload =>
      cases o <;> cases o' <;> try (simp [compareWith] at h; done)
      · exact .none
      · exact .some h
    | _ => exact .none
  case variant.variant tag x tag' y =>
    cases s with
    | variantPayload => exact .some (Bool.and_eq_true_iff.mp h).2
    | _ => exact .none
  all_goals cases s <;> exact .none

theorem compareWith_setChild {v w : PhenixValue} {x y : Option PhenixValue}
    (h : compareWith r v w = true) (s : ValuePathSegment) (hxy : compareOption r x y = true) :
    compareWith r (setChild v s x) (setChild w s y) = true := by
  rw [compareOption_iff] at hxy
  cases v <;> cases w <;> try (simp [compareWith] at h; done)
  case table.table m n =>
    cases s with
    | field k =>
      cases hxy with
      | none => exact h
      | @some a b hab =>
        refine (compareWith_table (m.replace k a) (n.replace k b)).mpr fun j => ?_
        have hj := (compareWith_table m n).mp h j
        have hk := (compareWith_table m n).mp h k
        rw [get?_replace, get?_replace]
        split_ifs
        · generalize m.get? k = o at hk
          generalize n.get? k = o' at hk
          cases hk with
          | none => exact .none
          | some _ => exact .some hab
        · exact hj
    | _ => cases hxy <;> exact h
  case map.map m n =>
    cases s with
    | mapKey k =>
      refine (compareWith_map (m.alter k x) (n.alter k y)).mpr fun j => ?_
      rw [get?_alter, get?_alter]
      split_ifs
      · exact hxy
      · exact (compareWith_map m n).mp h j
    | _ => cases hxy <;> exact h
  case list.list l l' =>
    cases s with
    | index i =>
      cases hxy with
      | none => exact h
      | some hab =>
        exact (compareWith_list _ _).mpr
          (forall₂_set ((compareWith_list l l').mp h) hab i.toNat)
    | _ => cases hxy <;> exact h
  case option.option o o' =>
    cases s with
    | optionPayload =>
      cases hxy with
      | none => rfl
      | some hab => exact hab
    | _ => cases hxy <;> exact h
  case variant.variant tag a tag' b =>
    cases s with
    | variantPayload =>
      cases hxy with
      | none => exact h
      | some hab => exact Bool.and_eq_true_iff.mpr ⟨(Bool.and_eq_true_iff.mp h).1,hab⟩
    | _ => cases hxy <;> exact h
  all_goals cases s <;> cases hxy <;> exact h

theorem compareOption_getAt {o o' : Option PhenixValue} (h : compareOption r o o' = true)
    (p : ValuePath) : compareOption r (getAt o p) (getAt o' p) = true := by
  induction p generalizing o o' with
  | nil => simpa using h
  | cons s p ih =>
    rw [compareOption_iff] at h
    cases h with
    | none => rfl
    | some h => exact ih (compareWith_child h s)

theorem compareOption_putAt {o o' x y : Option PhenixValue} (p : ValuePath)
    (h : compareOption r o o' = true) (hxy : compareOption r x y = true) :
    compareOption r (putAt o p x) (putAt o' p y) = true := by
  induction p generalizing o o' with
  | nil => simpa using hxy
  | cons s p ih =>
    rw [compareOption_iff] at h
    cases h with
    | none => rfl
    | some h => exact compareWith_setChild h s (ih (compareWith_child h s))

/-! ## The two comparisons of optional values -/

theorem compareOption_same_refl (o : Option PhenixValue) : compareOption F64.same o o = true :=
  compareOption_refl (fun a => by simp [F64.same]) o

theorem compareOption_same_of_partialEq {a b : Option PhenixValue}
    (h : compareOption F64.partialEq a b = true) : compareOption F64.same a b = true := by
  rw [compareOption_iff] at h
  cases h with
  | none => rfl
  | some h => exact same_of_partialEq h

/-- Contents that are the same are equal when the second one equals itself. -/
theorem compareOption_partialEq_of_same {a b : Option PhenixValue}
    (h : compareOption F64.same a b = true) (hb : compareOption F64.partialEq b b = true) :
    compareOption F64.partialEq a b = true := by
  rw [compareOption_iff] at h
  cases h with
  | none => rfl
  | some h => exact compareWith_of_same h hb

end PhenixConductor.Observable
