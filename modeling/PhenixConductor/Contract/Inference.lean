import PhenixConductor.Contract.Compatible

/-! # Schemas of values

A value is classified by an inferred schema: list and map members are joined to a common one.
-/
namespace PhenixConductor.Contract
open Collections PhenixSchema BTreeMap
open False (elim)

def joinSchema (left right : PhenixSchema) : PhenixSchema :=
  if left = right then left
  else match left, right with
  | .never, other => other
  | other, .never => other
  | .any, _ => .any
  | _, .any => .any
  | .option left, .option right => .option (joinSchema left right)
  | .array left leftLen, .array right rightLen =>
    if leftLen = rightLen then .array (joinSchema left right) leftLen
    else .list (joinSchema left right)
  | .array left _, .list right => .list (joinSchema left right)
  | .list left, .array right _ => .list (joinSchema left right)
  | .list left, .list right => .list (joinSchema left right)
  | .map left, .map right => .map (joinSchema left right)
  | .table ⟨keys,sorted,val⟩, .table right =>
    .table (collect keys sorted fun key h =>
      (right.get? key).map fun right => joinSchema (val key h) right)
  | .variant ⟨keys,sorted,val⟩, .variant right =>
    -- the keys of `right` are distinct, so each lookup in `left` meets its initial content
    .variant (right.toList.foldl (fun left e => left.insert e.1
      (if h : e.1 ∈ keys then joinSchema (val e.1 h) e.2 else e.2)) ⟨keys,sorted,val⟩)
  | .object left, .object right => if left = right then .object left else .any
  | .callable left leftInput leftOutput, .callable right rightInput rightOutput =>
    if left = right ∧ leftInput = rightInput ∧ leftOutput = rightOutput then
      .callable left leftInput leftOutput
    else .any
  | _, _ => .any

example : joinSchema .any .unit = .any := by simp [joinSchema]

/-- `reduce(join_schema).unwrap_or(Never)` on the schemas of the members. -/
def joinSchemas : List PhenixSchema → PhenixSchema
  | [] => .never
  | schema :: schemas => schemas.foldl joinSchema schema

mutual
/-- `PhenixValue::schema`. -/
def PhenixValue.schema : PhenixValue → PhenixSchema
  | .unit => .unit
  | .bool _ => .bool
  | .i64 _ => .i64
  | .u64 _ => .u64
  | .f64 _ => .f64
  | .string _ => .string
  | .bytes _ => .bytes
  | .option (some value) => .option value.schema
  | .option none => .option .never
  | .list values => .array (joinSchemas (schemas values)) values.length
  | .map ⟨keys,_,val⟩ => .map (joinSchemas (keys.attach.map fun ⟨key,h⟩ => (val key h).schema))
  | .table ⟨keys,sorted,val⟩ => .table ⟨keys,sorted,fun key h => (val key h).schema⟩
  | .variant tag value => .variant (empty.insert tag value.schema)
  | .callable reference => .callable reference.contract .any .never
  | .object reference => .object reference.contract

def schemas : List PhenixValue → List PhenixSchema
  | [] => []
  | value :: values => value.schema :: schemas values
end

open PhenixValue (list schema)
example : (PhenixValue.option none).schema = .option .never := by simp [schema]

def PhenixValue.satisfies (self : PhenixValue) (schema : PhenixSchema) : SchemaCompatibility :=
  schema.accepts self.schema

/-- The reference relation: the clauses under which `parse` succeeds, except
that a table may carry keys that the schema does not name. -/
def Matches : PhenixSchema → PhenixValue → Prop
  | .any, _ => True
  | .unit, .unit | .bool, .bool _ | .i64, .i64 _ | .u64, .u64 _ | .f64, .f64 _
  | .string, .string _ | .bytes, .bytes _ => True
  | .option t, .option (some v) => Matches t v
  | .option _, .option none => True
  | .array t len, .list vs => vs.length = len ∧ ∀ v ∈ vs, Matches t v
  | .list t, .list vs => ∀ v ∈ vs, Matches t v
  | .map t, .map m => ∀ k v, m.get? k = some v → Matches t v
  | .table ⟨keys,_,val⟩, .table n => ∀ k (h : k ∈ keys), ∃ v, n.get? k = some v ∧ Matches (val k h) v
  | .variant ⟨keys,_,val⟩, .variant tag v => ∃ h : tag ∈ keys, Matches (val tag h) v
  | .callable c _ _, .callable r => c = r.contract
  | .object c, .object r => c = r.contract
  | _, _ => False

example : Matches (.list .unit) (.list []) := by simp [Matches]

theorem matches_table (m : BTreeMap Key PhenixSchema) (n : BTreeMap Key PhenixValue) :
    Matches (.table m) (.table n) ↔
      ∀ k t, m.get? k = some t → ∃ v, n.get? k = some v ∧ Matches t v := by
  constructor
  · intro h k t hk
    obtain ⟨hm,rfl⟩ := m.get?_eq_some.mp hk
    exact h k hm
  · intro h k hk
    exact h k _ (m.get?_of_mem hk)

theorem matches_variant (m : BTreeMap Key PhenixSchema) (tag : Key) (v : PhenixValue) :
    Matches (.variant m) (.variant tag v) ↔ ∃ t, m.get? tag = some t ∧ Matches t v := by
  constructor
  · rintro ⟨h,hv⟩
    exact ⟨_,m.get?_of_mem h,hv⟩
  · rintro ⟨t,ht,hv⟩
    obtain ⟨hm,rfl⟩ := m.get?_eq_some.mp ht
    exact ⟨hm,hv⟩

/-- Parsing is matching without extra keys. -/
theorem matches_of_parse {t : PhenixSchema} {v : PhenixValue} (h : parse t v = .ok ()) :
    Matches t v := by
  induction t using induct generalizing v with
  | any => trivial
  | never => cases v <;> simp [parse] at h
  | unit | bool | i64 | u64 | f64 | string | bytes =>
    cases v <;> trivial
  | option t ih =>
    cases v with
    | option v =>
      cases v with
      | none => trivial
      | some v => exact ih h
    | _ => simp [parse] at h
  | array t len ih =>
    cases v with
    | list vs =>
      obtain ⟨hl,hv⟩ := (parse_array t len vs).mp h
      exact ⟨hl,fun v hm => ih (hv v hm)⟩
    | _ => simp [parse] at h
  | list t ih =>
    cases v with
    | list vs => exact fun v hm => ih ((parse_list t vs).mp h v hm)
    | _ => simp [parse] at h
  | map t ih =>
    cases v with
    | map m => exact fun k v hk => ih ((parse_map t m).mp h k v hk)
    | _ => simp [parse] at h
  | table m ih =>
    cases v with
    | table n =>
      rw [matches_table]
      intro k t hk
      obtain ⟨v,hv,hp⟩ := ((parse_table m n).mp h).1 k t hk
      exact ⟨v,hv,ih k t hk hp⟩
    | _ => simp [parse] at h
  | variant m ih =>
    cases v with
    | variant tag v =>
      obtain ⟨t,ht,hp⟩ := (parse_variant m tag v).mp h
      exact (matches_variant m tag v).mpr ⟨t,ht,ih tag t ht hp⟩
    | _ => simp [parse] at h
  | callable c i o =>
    cases v with
    | callable r => exact (parseReferenceContract_eq_ok c r.contract).mp h
    | _ => simp [parse] at h
  | object c =>
    cases v with
    | object r => exact (parseReferenceContract_eq_ok c r.contract).mp h
    | _ => simp [parse] at h

/-- The schemas that inference yields: every callable takes anything and
promises nothing. Among these the join is a least upper bound. -/
def Inferred : PhenixSchema → Prop
  | .option t | .list t | .map t | .array t _ => Inferred t
  | .table ⟨keys,_,val⟩ | .variant ⟨keys,_,val⟩ => ∀ k (h : k ∈ keys), Inferred (val k h)
  | .callable _ i o => i = .any ∧ o = .never
  | _ => True

example : Inferred (.list .unit) := by simp [Inferred]

theorem inferred_table {m : BTreeMap Key PhenixSchema} :
    Inferred (.table m) ↔ ∀ k t, m.get? k = some t → Inferred t := by
  constructor
  · intro h k t hk
    obtain ⟨hm,rfl⟩ := m.get?_eq_some.mp hk
    exact h k hm
  · intro h k hk
    exact h k _ (m.get?_of_mem hk)

theorem inferred_variant {m : BTreeMap Key PhenixSchema} :
    Inferred (.variant m) ↔ ∀ k t, m.get? k = some t → Inferred t :=
  inferred_table

/-- The fields that a joined table keeps. -/
theorem get?_join_table (l r : BTreeMap Key PhenixSchema) (k : Key) :
    (collect l.keys l.sorted fun key h =>
      (r.get? key).map fun t => joinSchema (l.val key h) t).get? k =
      (l.get? k).bind fun s => (r.get? k).map fun t => joinSchema s t := by
  rw [get?_collect]
  by_cases h : k ∈ l.keys <;> simp [get?, h]

/-- The tags that a joined variant may emit. -/
theorem get?_join_variant (l r : BTreeMap Key PhenixSchema) (k : Key) :
    (r.toList.foldl (fun left e => left.insert e.1
      (if h : e.1 ∈ l.keys then joinSchema (l.val e.1 h) e.2 else e.2)) l).get? k =
      match l.get? k, r.get? k with
      | some s, some t => some (joinSchema s t)
      | s, t => s.or t := by
  rw [get?_foldl_insert_toList r l
    fun key t => if h : key ∈ l.keys then joinSchema (l.val key h) t else t]
  by_cases h : k ∈ l.keys
  · cases r.get? k <;> simp [get?, h]
  · cases r.get? k <;> simp [get?, h]

variable {a b : PhenixSchema}

theorem inferred_joinSchema (ha : Inferred a) (hb : Inferred b) : Inferred (joinSchema a b) := by
  fun_induction joinSchema a b with
  | case1 => exact ha
  | case2 => exact hb
  | case3 => exact ha
  | case4 | case5 | case16 | case18 | case19 => trivial
  | case6 _ _ _ ih | case7 _ _ _ _ ih | case8 _ _ _ _ _ _ ih | case9 _ _ _ _ ih
  | case10 _ _ _ _ ih | case11 _ _ _ ih | case12 _ _ _ ih => exact ih ha hb
  | case13 keys sorted val right _ ih =>
    rw [inferred_table]
    intro k t hk
    rw [get?_join_table ⟨keys,sorted,val⟩ right k] at hk
    obtain ⟨s,hs,hk⟩ := Option.bind_eq_some_iff.mp hk
    obtain ⟨r,hr,rfl⟩ := Option.map_eq_some_iff.mp hk
    obtain ⟨hm,rfl⟩ := (get?_eq_some _).mp hs
    exact ih k hm r (ha k hm) (inferred_table.mp hb k r hr)
  | case14 keys sorted val right _ ih =>
    rw [inferred_variant]
    intro k t hk
    rw [get?_join_variant ⟨keys,sorted,val⟩ right k] at hk
    cases hs : get? ⟨keys,sorted,val⟩ k with
    | none =>
      simp only [hs, Option.none_or] at hk
      exact inferred_variant.mp hb k t hk
    | some s =>
      obtain ⟨hm,rfl⟩ := (get?_eq_some _).mp hs
      cases hr : right.get? k with
      | none =>
        simp only [hs, hr, Option.some_or, Option.some.injEq] at hk
        exact hk ▸ ha k hm
      | some r =>
        simp only [hs, hr, Option.some.injEq] at hk
        exact hk ▸ ih (k,r) hm (ha k hm) (inferred_variant.mp hb k r hr)
  | case15 => trivial
  | case17 => exact ha

/-- Nothing but `any` is above two schemas of different families. -/
theorem refines_any_iff (h : ∀ t, Refines a t → Refines b t → t = .any) (t : PhenixSchema) :
    Refines .any t ↔ Refines a t ∧ Refines b t := by
  rw [refines_any_left]
  constructor
  · rintro rfl
    exact ⟨.any _,.any _⟩
  · rintro ⟨ha,hb⟩
    exact h t ha hb

/-- On inferred schemas the join is the least upper bound. -/
theorem joinSchema_refines (ha : Inferred a) (hb : Inferred b) (t : PhenixSchema) :
    Refines (joinSchema a b) t ↔ Refines a t ∧ Refines b t := by
  fun_induction joinSchema a b generalizing t with
  | case1 => simp
  | case2 => simp [Refines.never]
  | case3 => simp [Refines.never]
  | case4 b =>
    refine refines_any_iff (fun t h _ => ?_) t
    exact refines_any_left.mp h
  | case5 a =>
    refine refines_any_iff (fun t _ h => ?_) t
    exact refines_any_left.mp h
  | case6 l r _ ih =>
    cases t with
    | any => simp [Refines.any]
    | option t => simp [ih ha hb]
    | _ => exact ⟨nofun,nofun⟩
  | case7 l r len _ ih =>
    cases t with
    | any => simp [Refines.any]
    | array t k =>
      rw [refines_array, refines_array, refines_array, ih ha hb]
      tauto
    | list t => simp [ih ha hb]
    | _ => exact ⟨nofun,nofun⟩
  | case8 l m r n hne _ ih =>
    cases t with
    | any => simp [Refines.any]
    | list t => simp [ih ha hb]
    | array t k =>
      constructor
      · intro h
        cases h
      · rintro ⟨h,h'⟩
        exact absurd ((refines_array.mp h).1.trans (refines_array.mp h').1.symm) hne
    | _ => exact ⟨nofun,nofun⟩
  | case9 _ _ _ _ ih | case10 _ _ _ _ ih | case11 _ _ _ ih =>
    cases t with
    | any => simp [Refines.any]
    | list t => simp [ih ha hb]
    | _ => exact ⟨nofun,nofun⟩
  | case12 l r _ ih =>
    cases t with
    | any => simp [Refines.any]
    | map t => simp [ih ha hb]
    | _ => exact ⟨nofun,nofun⟩
  | case13 keys sorted val right _ ih =>
    cases t with
    | any => simp [Refines.any]
    | table n =>
      simp only [refines_table, ← forall_and]
      refine forall₂_congr fun k t => ?_
      rw [get?_join_table ⟨keys,sorted,val⟩ right k]
      cases hs : get? ⟨keys,sorted,val⟩ k with
      | none => simp
      | some s =>
        obtain ⟨hm,rfl⟩ := (get?_eq_some _).mp hs
        cases hr : right.get? k with
        | none => simp
        | some r =>
          have hj := ih k hm r (ha k hm) (inferred_table.mp hb k r hr) t
          simp [hj, imp_and]
    | _ => exact ⟨nofun,nofun⟩
  | case14 keys sorted val right _ ih =>
    cases t with
    | any => simp [Refines.any]
    | variant n =>
      rw [refines_variant, refines_variant, refines_variant, ← forall_and]
      refine forall_congr' fun k => ?_
      rw [get?_join_variant ⟨keys,sorted,val⟩ right k]
      cases hs : get? ⟨keys,sorted,val⟩ k with
      | none => cases hr : right.get? k <;> simp
      | some s =>
        obtain ⟨hm,rfl⟩ := (get?_eq_some _).mp hs
        cases hr : right.get? k with
        | none => simp
        | some r =>
          have hj := ih (k,r) hm (ha k hm) (inferred_variant.mp hb k r hr)
          cases ht : n.get? k with
          | none => simp
          | some t => simpa using hj t
    | _ => exact ⟨nofun,nofun⟩
  | case15 => simp
  | case16 l r hne =>
    refine refines_any_iff (fun t h h' => ?_) t
    cases h with
    | any => rfl
    | refl => exact absurd (refines_object.mp h').symm hne
  | case17 l li lo r ri ro heq =>
    obtain ⟨rfl,rfl,rfl⟩ := heq
    simp
  | case18 l li lo r ri ro hne =>
    refine refines_any_iff (fun t h h' => ?_) t
    obtain ⟨rfl,rfl⟩ := ha
    obtain ⟨rfl,rfl⟩ := hb
    cases t with
    | any => rfl
    | callable c i o =>
      have hc := (refines_callable.mp h).1.trans (refines_callable.mp h').1.symm
      exact absurd ⟨hc,rfl,rfl⟩ hne
    | _ => cases h
  | case19 a b hne hna haa hnb hab ho harr hal hla hl hm ht hv hobj hc =>
    refine refines_any_iff (fun t h h' => ?_) t
    cases h <;> cases h' <;> first
      | rfl
      | exact (hne rfl).elim
      | exact (hna rfl).elim
      | exact (haa rfl).elim
      | exact (hnb rfl).elim
      | exact (hab rfl).elim
      | exact (ho _ _ rfl rfl).elim
      | exact (harr _ _ _ _ rfl rfl).elim
      | exact (hal _ _ _ rfl rfl).elim
      | exact (hla _ _ _ rfl rfl).elim
      | exact (hl _ _ rfl rfl).elim
      | exact (hm _ _ rfl rfl).elim
      | exact (ht _ _ _ _ rfl rfl).elim
      | exact (hv _ _ _ _ rfl rfl).elim
      | exact (hc _ _ _ _ _ _ rfl rfl).elim

theorem inferred_joinSchemas {ts : List PhenixSchema} (h : ∀ t ∈ ts, Inferred t) :
    Inferred (joinSchemas ts) := by
  cases ts with
  | nil => trivial
  | cons s ts =>
    have hfold : ∀ (ts : List PhenixSchema) (s : PhenixSchema), Inferred s →
        (∀ t ∈ ts, Inferred t) → Inferred (ts.foldl joinSchema s) := by
      intro ts
      induction ts with
      | nil => exact fun _ hs _ => hs
      | cons t ts ih =>
        intro s hs ht
        exact ih _ (inferred_joinSchema hs (ht t (by simp))) fun u hu => ht u (by simp [hu])
    exact hfold ts s (h s (by simp)) fun t ht => h t (by simp [ht])

/-- The joined schema of members is above exactly the common upper bounds. -/
theorem joinSchemas_refines {ts : List PhenixSchema} (h : ∀ t ∈ ts, Inferred t)
    (u : PhenixSchema) : Refines (joinSchemas ts) u ↔ ∀ t ∈ ts, Refines t u := by
  cases ts with
  | nil => simp [joinSchemas, Refines.never]
  | cons s ts =>
    have hfold : ∀ (ts : List PhenixSchema) (s : PhenixSchema), Inferred s →
        (∀ t ∈ ts, Inferred t) →
        (Refines (ts.foldl joinSchema s) u ↔ Refines s u ∧ ∀ t ∈ ts, Refines t u) := by
      intro ts
      induction ts with
      | nil => simp
      | cons t ts ih =>
        intro s hs ht
        rw [List.foldl_cons, ih _ (inferred_joinSchema hs (ht t (by simp)))
          fun v hv => ht v (by simp [hv]), joinSchema_refines hs (ht t (by simp)), and_assoc,
          List.forall_mem_cons]
    rw [List.forall_mem_cons]
    exact hfold ts s (h s (by simp)) fun t ht => h t (by simp [ht])

theorem schemas_eq_map (vs : List PhenixValue) : schemas vs = vs.map schema := by
  induction vs with
  | nil => rfl
  | cons v vs ih => rw [schemas, ih, List.map_cons]

theorem schema_list (vs : List PhenixValue) :
    (list vs).schema = .array (joinSchemas (vs.map schema)) vs.length := by
  rw [schema, schemas_eq_map]

theorem schema_map (m : BTreeMap String PhenixValue) :
    (PhenixValue.map m).schema = .map (joinSchemas (m.values.map schema)) := by
  rw [values, List.map_map]
  rfl

theorem schema_table (m : BTreeMap Key PhenixValue) :
    (PhenixValue.table m).schema = .table (m.mapVal schema) := rfl

/-- Inference yields inferred schemas. -/
theorem inferred_schema (v : PhenixValue) : Inferred v.schema := by
  induction v using PhenixValue.induct with
  | unit | bool | i64 | u64 | f64 | string | bytes | none | object => trivial
  | some v ih => exact ih
  | list vs ih =>
    rw [schema_list]
    refine inferred_joinSchemas fun t ht => ?_
    obtain ⟨v,hv,rfl⟩ := List.mem_map.mp ht
    exact ih v hv
  | map m ih =>
    rw [schema_map]
    refine inferred_joinSchemas fun t ht => ?_
    obtain ⟨v,hv,rfl⟩ := List.mem_map.mp ht
    obtain ⟨k,hk⟩ := m.mem_values.mp hv
    exact ih k v hk
  | table m ih =>
    rw [schema_table, inferred_table]
    intro k t hk
    obtain ⟨v,hv,rfl⟩ := Option.map_eq_some_iff.mp (get?_mapVal m _ k ▸ hk)
    exact ih k v hv
  | variant tag v ih =>
    rw [schema, inferred_variant]
    intro k t hk
    by_cases h : k = tag
    · subst h
      rw [get?_insert_self] at hk
      exact Option.some.inj hk ▸ ih
    · simp [get?_insert_of_ne _ _ h] at hk
  | callable r => exact ⟨rfl,rfl⟩

/-- A value's schema refines exactly the schemas that the value matches. -/
theorem schema_refines_iff (v : PhenixValue) (t : PhenixSchema) :
    Refines v.schema t ↔ Matches t v := by
  induction v using PhenixValue.induct generalizing t with
  | unit | bool | i64 | u64 | f64 | string | bytes =>
    cases t <;> first
      | exact iff_of_true (.any _) trivial
      | exact iff_of_true (.refl _) trivial
      | exact ⟨nofun,elim⟩
  | none =>
    cases t with
    | any => exact iff_of_true (.any _) trivial
    | option t => exact iff_of_true (.option (.never t)) trivial
    | _ => exact ⟨nofun,elim⟩
  | some v ih =>
    cases t with
    | any => exact iff_of_true (.any _) trivial
    | option t => exact refines_option.trans (ih t)
    | _ => exact ⟨nofun,elim⟩
  | list vs ih =>
    have hall (t : PhenixSchema) :
        Refines (joinSchemas (vs.map schema)) t ↔ ∀ v ∈ vs, Matches t v := by
      rw [joinSchemas_refines]
      · simp only [List.forall_mem_map]
        exact forall₂_congr fun v hv => ih v hv t
      · simp only [List.forall_mem_map]
        exact fun v _ => inferred_schema v
    rw [schema_list]
    cases t with
    | any => exact iff_of_true (.any _) trivial
    | array t len => exact refines_array.trans (and_congr_right fun _ => hall t)
    | list t => exact refines_array_list.trans (hall t)
    | _ => exact ⟨nofun,elim⟩
  | map m ih =>
    have hall (t : PhenixSchema) : Refines (joinSchemas (m.values.map schema)) t ↔
        ∀ k v, m.get? k = some v → Matches t v := by
      rw [joinSchemas_refines]
      · simp only [List.forall_mem_map, m.mem_values]
        exact ⟨fun h k v hk => (ih k v hk t).mp (h v ⟨k,hk⟩),
          fun h v ⟨k,hk⟩ => (ih k v hk t).mpr (h k v hk)⟩
      · simp only [List.forall_mem_map]
        exact fun v _ => inferred_schema v
    rw [schema_map]
    cases t with
    | any => exact iff_of_true (.any _) trivial
    | map t => exact refines_map.trans (hall t)
    | _ => exact ⟨nofun,elim⟩
  | table m ih =>
    rw [schema_table]
    cases t with
    | any => exact iff_of_true (.any _) trivial
    | table n =>
      rw [refines_table, matches_table]
      refine forall₃_congr fun k t _ => ?_
      rw [get?_mapVal]
      cases hk : m.get? k with
      | none => simp
      | some v => simp [ih k v hk t]
    | _ => exact ⟨nofun,elim⟩
  | variant tag v ih =>
    rw [schema]
    cases t with
    | any => exact iff_of_true (.any _) trivial
    | variant n =>
      rw [refines_variant, matches_variant]
      constructor
      · intro h
        obtain ⟨t,ht,hr⟩ := h tag _ (get?_insert_self _ _ _)
        exact ⟨t,ht,(ih t).mp hr⟩
      · rintro ⟨t,ht,hm⟩ k s hs
        by_cases hk : k = tag
        · subst hk
          rw [get?_insert_self] at hs
          cases hs
          exact ⟨t,ht,(ih t).mpr hm⟩
        · simp [get?_insert_of_ne _ _ hk] at hs
    | _ => exact ⟨nofun,elim⟩
  | callable r =>
    cases t with
    | any => exact iff_of_true (.any _) trivial
    | callable c i o =>
      rw [schema, refines_callable]
      exact ⟨fun h => h.1.symm,fun h => ⟨h.symm,.any _,.never _⟩⟩
    | _ => exact ⟨nofun,elim⟩
  | object r =>
    cases t with
    | any => exact iff_of_true (.any _) trivial
    | object c => exact refines_object.trans eq_comm
    | _ => exact ⟨nofun,elim⟩

/-- `satisfies` decides the reference relation, for values of any depth. -/
theorem PhenixValue.satisfies_iff (v : PhenixValue) (t : PhenixSchema) :
    (∀ m, v.satisfies t ≠ .incompatible m) ↔ Matches t v :=
  (accepts_iff t v.schema).trans (schema_refines_iff v t)

theorem PhenixValue.satisfies_of_parse {v : PhenixValue} {t : PhenixSchema}
    (h : parse t v = .ok ()) : v.satisfies t = .exact ∨ v.satisfies t = .compatible := by
  have hs := (v.satisfies_iff t).mpr (matches_of_parse h)
  cases hv : v.satisfies t with
  | exact => exact .inl rfl
  | compatible => exact .inr rfl
  | incompatible m => exact absurd hv (hs m)

/-- Inference followed by comparison agrees with the direct walk that lets
tables carry extra keys, and so accepts whatever parses. -/
theorem satisfies_agrees_with_parse (t : PhenixSchema) (v : PhenixValue) :
    ((∀ m, v.satisfies t ≠ .incompatible m) ↔ Matches t v) ∧
      (parse t v = .ok () → v.satisfies t = .exact ∨ v.satisfies t = .compatible) :=
  ⟨v.satisfies_iff t,PhenixValue.satisfies_of_parse⟩

/-- A list whose members share one field is accepted where that field is asked. -/
theorem satisfies_agrees_with_parse_list :
    parse (.list .any) (.list [.unit,.bool true]) = .ok () ∧
      ((PhenixValue.list [.unit,.bool true]).satisfies (.list .any) = .exact ∨
        (PhenixValue.list [.unit,.bool true]).satisfies (.list .any) = .compatible) :=
  ⟨rfl,(satisfies_agrees_with_parse (.list .any) (.list [.unit,.bool true])).2 rfl⟩

/-- Compatibility is a partial order on schemas, and acceptance carries over
to every value of an accepted schema. -/
theorem schemaCompatible_partial_order :
    (∀ a path, schemaCompatible a a path = .ok ()) ∧
    (∀ a b c p q r, schemaCompatible a b p = .ok () → schemaCompatible b c q = .ok () →
      schemaCompatible a c r = .ok ()) ∧
    (∀ a b p q, schemaCompatible a b p = .ok () → schemaCompatible b a q = .ok () → a = b) ∧
    (∀ provided accepted v, (∀ m, accepted.accepts provided ≠ .incompatible m) →
      parse provided v = .ok () → ∀ m, v.satisfies accepted ≠ .incompatible m) := by
  simp only [schemaCompatible_iff]
  refine ⟨fun a _ => .refl a,fun _ _ _ _ _ _ => Refines.trans,fun _ _ _ _ => Refines.antisymm,
    fun provided accepted v ha hp => ?_⟩
  have hv : Refines v.schema provided := (schema_refines_iff v provided).mpr (matches_of_parse hp)
  exact (accepts_iff accepted v.schema).mpr (hv.trans ((accepts_iff accepted provided).mp ha))

theorem schemaCompatible_partial_order_array :
    schemaCompatible (.array .never 2) (.list .unit) [] = .ok () :=
  schemaCompatible_partial_order.2.1 (.array .never 2) (.array .unit 2) (.list .unit) [] [] []
    ((schemaCompatible_iff _ _ _).mpr (.array 2 (.never _)))
    ((schemaCompatible_iff _ _ _).mpr (.arrayList 2 (.refl _)))

end PhenixConductor.Contract
