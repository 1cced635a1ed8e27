import PhenixConductor.Contract.Parse

/-! # Schema compatibility

`schemaCompatible` decides whether a provided schema may stand where another is accepted.
-/
namespace PhenixConductor.Contract
open Collections PhenixSchema

structure SchemaMismatch where
  path : List String
  reason : String
  deriving DecidableEq

inductive SchemaCompatibility where
  | exact
  | compatible
  | incompatible (mismatch : SchemaMismatch)
  deriving DecidableEq

def nestedPath (path : List String) (segment : String) : List String := path ++ [segment]

def kindMismatch (path : List String) (provided accepted : PhenixSchema) : SchemaMismatch :=
  ⟨path,"provided " ++ provided.kind.text ++ " does not satisfy required " ++ accepted.kind.text⟩

def schemaCompatible (provided accepted : PhenixSchema) (path : List String) :
    Except SchemaMismatch Unit :=
  if provided = accepted then .ok ()
  else match provided, accepted with
  | .never, _ => .ok ()
  | _, .any => .ok ()
  | .option provided, .option accepted => schemaCompatible provided accepted path
  | .list provided, .list accepted => schemaCompatible provided accepted path
  | .map provided, .map accepted => schemaCompatible provided accepted path
  | .array provided providedLen, .array accepted acceptedLen =>
    if providedLen ≠ acceptedLen then
      .error ⟨path,"provided array length " ++ toString providedLen ++
        " does not satisfy required length " ++ toString acceptedLen⟩
    else schemaCompatible provided accepted path
  | .array provided _, .list accepted => schemaCompatible provided accepted path
  | .table provided, .table accepted => accepted.keys.attach.forM fun ⟨key,ha⟩ =>
    if hp : key ∈ provided.keys then
      schemaCompatible (provided.val key hp) (accepted.val key ha) (nestedPath path key.text)
    else .error ⟨nestedPath path key.text,"required field is not provided"⟩
  | .variant provided, .variant accepted => provided.keys.attach.forM fun ⟨key,hp⟩ =>
    if ha : key ∈ accepted.keys then
      schemaCompatible (provided.val key hp) (accepted.val key ha) (nestedPath path key.text)
    else .error ⟨nestedPath path key.text,
      "provider may emit a variant the consumer does not accept"⟩
  | .callable providedContract providedInput providedOutput,
    .callable acceptedContract acceptedInput acceptedOutput =>
    if providedContract ≠ acceptedContract then
      .error ⟨path,"provided contract " ++ providedContract.text ++
        " does not satisfy " ++ acceptedContract.text⟩
    else do
      -- the consumer's input flows to the provider, so the roles are exchanged
      schemaCompatible acceptedInput providedInput (nestedPath path "input")
      schemaCompatible providedOutput acceptedOutput (nestedPath path "output")
  | .object provided, .object accepted =>
    if provided = accepted then .ok ()
    else .error (kindMismatch path (.object provided) (.object accepted))
  | provided, accepted => .error (kindMismatch path provided accepted)
termination_by provided.size + accepted.size
decreasing_by
  all_goals simp only [size]
  all_goals try omega
  · have h1 := size_val_lt_table provided hp
    have h2 := size_val_lt_table accepted ha
    simp only [size] at h1 h2
    omega
  · have h1 := size_val_lt_variant provided hp
    have h2 := size_val_lt_variant accepted ha
    simp only [size] at h1 h2
    omega

/-- `Type::accepts`. -/
def PhenixSchema.accepts (self provided : PhenixSchema) : SchemaCompatibility :=
  if self = provided then .exact
  else match schemaCompatible provided self [] with
    | .ok () => .compatible
    | .error mismatch => .incompatible mismatch

/-- `Refines p a`: whatever has schema `p` may be used where `a` is accepted. -/
inductive Refines : PhenixSchema → PhenixSchema → Prop
  | refl (t : PhenixSchema) : Refines t t
  | never (a : PhenixSchema) : Refines .never a
  | any (p : PhenixSchema) : Refines p .any
  | option {p a : PhenixSchema} : Refines p a → Refines (.option p) (.option a)
  | list {p a : PhenixSchema} : Refines p a → Refines (.list p) (.list a)
  | map {p a : PhenixSchema} : Refines p a → Refines (.map p) (.map a)
  | array {p a : PhenixSchema} (len : ℕ) : Refines p a → Refines (.array p len) (.array a len)
  | arrayList {p a : PhenixSchema} (len : ℕ) : Refines p a → Refines (.array p len) (.list a)
  | table {p a : BTreeMap Key PhenixSchema} : (∀ k ∈ a.keys, k ∈ p.keys) →
      (∀ k s t, p.get? k = some s → a.get? k = some t → Refines s t) → Refines (.table p) (.table a)
  | variant {p a : BTreeMap Key PhenixSchema} : (∀ k ∈ p.keys, k ∈ a.keys) →
      (∀ k s t, p.get? k = some s → a.get? k = some t → Refines s t) →
      Refines (.variant p) (.variant a)
  | callable {c : ContractId} {pi po ai ao : PhenixSchema} : Refines ai pi → Refines po ao →
      Refines (.callable c pi po) (.callable c ai ao)

section Inversion
variable {p a : PhenixSchema} {m n : BTreeMap Key PhenixSchema} {c d : ContractId}

@[simp] theorem refines_option : Refines (.option p) (.option a) ↔ Refines p a := by
  constructor
  · intro h
    cases h with
    | refl => exact .refl _
    | option h => exact h
  · exact .option

@[simp] theorem refines_list : Refines (.list p) (.list a) ↔ Refines p a := by
  constructor
  · intro h
    cases h with
    | refl => exact .refl _
    | list h => exact h
  · exact .list

@[simp] theorem refines_map : Refines (.map p) (.map a) ↔ Refines p a := by
  constructor
  · intro h
    cases h with
    | refl => exact .refl _
    | map h => exact h
  · exact .map

@[simp] theorem refines_array {k l : ℕ} :
    Refines (.array p k) (.array a l) ↔ k = l ∧ Refines p a := by
  constructor
  · intro h
    cases h with
    | refl => exact ⟨rfl,.refl _⟩
    | array _ h => exact ⟨rfl,h⟩
  · rintro ⟨rfl,h⟩
    exact .array k h

@[simp] theorem refines_array_list {k : ℕ} : Refines (.array p k) (.list a) ↔ Refines p a := by
  constructor
  · intro h
    cases h with
    | arrayList _ h => exact h
  · exact .arrayList k

theorem refines_table : Refines (.table m) (.table n) ↔
    ∀ k t, n.get? k = some t → ∃ s, m.get? k = some s ∧ Refines s t := by
  constructor
  · intro h k t ht
    cases h with
    | refl => exact ⟨t,ht,.refl t⟩
    | table hk h =>
      obtain ⟨hn,-⟩ := n.get?_eq_some.mp ht
      exact ⟨_,m.get?_of_mem (hk k hn),h k _ t (m.get?_of_mem (hk k hn)) ht⟩
  · intro h
    refine .table (fun k hk => ?_) (fun k s t hs ht => ?_)
    · obtain ⟨s,hs,-⟩ := h k _ (n.get?_of_mem hk)
      exact (m.get?_eq_some.mp hs).1
    · obtain ⟨s',hs',hr⟩ := h k t ht
      cases hs.symm.trans hs'
      exact hr

theorem refines_variant : Refines (.variant m) (.variant n) ↔
    ∀ k s, m.get? k = some s → ∃ t, n.get? k = some t ∧ Refines s t := by
  constructor
  · intro h k s hs
    cases h with
    | refl => exact ⟨s,hs,.refl s⟩
    | variant hk h =>
      obtain ⟨hm,-⟩ := m.get?_eq_some.mp hs
      exact ⟨_,n.get?_of_mem (hk k hm),h k s _ hs (n.get?_of_mem (hk k hm))⟩
  · intro h
    refine .variant (fun k hk => ?_) (fun k s t hs ht => ?_)
    · obtain ⟨t,ht,-⟩ := h k _ (m.get?_of_mem hk)
      exact (n.get?_eq_some.mp ht).1
    · obtain ⟨t',ht',hr⟩ := h k s hs
      cases ht.symm.trans ht'
      exact hr

@[simp] theorem refines_callable {pi po ai ao : PhenixSchema} :
    Refines (.callable c pi po) (.callable d ai ao) ↔ c = d ∧ Refines ai pi ∧ Refines po ao := by
  constructor
  · intro h
    cases h with
    | refl => exact ⟨rfl,.refl _,.refl _⟩
    | callable hi ho => exact ⟨rfl,hi,ho⟩
  · rintro ⟨rfl,hi,ho⟩
    exact .callable hi ho

@[simp] theorem refines_object : Refines (.object c) (.object d) ↔ c = d := by
  constructor
  · intro h
    cases h
    rfl
  · rintro rfl
    exact .refl _

theorem refines_never_right : Refines p .never ↔ p = .never := by
  constructor
  · intro h
    cases h <;> rfl
  · rintro rfl
    exact .refl _

theorem refines_any_left : Refines .any a ↔ a = .any := by
  constructor
  · intro h
    cases h <;> rfl
  · rintro rfl
    exact .refl _

end Inversion

/-- The check decides `Refines`, whatever path it reports from. -/
theorem schemaCompatible_iff (p a : PhenixSchema) (path : List String) :
    schemaCompatible p a path = .ok () ↔ Refines p a := by
  fun_induction schemaCompatible p a path with
  | case1 t => simp [Refines.refl]
  | case2 => simp [Refines.never]
  | case3 => simp [Refines.any]
  | case4 _ _ _ _ ih => simp [ih]
  | case5 _ _ _ _ ih => simp [ih]
  | case6 _ _ _ _ ih => simp [ih]
  | case7 _ _ _ _ _ hne => simp [hne]
  | case8 _ _ _ _ _ heq _ ih => simp_all
  | case9 _ _ _ _ _ ih => simp [ih]
  | case10 path p a _ ih =>
    rw [forM_eq_ok, refines_table]
    constructor
    · intro h k t ht
      obtain ⟨ha,rfl⟩ := a.get?_eq_some.mp ht
      have hk := h ⟨k,ha⟩ (List.mem_attach _ _)
      by_cases hp : k ∈ p.keys
      · exact ⟨_,p.get?_of_mem hp,(ih k ha hp).mp (by simpa [hp] using hk)⟩
      · simp [hp] at hk
    · rintro h ⟨k,ha⟩ -
      obtain ⟨s,hs,hr⟩ := h k _ (a.get?_of_mem ha)
      obtain ⟨hp,rfl⟩ := p.get?_eq_some.mp hs
      simpa [hp] using (ih k ha hp).mpr hr
  | case11 path p a _ ih =>
    rw [forM_eq_ok, refines_variant]
    constructor
    · intro h k s hs
      obtain ⟨hp,rfl⟩ := p.get?_eq_some.mp hs
      have hk := h ⟨k,hp⟩ (List.mem_attach _ _)
      by_cases ha : k ∈ a.keys
      · exact ⟨_,a.get?_of_mem ha,(ih k hp ha).mp (by simpa [ha] using hk)⟩
      · simp [ha] at hk
    · rintro h ⟨k,hp⟩ -
      obtain ⟨t,ht,hr⟩ := h k _ (p.get?_of_mem hp)
      obtain ⟨ha,rfl⟩ := a.get?_eq_some.mp ht
      simpa [ha] using (ih k hp ha).mpr hr
  | case12 _ _ _ _ _ _ _ hne => simp [hne]
  | case13 _ _ _ _ _ _ _ heq _ ihi iho =>
    rw [seq_eq_ok]
    simp_all
  | case14 => simp
  | case15 _ _ _ hne => simp [hne]
  | case16 path p a hnever hany hoption hlist hmap harray hal htable hvariant hcall _ hne =>
    simp only [reduceCtorEq, false_iff]
    intro h
    cases h with
    | refl => exact hne rfl
    | never => exact hnever rfl
    | any => exact hany rfl
    | option => exact hoption _ _ rfl rfl
    | list => exact hlist _ _ rfl rfl
    | map => exact hmap _ _ rfl rfl
    | array => exact harray _ _ _ _ rfl rfl
    | arrayList => exact hal _ _ _ rfl rfl
    | table => exact htable _ _ rfl rfl
    | variant => exact hvariant _ _ rfl rfl
    | callable => exact hcall _ _ _ _ _ _ rfl rfl

/-- The middle schema carries the induction, so that the contravariant input
of a callable meets the same hypothesis. -/
theorem Refines.trans {a b c : PhenixSchema} (hab : Refines a b) (hbc : Refines b c) :
    Refines a c := by
  induction b using induct generalizing a c with
  | any =>
    rw [refines_any_left.mp hbc]
    exact .any a
  | never =>
    rw [refines_never_right.mp hab]
    exact .never c
  | unit | bool | i64 | u64 | f64 | string | bytes | object =>
    cases hab with
    | refl => exact hbc
    | never => exact .never c
  | option b ih =>
    cases hab with
    | refl => exact hbc
    | never => exact .never c
    | option hab =>
      cases hbc with
      | refl => exact .option hab
      | any => exact .any _
      | option hbc => exact .option (ih hab hbc)
  | list b ih =>
    cases hab with
    | refl => exact hbc
    | never => exact .never c
    | list hab =>
      cases hbc with
      | refl => exact .list hab
      | any => exact .any _
      | list hbc => exact .list (ih hab hbc)
    | arrayList len hab =>
      cases hbc with
      | refl => exact .arrayList len hab
      | any => exact .any _
      | list hbc => exact .arrayList len (ih hab hbc)
  | map b ih =>
    cases hab with
    | refl => exact hbc
    | never => exact .never c
    | map hab =>
      cases hbc with
      | refl => exact .map hab
      | any => exact .any _
      | map hbc => exact .map (ih hab hbc)
  | array b len ih =>
    cases hab with
    | refl => exact hbc
    | never => exact .never c
    | array _ hab =>
      cases hbc with
      | refl => exact .array len hab
      | any => exact .any _
      | array _ hbc => exact .array len (ih hab hbc)
      | arrayList _ hbc => exact .arrayList len (ih hab hbc)
  | table m ih =>
    cases hbc with
    | refl => exact hab
    | any => exact .any a
    | @table _ n hk h =>
      cases a with
      | never => exact .never _
      | table l =>
        rw [refines_table] at hab ⊢
        intro k t ht
        obtain ⟨s,hs,hst⟩ := refines_table.mp (.table hk h) k t ht
        obtain ⟨r,hr,hrs⟩ := hab k s hs
        exact ⟨r,hr,ih k s hs hrs hst⟩
      | _ => cases hab
  | variant m ih =>
    cases hbc with
    | refl => exact hab
    | any => exact .any a
    | @variant _ n hk h =>
      cases a with
      | never => exact .never _
      | variant l =>
        rw [refines_variant] at hab ⊢
        intro k r hr
        obtain ⟨s,hs,hrs⟩ := hab k r hr
        obtain ⟨t,ht,hst⟩ := refines_variant.mp (.variant hk h) k s hs
        exact ⟨t,ht,ih k s hs hrs hst⟩
      | _ => cases hab
  | callable d i o ihi iho =>
    cases hab with
    | refl => exact hbc
    | never => exact .never c
    | callable hi ho =>
      cases hbc with
      | refl => exact .callable hi ho
      | any => exact .any _
      | callable hi' ho' => exact .callable (ihi hi' hi) (iho ho ho')

theorem Refines.antisymm {a b : PhenixSchema} (hab : Refines a b) (hba : Refines b a) :
    a = b := by
  induction a using induct generalizing b with
  | any => exact (refines_any_left.mp hab).symm
  | never => exact (refines_never_right.mp hba).symm
  | unit | bool | i64 | u64 | f64 | string | bytes | object =>
    cases hab with
    | refl => rfl
    | any => cases hba
  | option a ih =>
    cases hab with
    | refl => rfl
    | any => cases hba
    | option hab => rw [ih hab (refines_option.mp hba)]
  | list a ih =>
    cases hab with
    | refl => rfl
    | any => cases hba
    | list hab => rw [ih hab (refines_list.mp hba)]
  | map a ih =>
    cases hab with
    | refl => rfl
    | any => cases hba
    | map hab => rw [ih hab (refines_map.mp hba)]
  | array a len ih =>
    cases hab with
    | refl => rfl
    | any => cases hba
    | array _ hab => rw [ih hab (refines_array.mp hba).2]
    | arrayList => cases hba
  | table m ih =>
    cases b with
    | any => cases hba
    | table n =>
      rw [refines_table] at hab hba
      congr 1
      ext1 k
      cases hm : m.get? k with
      | none =>
        cases hn : n.get? k with
        | none => rfl
        | some t =>
          obtain ⟨s,hs,-⟩ := hab k t hn
          simp [hm] at hs
      | some s =>
        obtain ⟨t,ht,hts⟩ := hba k s hm
        obtain ⟨s',hs',hst⟩ := hab k t ht
        cases hm.symm.trans hs'
        rw [ht, ih k s hm hst hts]
    | _ => cases hab
  | variant m ih =>
    cases b with
    | any => cases hba
    | variant n =>
      rw [refines_variant] at hab hba
      congr 1
      ext1 k
      cases hm : m.get? k with
      | none =>
        cases hn : n.get? k with
        | none => rfl
        | some t =>
          obtain ⟨s,hs,-⟩ := hba k t hn
          simp [hm] at hs
      | some s =>
        obtain ⟨t,ht,hst⟩ := hab k s hm
        obtain ⟨s',hs',hts⟩ := hba k t ht
        cases hm.symm.trans hs'
        rw [ht, ih k s hm hst hts]
    | _ => cases hab
  | callable c i o ihi iho =>
    cases hab with
    | refl => rfl
    | any => cases hba
    | callable hi ho =>
      obtain ⟨-,hi',ho'⟩ := refines_callable.mp hba
      rw [ihi hi' hi, iho ho ho']

instance (p a : PhenixSchema) : Decidable (Refines p a) :=
  decidable_of_iff _ (schemaCompatible_iff p a [])

/-- The verdict of `accepts` is the relation with the roles exchanged. -/
theorem PhenixSchema.accepts_iff (self provided : PhenixSchema) :
    (∀ m, self.accepts provided ≠ .incompatible m) ↔ Refines provided self := by
  rw [← schemaCompatible_iff provided self [], accepts]
  by_cases h : self = provided
  · subst h
    simp [(schemaCompatible_iff self self []).mpr (.refl _)]
  · cases hs : schemaCompatible provided self [] <;> simp [h]

end PhenixConductor.Contract
