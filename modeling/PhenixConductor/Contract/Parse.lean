import PhenixConductor.Contract.Value
import PhenixConductor.Collections.Fallible

/-! # The shape boundary

`parse` walks a schema and a value together and stops at the first mismatch.
-/
namespace PhenixConductor.Contract
open Collections

inductive ValueError where
  | typeMismatch (expected actual : TypeKind)
  | missingKey (key : Key)
  | unexpectedKey (key : Key)
  | unknownVariant (tag : Key)
  | contractMismatch (expected actual : ContractId)
  | invalidValue (message : String)
  deriving DecidableEq

/-- The `Display` text. -/
def ValueError.text : ValueError → String
  | .typeMismatch expected actual => "expected " ++ expected.text ++ ", got " ++ actual.text
  | .missingKey key => "missing key " ++ key.text
  | .unexpectedKey key => "unexpected key " ++ key.text
  | .unknownVariant tag => "unknown variant " ++ tag.text
  | .contractMismatch expected actual =>
    "expected contract " ++ expected.text ++ ", got " ++ actual.text
  | .invalidValue message => message

/-- `parse_table`, with each field's parser in place of its schema. -/
def parseTable (expected : BTreeMap Key (PhenixValue → Except ValueError Unit))
    (values : BTreeMap Key PhenixValue) : Except ValueError Unit := do
  expected.toList.forM fun (key,parseField) =>
    match values.get? key with
    | none => .error (.missingKey key)
    | some value => parseField value
  match values.keys.find? (· ∉ expected.keys) with
  | some key => .error (.unexpectedKey key)
  | none => .ok ()

def parseReferenceContract (expected actual : ContractId) : Except ValueError Unit :=
  if expected = actual then .ok () else .error (.contractMismatch expected actual)

namespace PhenixSchema

/-- `Type::parse`. -/
def parse : PhenixSchema → PhenixValue → Except ValueError Unit
  | .any, _ => .ok ()
  | .unit, .unit => .ok ()
  | .bool, .bool _ => .ok ()
  | .i64, .i64 _ => .ok ()
  | .u64, .u64 _ => .ok ()
  | .f64, .f64 _ => .ok ()
  | .string, .string _ => .ok ()
  | .bytes, .bytes _ => .ok ()
  | .option expected, .option (some value) => parse expected value
  | .option _, .option none => .ok ()
  | .array item len, .list values =>
    if values.length ≠ len then
      .error (.invalidValue
        ("expected " ++ toString len ++ " values, got " ++ toString values.length))
    else values.forM fun value => parse item value
  | .list expected, .list values => values.forM fun value => parse expected value
  | .map expected, .map values => values.values.forM fun value => parse expected value
  | .table ⟨keys,sorted,val⟩, .table values =>
    parseTable ⟨keys,sorted,fun k h value => parse (val k h) value⟩ values
  | .variant ⟨keys,_,val⟩, .variant tag value =>
    if h : tag ∈ keys then parse (val tag h) value else .error (.unknownVariant tag)
  | .callable contract _ _, .callable reference =>
    parseReferenceContract contract reference.contract
  | .object contract, .object reference => parseReferenceContract contract reference.contract
  | t, v => .error (.typeMismatch t.kind v.kind)

example : parse (.list .unit) (.list []) = .ok () := by simp [parse, pure, Except.pure]

end PhenixSchema

theorem parseTable_eq_ok (expected : BTreeMap Key (PhenixValue → Except ValueError Unit))
    (values : BTreeMap Key PhenixValue) :
    parseTable expected values = .ok () ↔
      (∀ k p, expected.get? k = some p → ∃ v, values.get? k = some v ∧ p v = .ok ()) ∧
        ∀ k ∈ values.keys, k ∈ expected.keys := by
  rw [parseTable, seq_eq_ok, forM_eq_ok]
  refine and_congr ⟨fun h k p hk => ?_,fun h e he => ?_⟩ ?_
  · have hp := h (k,p) ((expected.mem_toList).mpr hk)
    cases hv : values.get? k with
    | none => simp [hv] at hp
    | some v => exact ⟨v,rfl,by simpa [hv] using hp⟩
  · obtain ⟨v,hv,hp⟩ := h e.1 e.2 ((expected.mem_toList).mp he)
    simpa [hv] using hp
  · cases hf : values.keys.find? (· ∉ expected.keys) with
    | none => simpa using hf
    | some k =>
      have hk := List.find?_some hf
      have hm := List.mem_of_find?_eq_some hf
      simp only [reduceCtorEq, false_iff]
      intro h
      simp [h k hm] at hk

theorem parseReferenceContract_eq_ok (expected actual : ContractId) :
    parseReferenceContract expected actual = .ok () ↔ expected = actual := by
  simp [parseReferenceContract]

namespace PhenixSchema

@[simp] theorem parse_any (v : PhenixValue) : parse .any v = .ok () := rfl

@[simp] theorem parse_list (t : PhenixSchema) (vs : List PhenixValue) :
    parse (.list t) (.list vs) = .ok () ↔ ∀ v ∈ vs, parse t v = .ok () :=
  forM_eq_ok

@[simp] theorem parse_array (t : PhenixSchema) (len : ℕ) (vs : List PhenixValue) :
    parse (.array t len) (.list vs) = .ok () ↔
      vs.length = len ∧ ∀ v ∈ vs, parse t v = .ok () := by
  by_cases h : vs.length = len
  · simp only [parse, h, ne_eq, not_true, if_false, true_and]
    exact forM_eq_ok
  · simp [parse, h]

@[simp] theorem parse_map (t : PhenixSchema) (m : BTreeMap String PhenixValue) :
    parse (.map t) (.map m) = .ok () ↔ ∀ k v, m.get? k = some v → parse t v = .ok () := by
  rw [parse, forM_eq_ok]
  simp only [BTreeMap.mem_values]
  exact ⟨fun h k v hk => h v ⟨k,hk⟩,fun h v ⟨k,hk⟩ => h k v hk⟩

@[simp] theorem parse_table (m : BTreeMap Key PhenixSchema) (n : BTreeMap Key PhenixValue) :
    parse (.table m) (.table n) = .ok () ↔
      (∀ k t, m.get? k = some t → ∃ v, n.get? k = some v ∧ parse t v = .ok ()) ∧
        ∀ k ∈ n.keys, k ∈ m.keys := by
  rw [parse, parseTable_eq_ok]
  refine and_congr_left fun _ => forall_congr' fun k => ?_
  by_cases hk : k ∈ m.keys <;> simp [BTreeMap.get?, hk]

@[simp] theorem parse_variant (m : BTreeMap Key PhenixSchema) (tag : Key) (v : PhenixValue) :
    parse (.variant m) (.variant tag v) = .ok () ↔
      ∃ t, m.get? tag = some t ∧ parse t v = .ok () := by
  by_cases hk : tag ∈ m.keys <;> simp [parse, BTreeMap.get?, hk]

/-- A table with one value for each field of its schema, in the same order. -/
theorem parse_ofList {fields : List (Key × PhenixSchema)} {values : List (Key × PhenixValue)}
    (hkeys : (fields.map Prod.fst).Nodup)
    (h : List.Forall₂ (fun field value => field.1 = value.1 ∧ parse field.2 value.2 = .ok ())
      fields values) : parse (.table (.ofList fields)) (.table (.ofList values)) = .ok () := by
  have hsame : fields.map Prod.fst = values.map Prod.fst := by
    clear hkeys
    induction h with
    | nil => rfl
    | cons hfirst _ ih => rw [List.map_cons, List.map_cons, hfirst.1, ih]
  rw [parse_table]
  constructor
  · intro k t hk
    have hmem := (BTreeMap.get?_ofList_of_nodup hkeys).mp hk
    obtain ⟨value,hvalue,rfl,hparse⟩ := Forall₂.exists_right h hmem
    exact ⟨value.2,(BTreeMap.get?_ofList_of_nodup (hsame ▸ hkeys)).mpr hvalue,hparse⟩
  · intro k hk
    rw [BTreeMap.mem_keys_ofList] at hk ⊢
    exact hsame ▸ hk

/-- A tagged value that fits the variant of the schema at some place. -/
theorem parse_variant_at {variants : List (Key × PhenixSchema)} (i : ℕ) {tag : Key}
    {schema : PhenixSchema} {value : PhenixValue} (hkeys : (variants.map Prod.fst).Nodup)
    (hi : variants[i]? = some (tag,schema)) (h : parse schema value = .ok ()) :
    parse (.variant (.ofList variants)) (.variant tag value) = .ok () :=
  (parse_variant _ _ _).mpr
    ⟨schema,(BTreeMap.get?_ofList_of_nodup hkeys).mpr (List.mem_of_getElem? hi),h⟩

end PhenixSchema
end PhenixConductor.Contract
