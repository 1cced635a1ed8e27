import PhenixConductor.Contract.Codec

/-! # The derived value codec

The derive macro reads a type declaration and emits four functions: the schema, the encoder, and
the decoders of the exact and of the projecting kind.
-/
namespace PhenixConductor.Sdk
open Contract Collections BTreeMap List
open PhenixSchema (parse parse_variant)

/-! ## Declarations -/

/-- A field without a name. -/
structure UnnamedField where
  T : Type
  codec : ValueCodec T

/-- A field and its name, which is a structural key as it stands. -/
structure NamedField extends UnnamedField where
  key : Key

/-- The names of the fields of one declaration are different. -/
inductive Fields where
  | named (fields : List NamedField) (distinct : (fields.map NamedField.key).Nodup)
  | unnamed (fields : List UnnamedField)
  | unit

structure VariantDecl where
  ident : Key
  fields : Fields

inductive Data where
  | struct (fields : Fields)
  | enum (variants : List VariantDecl) (distinct : (variants.map VariantDecl.ident).Nodup)
  | union

/-! ### The values of a declared type -/

def Record : List NamedField → Type
  | [] => Unit
  | field :: fields => field.T × Record fields

def Tuple : List UnnamedField → Type
  | [] => Unit
  | [field] => field.T
  | field :: fields => field.T × Tuple fields

def Fields.Value : Fields → Type
  | .named fields _ => Record fields
  | .unnamed fields => Tuple fields
  | .unit => Unit

def Choice : List VariantDecl → Type
  | [] => Empty
  | variant :: variants => variant.fields.Value ⊕ Choice variants

/-- The macro emits nothing for a union. -/
def Data.Value : Data → Type
  | .struct fields => fields.Value
  | .enum variants _ => Choice variants
  | .union => Empty

/-! ## The generators -/

/-- What the macro emits beside the projecting decoder. -/
structure Generated (V : Type) where
  phenixType : PhenixSchema
  toValue : V → PhenixValue
  fromValue : PhenixValue → Except ValueError V

/-- `PhenixValue::get`. -/
def getKey : PhenixValue → Key → Except ValueError PhenixValue
  | .table values, key =>
    match values.get? key with
    | some value => .ok value
    | none => .error (.missingKey key)
  | value, _ => .error (.typeMismatch .table value.kind)

/-- `PhenixValue::variant`. -/
def variantParts : PhenixValue → Except ValueError (Key × PhenixValue)
  | .variant tag value => .ok (tag,value)
  | value => .error (.typeMismatch .variant value.kind)

def typeFields (fields : List NamedField) : List (Key × PhenixSchema) :=
  fields.map fun field => (field.key,field.codec.phenixType)

def valueFields : (fields : List NamedField) → Record fields → List (Key × PhenixValue)
  | [], _ => []
  | field :: fields, (x,rest) => (field.key,field.codec.toValue x) :: valueFields fields rest

/-- `decode_fields`: each field is looked up and raised in the order of the declaration. -/
def decodeFields (raise : (field : NamedField) → PhenixValue → Except ValueError field.T) :
    (fields : List NamedField) → PhenixValue → Except ValueError (Record fields)
  | [], _ => .ok ()
  | field :: fields, value => do
    let found ← getKey value field.key
    let x ← raise field found
    let rest ← decodeFields raise fields value
    return (x,rest)

def namedStruct (fields : List NamedField) : Generated (Record fields) where
  phenixType := .table (.ofList (typeFields fields))
  toValue x := .table (.ofList (valueFields fields x))
  fromValue := decodeFields (fun field => field.codec.fromValue) fields

def projectNamedStruct (fields : List NamedField) (value : PhenixValue) :
    Except ValueError (Record fields) :=
  match value with
  | .table _ => decodeFields (fun field => field.codec.projectFromValue) fields value
  | value => .error (.typeMismatch .table value.kind)

def deriveStruct : (fields : Fields) → Except String (Generated fields.Value)
  | .named fields _ => .ok (namedStruct fields)
  | .unit => .ok
    { phenixType := .unit
      toValue := fun _ => .unit
      fromValue := ValueCodec.unit.fromValue }
  | .unnamed [field] => .ok
    { phenixType := field.codec.phenixType
      toValue := field.codec.toValue
      fromValue := field.codec.fromValue }
  | .unnamed _ =>
    .error "PhenixValue tuple structs must be newtypes; use a named struct for multiple fields"

/-- A unit struct hands on to its own exact decoder, the one that parses first. -/
def deriveProjectStruct : (fields : Fields) → (exact : PhenixValue → Except ValueError fields.Value) →
    Except String (PhenixValue → Except ValueError fields.Value)
  | .named fields _, _ => .ok (projectNamedStruct fields)
  | .unit, exact => .ok exact
  | .unnamed [field], _ => .ok field.codec.projectFromValue
  | .unnamed _, _ =>
    .error "PhenixValue tuple structs must be newtypes; use a named struct for multiple fields"

/-- The payload of one variant in `derive_enum`. -/
def variantArm : (fields : Fields) → Except String (Generated fields.Value)
  | .unit => .ok
    { phenixType := .unit
      toValue := fun _ => .unit
      fromValue := ValueCodec.unit.fromValue }
  | .unnamed [field] => .ok
    { phenixType := field.codec.phenixType
      toValue := field.codec.toValue
      fromValue := field.codec.fromValue }
  | .named fields _ => .ok
    { phenixType := .table (.ofList (typeFields fields))
      toValue := fun x => .table (.ofList (valueFields fields x))
      fromValue := decodeFields (fun field => field.codec.fromValue) fields }
  | .unnamed _ => .error
    "PhenixValue enum tuple variants must contain one value; use a named payload struct"

/-- The payload of one variant in `derive_project_enum`. -/
def projectArm : (fields : Fields) → Except String (PhenixValue → Except ValueError fields.Value)
  | .unit => .ok ValueCodec.unit.projectFromValue
  | .unnamed [field] => .ok field.codec.projectFromValue
  | .named fields _ => .ok fun payload =>
    match payload with
    | .table _ => decodeFields (fun field => field.codec.projectFromValue) fields payload
    | payload => .error (.typeMismatch .table payload.kind)
  | .unnamed _ => .error
    "PhenixValue enum tuple variants must contain one value; use a named payload struct"

/-- The arms of the matches on an enum, in the order of the declaration. -/
structure EnumArms (variants : List VariantDecl) where
  types : List (Key × PhenixSchema)
  encode : Choice variants → Key × PhenixValue
  decode : Key → PhenixValue → Except ValueError (Choice variants)

def enumArms : (variants : List VariantDecl) → Except String (EnumArms variants)
  | [] => .ok
    { types := []
      encode := fun x => nomatch x
      decode := fun tag _ => .error (.unknownVariant tag) }
  | variant :: variants => do
    let arm ← variantArm variant.fields
    let rest ← enumArms variants
    return {
      types := (variant.ident,arm.phenixType) :: rest.types
      encode := fun
        | .inl x => (variant.ident,arm.toValue x)
        | .inr x => rest.encode x
      decode := fun tag payload =>
        if tag = variant.ident then (arm.fromValue payload).map .inl
        else (rest.decode tag payload).map .inr }

def projectArms : (variants : List VariantDecl) →
    Except String (Key → PhenixValue → Except ValueError (Choice variants))
  | [] => .ok fun tag _ => .error (.unknownVariant tag)
  | variant :: variants => do
    let arm ← projectArm variant.fields
    let rest ← projectArms variants
    return fun tag payload =>
      if tag = variant.ident then (arm payload).map .inl
      else (rest tag payload).map .inr

def deriveEnum (variants : List VariantDecl) : Except String (Generated (Choice variants)) := do
  let arms ← enumArms variants
  return {
    phenixType := .variant (.ofList arms.types)
    toValue := fun x =>
      let (tag,payload) := arms.encode x
      .variant tag payload
    fromValue := fun value => do
      let (tag,payload) ← variantParts value
      arms.decode tag payload }

def deriveProjectEnum (variants : List VariantDecl) :
    Except String (PhenixValue → Except ValueError (Choice variants)) := do
  let arms ← projectArms variants
  return fun value => do
    let (tag,payload) ← variantParts value
    arms tag payload

/-- The decoder of the trait parses the value before it looks at the parts. -/
def Generated.exact {V : Type} (generated : Generated V) (value : PhenixValue) :
    Except ValueError V := do
  generated.phenixType.parse value
  generated.fromValue value

def Generated.codec {V : Type} (generated : Generated V)
    (project : PhenixValue → Except ValueError V) : ValueCodec V where
  phenixType := generated.phenixType
  toValue := generated.toValue
  fromValue := generated.exact
  projectFromValue := project

/-- `derive_value`: the codec of a declared type, or the error that the macro reports. -/
def deriveValue : (data : Data) → Except String (ValueCodec data.Value)
  | .struct fields => do
    let generated ← deriveStruct fields
    let project ← deriveProjectStruct fields generated.exact
    return generated.codec project
  | .enum variants _ => do
    let project ← deriveProjectEnum variants
    let generated ← deriveEnum variants
    return generated.codec project
  | .union => .error "PhenixValue cannot be derived for unions"

/-! ## The laws -/

/-- A condition on the codecs that a declaration brings along. -/
def Fields.Every (P : UnnamedField → Prop) : Fields → Prop
  | .named fields _ => ∀ field ∈ fields, P field.toUnnamedField
  | .unnamed fields => ∀ field ∈ fields, P field
  | .unit => True

def Data.Every (P : UnnamedField → Prop) : Data → Prop
  | .struct fields => fields.Every P
  | .enum variants _ => ∀ variant ∈ variants, variant.fields.Every P
  | .union => True

/-- The generated functions agree on the values that the schema accepts. -/
structure Agrees {V : Type} (generated : Generated V)
    (project : PhenixValue → Except ValueError V) : Prop where
  raises : ∀ x, generated.fromValue (generated.toValue x) = .ok x
  parses : ∀ x, generated.phenixType.parse (generated.toValue x) = .ok ()
  projects : ∀ v x, generated.phenixType.parse v = .ok () → generated.fromValue v = .ok x →
    project v = .ok x

variable {v : PhenixValue}

theorem Generated.exact_eq_ok {V : Type} {generated : Generated V} {x : V} :
    generated.exact v = .ok x ↔
      generated.phenixType.parse v = .ok () ∧ generated.fromValue v = .ok x :=
  seq_eq_ok

theorem Agrees.lawful {V : Type} {generated : Generated V}
    {project : PhenixValue → Except ValueError V} (h : Agrees generated project) :
    (generated.codec project).Lawful where
  fromValue_toValue x := Generated.exact_eq_ok.mpr ⟨h.parses x,h.raises x⟩
  parse_toValue := h.parses
  parse_of_fromValue _ _ hv := (Generated.exact_eq_ok.mp hv).1
  project_of_fromValue v x hv := by
    obtain ⟨hparse,hfrom⟩ := Generated.exact_eq_ok.mp hv
    exact h.projects v x hparse hfrom

/-! ### Named fields -/

/-- The table holds something for each field, in a given relation to the field's value. -/
def Reads (n : BTreeMap Key PhenixValue) (P : (field : NamedField) → field.T → PhenixValue → Prop) :
    (fields : List NamedField) → Record fields → Prop
  | [], _ => True
  | field :: fields, (x,rest) => (∃ v, n.get? field.key = some v ∧ P field x v) ∧ Reads n P fields rest

section
variable {n : BTreeMap Key PhenixValue} {fields : List NamedField}

variable {r : Record fields}

theorem Reads.imp {P Q : (field : NamedField) → field.T → PhenixValue → Prop}
    (hPQ : ∀ field ∈ fields, ∀ x v, P field x v → Q field x v) (h : Reads n P fields r) :
    Reads n Q fields r := by
  induction fields with
  | nil => trivial
  | cons field fields ih =>
    obtain ⟨x,rest⟩ := r
    obtain ⟨⟨v,hv,hP⟩,hrest⟩ := h
    exact ⟨⟨v,hv,hPQ field (mem_cons_self ..) x v hP⟩,
      ih (fun f hf => hPQ f (mem_cons_of_mem _ hf)) hrest⟩

variable {v : PhenixValue}

theorem getKey_table_eq_ok {key : Key} : getKey (.table n) key = .ok v ↔ n.get? key = some v := by
  rw [getKey]
  cases n.get? key <;> simp

theorem decodeFields_eq_ok {raise : (field : NamedField) → PhenixValue → Except ValueError field.T} :
    decodeFields raise fields (.table n) = .ok r ↔
      Reads n (fun field x v => raise field v = .ok x) fields r := by
  induction fields with
  | nil => exact iff_of_true rfl trivial
  | cons field fields ih =>
    obtain ⟨x,rest⟩ := r
    rw [Reads, ← ih]
    constructor
    · intro h
      obtain ⟨v,hv,h⟩ := bind_eq_ok.mp h
      obtain ⟨x',hx,h⟩ := bind_eq_ok.mp h
      obtain ⟨rest',hrest,h⟩ := bind_eq_ok.mp h
      cases h
      exact ⟨⟨v,getKey_table_eq_ok.mp hv,hx⟩,hrest⟩
    · rintro ⟨⟨v,hv,hx⟩,hrest⟩
      exact bind_eq_ok.mpr ⟨v,getKey_table_eq_ok.mpr hv,
        bind_eq_ok.mpr ⟨x,hx,bind_eq_ok.mpr ⟨rest,hrest,rfl⟩⟩⟩

theorem map_fst_valueFields (r : Record fields) :
    (valueFields fields r).map Prod.fst = fields.map NamedField.key := by
  induction fields with
  | nil => rfl
  | cons field fields ih =>
    obtain ⟨x,rest⟩ := r
    rw [valueFields, map_cons, map_cons, ih]

theorem reads_of_mem (h : ∀ k v, (k,v) ∈ valueFields fields r → n.get? k = some v) :
    Reads n (fun field x v => v = field.codec.toValue x) fields r := by
  induction fields with
  | nil => trivial
  | cons field fields ih =>
    exact ⟨⟨_,h _ _ (mem_cons_self ..),rfl⟩,
      ih fun k v hkv => h k v (mem_cons_of_mem _ hkv)⟩

/-- The encoded table holds each field under its own name. -/
theorem reads_valueFields (hkeys : (fields.map NamedField.key).Nodup) (r : Record fields) :
    Reads (.ofList (valueFields fields r)) (fun field x v => v = field.codec.toValue x) fields r := by
  refine reads_of_mem fun k v hkv => (get?_ofList_of_nodup ?_).mpr hkv
  rw [map_fst_valueFields]
  exact hkeys

theorem parse_valueFields (hkeys : (fields.map NamedField.key).Nodup)
    (hfields : ∀ field ∈ fields, field.codec.Lawful) (r : Record fields) :
    parse (.table (.ofList (typeFields fields)))
      (.table (.ofList (valueFields fields r))) = .ok () := by
  refine PhenixSchema.parse_ofList ?_ ?_
  · rw [typeFields, map_map]
    exact hkeys
  · clear hkeys
    induction fields with
    | nil => exact .nil
    | cons field fields ih =>
      obtain ⟨x,rest⟩ := r
      refine .cons ⟨rfl,(hfields field (mem_cons_self ..)).parse_toValue x⟩ ?_
      exact ih (fun f hf => hfields f (mem_cons_of_mem _ hf)) rest

/-- Only a table parses as a table. -/
theorem exists_table_of_parse {m : BTreeMap Key PhenixSchema}
    (h : parse (.table m) v = .ok ()) : ∃ n, v = .table n := by
  cases v with
  | table n => exact ⟨n,rfl⟩
  | _ => cases h

theorem exists_variant_of_parse {m : BTreeMap Key PhenixSchema}
    (h : parse (.variant m) v = .ok ()) : ∃ tag payload, v = .variant tag payload := by
  cases v with
  | variant tag payload => exact ⟨tag,payload,rfl⟩
  | _ => cases h

theorem namedStruct_agrees (hkeys : (fields.map NamedField.key).Nodup)
    (hfields : ∀ field ∈ fields, field.codec.Lawful) :
    Agrees (namedStruct fields) (projectNamedStruct fields) where
  raises x := by
    refine decodeFields_eq_ok.mpr ((reads_valueFields hkeys x).imp ?_)
    rintro field hfield y _ rfl
    exact (hfields field hfield).fromValue_toValue y
  parses := parse_valueFields hkeys hfields
  projects v x hparse hfrom := by
    obtain ⟨n,rfl⟩ := exists_table_of_parse hparse
    refine decodeFields_eq_ok.mpr ((decodeFields_eq_ok.mp hfrom).imp ?_)
    exact fun field hfield y w => (hfields field hfield).project_of_fromValue w y

end

/-! ### All shapes of fields -/

variable {field : UnnamedField}

theorem UnnamedField.agrees (h : field.codec.Lawful) :
    Agrees ⟨field.codec.phenixType,field.codec.toValue,field.codec.fromValue⟩
      field.codec.projectFromValue where
  raises := h.fromValue_toValue
  parses := h.parse_toValue
  projects v x _ := h.project_of_fromValue v x

theorem deriveStruct_of_variantArm {fields : Fields} {arm : Generated fields.Value}
    (h : variantArm fields = .ok arm) : deriveStruct fields = .ok arm := by
  cases fields with
  | named fields hkeys => exact h
  | unit => exact h
  | unnamed fields =>
    match fields with
    | [field] => exact h
    | [] | _ :: _ :: _ => cases h

section
variable {fields : Fields} {generated : Generated fields.Value}
  {project : PhenixValue → Except ValueError fields.Value}
  (hgenerated : deriveStruct fields = .ok generated)
  (hproject : deriveProjectStruct fields generated.exact = .ok project ∨ projectArm fields = .ok project)
  (hfields : fields.Every fun field => field.codec.Lawful)
include hgenerated hproject hfields

/-- The functions of a struct agree, and so do those of the payload of a variant. -/
theorem fields_agree : Agrees generated project := by
  cases fields with
  | named fields hkeys =>
    cases hgenerated
    rcases hproject with h | h <;> cases h <;> exact namedStruct_agrees hkeys hfields
  | unit =>
    cases hgenerated
    refine ⟨fun _ => rfl,fun _ => rfl,fun v x hparse hfrom => ?_⟩
    rcases hproject with h | h <;> cases h
    · exact Generated.exact_eq_ok.mpr ⟨hparse,hfrom⟩
    · exact hfrom
  | unnamed fields =>
    match fields with
    | [field] =>
      cases hgenerated
      rcases hproject with h | h <;> cases h <;>
        exact field.agrees (hfields field (mem_singleton_self _))
    | [] | _ :: _ :: _ => cases hgenerated

end

/-! ### Variants -/

/-- The arms of an enum name the same tags and agree on the payloads. -/
structure ArmsAgree (variants : List VariantDecl) (arms : EnumArms variants)
    (project : Key → PhenixValue → Except ValueError (Choice variants)) : Prop where
  tags : arms.types.map Prod.fst = variants.map VariantDecl.ident
  parses : ∀ x, ∃ T, ((arms.encode x).1,T) ∈ arms.types ∧ T.parse (arms.encode x).2 = .ok ()
  raises : ∀ x, arms.decode (arms.encode x).1 (arms.encode x).2 = .ok x
  projects : ∀ tag T payload x, (tag,T) ∈ arms.types → T.parse payload = .ok () →
    arms.decode tag payload = .ok x → project tag payload = .ok x

variable {variants : List VariantDecl}

variable {project : Key → PhenixValue → Except ValueError (Choice variants)}

theorem enumArms_agree (htags : (variants.map VariantDecl.ident).Nodup) {arms : EnumArms variants}
    (harms : enumArms variants = .ok arms) (hproject : projectArms variants = .ok project)
    (hfields : ∀ variant ∈ variants, variant.fields.Every fun field => field.codec.Lawful) :
    ArmsAgree variants arms project := by
  induction variants with
  | nil =>
    cases harms
    exact ⟨rfl,nofun,nofun,fun _ _ _ _ h => absurd h not_mem_nil⟩
  | cons variant variants ih =>
    obtain ⟨hfirst,hrest⟩ := nodup_cons.mp htags
    obtain ⟨arm,harm,harms⟩ := bind_eq_ok.mp harms
    obtain ⟨rest,hrests,harms⟩ := bind_eq_ok.mp harms
    obtain ⟨projectFirst,hprojectFirst,hproject⟩ := bind_eq_ok.mp hproject
    obtain ⟨projectRest,hprojectRest,hproject⟩ := bind_eq_ok.mp hproject
    cases harms
    cases hproject
    have hagrees := fields_agree (deriveStruct_of_variantArm harm) (.inr hprojectFirst)
      (hfields variant (mem_cons_self ..))
    have hlater := ih hrest hrests hprojectRest fun v hv => hfields v (mem_cons_of_mem _ hv)
    -- A tag of a later variant is not the first one.
    have hother : ∀ tag T, (tag,T) ∈ rest.types → tag ≠ variant.ident := by
      rintro _ T hmem rfl
      exact hfirst (hlater.tags ▸ mem_map.mpr ⟨_,hmem,rfl⟩)
    refine ⟨?_,?_,?_,?_⟩
    · rw [map_cons, map_cons, hlater.tags]
    · rintro (x | x)
      · exact ⟨_,mem_cons_self ..,hagrees.parses x⟩
      · obtain ⟨T,hmem,hparse⟩ := hlater.parses x
        exact ⟨T,mem_cons_of_mem _ hmem,hparse⟩
    · rintro (x | x)
      · exact (if_pos rfl).trans (map_eq_ok.mpr ⟨x,hagrees.raises x,rfl⟩)
      · obtain ⟨T,hmem,-⟩ := hlater.parses x
        exact (if_neg (hother _ T hmem)).trans (map_eq_ok.mpr ⟨x,hlater.raises x,rfl⟩)
    · intro tag T payload x hmem hparse hdecode
      rcases mem_cons.mp hmem with hhead | hmem
      · cases hhead
        obtain ⟨y,hy,rfl⟩ := map_eq_ok.mp ((if_pos rfl).symm.trans hdecode)
        exact (if_pos rfl).trans (map_eq_ok.mpr ⟨y,hagrees.projects payload y hparse hy,rfl⟩)
      · have hne := hother tag T hmem
        obtain ⟨y,hy,rfl⟩ := map_eq_ok.mp ((if_neg hne).symm.trans hdecode)
        exact (if_neg hne).trans
          (map_eq_ok.mpr ⟨y,hlater.projects tag T payload y hmem hparse hy,rfl⟩)

theorem deriveEnum_agrees (htags : (variants.map VariantDecl.ident).Nodup)
    {generated : Generated (Choice variants)}
    {project : PhenixValue → Except ValueError (Choice variants)}
    (hgenerated : deriveEnum variants = .ok generated)
    (hproject : deriveProjectEnum variants = .ok project)
    (hfields : ∀ variant ∈ variants, variant.fields.Every fun field => field.codec.Lawful) :
    Agrees generated project := by
  obtain ⟨arms,harms,hgenerated⟩ := bind_eq_ok.mp hgenerated
  obtain ⟨projectTag,hprojects,hproject⟩ := bind_eq_ok.mp hproject
  cases hgenerated
  cases hproject
  have hagree := enumArms_agree htags harms hprojects hfields
  have hget : ∀ {tag T}, (ofList arms.types).get? tag = some T ↔ (tag,T) ∈ arms.types :=
    get?_ofList_of_nodup (hagree.tags ▸ htags)
  refine ⟨hagree.raises,fun x => ?_,fun v x hparse hfrom => ?_⟩
  · obtain ⟨T,hmem,hparse⟩ := hagree.parses x
    exact (parse_variant _ _ _).mpr ⟨T,hget.mpr hmem,hparse⟩
  · obtain ⟨tag,payload,rfl⟩ := exists_variant_of_parse hparse
    obtain ⟨T,hT,hparse⟩ := (parse_variant _ _ _).mp hparse
    exact hagree.projects tag T payload x (hget.mp hT) hparse hfrom

theorem deriveValue_lawful {data : Data} {codec : ValueCodec data.Value}
    (h : deriveValue data = .ok codec) (hfields : data.Every fun field => field.codec.Lawful) :
    codec.Lawful := by
  cases data with
  | struct fields =>
    obtain ⟨generated,hgenerated,h⟩ := bind_eq_ok.mp h
    obtain ⟨project,hproject,h⟩ := bind_eq_ok.mp h
    cases h
    exact (fields_agree hgenerated (.inl hproject) hfields).lawful
  | enum variants htags =>
    obtain ⟨project,hproject,h⟩ := bind_eq_ok.mp h
    obtain ⟨generated,hgenerated,h⟩ := bind_eq_ok.mp h
    cases h
    exact (deriveEnum_agrees htags hgenerated hproject hfields).lawful
  | union => cases h

/-! ## Extra keys -/

/-- The second value is the first one with extra keys in its tables, at any depth. -/
inductive Extends : PhenixValue → PhenixValue → Prop
  | refl (v : PhenixValue) : Extends v v
  | option {v w : PhenixValue} : Extends v w → Extends (.option (some v)) (.option (some w))
  | list {vs ws : List PhenixValue} : vs.length = ws.length →
      (∀ (i : ℕ) v w, vs[i]? = some v → ws[i]? = some w → Extends v w) →
      Extends (.list vs) (.list ws)
  | map {m n : BTreeMap String PhenixValue} : m.keys = n.keys →
      (∀ k v w, m.get? k = some v → n.get? k = some w → Extends v w) → Extends (.map m) (.map n)
  | table {m n : BTreeMap Key PhenixValue} : m.keys ⊆ n.keys →
      (∀ k v w, m.get? k = some v → n.get? k = some w → Extends v w) → Extends (.table m) (.table n)
  | variant {tag : Key} {v w : PhenixValue} : Extends v w → Extends (.variant tag v) (.variant tag w)

/-- The codec projects an encoded value whatever keys were added to it. -/
def Tolerant {V : Type} (codec : ValueCodec V) : Prop :=
  ∀ x w, Extends (codec.toValue x) w → codec.projectFromValue w = .ok x

variable {w : PhenixValue}

theorem Extends.table_inv {m : BTreeMap Key PhenixValue} (h : Extends (.table m) w) :
    ∃ n, w = .table n ∧
      ∀ k v, m.get? k = some v → ∃ v', n.get? k = some v' ∧ Extends v v' := by
  cases h with
  | refl => exact ⟨m,rfl,fun k v hk => ⟨v,hk,.refl v⟩⟩
  | @table _ n hkeys hentries =>
    refine ⟨n,rfl,fun k v hk => ?_⟩
    have hmem := hkeys (m.mem_keys_iff.mpr (by rw [hk]; rfl))
    obtain ⟨v',hv'⟩ := Option.isSome_iff_exists.mp (n.mem_keys_iff.mp hmem)
    exact ⟨v',hv',hentries k v v' hk hv'⟩

theorem Extends.variant_inv {tag : Key} (h : Extends (.variant tag v) w) :
    ∃ v', w = .variant tag v' ∧ Extends v v' := by
  cases h with
  | refl => exact ⟨v,rfl,.refl v⟩
  | variant h => exact ⟨_,rfl,h⟩

theorem Extends.unit_inv (h : Extends .unit w) : w = .unit := by
  cases h
  rfl

/-- Keys were added within the value of a field only if the codec of the field does not mind. -/
def FieldGrown (field : UnnamedField) (x : field.T) (w : PhenixValue) : Prop :=
  w = field.codec.toValue x ∨ Tolerant field.codec ∧ Extends (field.codec.toValue x) w

/-- Keys were added to the table of the fields, or within the values of the fields. -/
def Fields.Grown : (fields : Fields) → fields.Value → PhenixValue → Prop
  | .named fields _, r, w => ∃ n, w = .table n ∧
      Reads n (fun field x v => FieldGrown field.toUnnamedField x v) fields r
  | .unnamed [field], x, w => FieldGrown field x w
  | .unnamed _, _, _ => False
  | .unit, _, w => w = .unit

def ChoiceGrown : (variants : List VariantDecl) → Choice variants → Key → PhenixValue → Prop
  | variant :: _, .inl x, tag, payload => tag = variant.ident ∧ variant.fields.Grown x payload
  | _ :: variants, .inr x, tag, payload => ChoiceGrown variants x tag payload

/-- The value is the encoded one with extra keys, which lie where codecs of fields allow them. -/
def Data.Grown : (data : Data) → data.Value → PhenixValue → Prop
  | .struct fields, x, w => fields.Grown x w
  | .enum variants _, x, w => ∃ tag payload, w = .variant tag payload ∧
      ChoiceGrown variants x tag payload

theorem FieldGrown.projects (h : field.codec.Lawful) {x : field.T} (hw : FieldGrown field x w) :
    field.codec.projectFromValue w = .ok x := by
  rcases hw with rfl | ⟨htolerant,hextends⟩
  · exact h.project_of_fromValue _ x (h.fromValue_toValue x)
  · exact htolerant x w hextends

variable {fields : List NamedField} {n : BTreeMap Key PhenixValue}

variable {r : Record fields}

theorem projectNamedStruct_of_grown (hfields : ∀ field ∈ fields, field.codec.Lawful)
    (h : Reads n (fun field x v => FieldGrown field.toUnnamedField x v) fields r) :
    projectNamedStruct fields (.table n) = .ok r :=
  decodeFields_eq_ok.mpr (h.imp fun field hfield _ _ hw => hw.projects (hfields field hfield))

theorem fields_of_grown {fields : Fields} {project : PhenixValue → Except ValueError fields.Value}
    (hproject : (∃ generated, deriveStruct fields = .ok generated ∧
      deriveProjectStruct fields generated.exact = .ok project) ∨ projectArm fields = .ok project)
    (hfields : fields.Every fun field => field.codec.Lawful) {x : fields.Value}
    (h : fields.Grown x w) : project w = .ok x := by
  cases fields with
  | named fields hkeys =>
    obtain ⟨n,rfl,hreads⟩ := h
    rcases hproject with ⟨_,-,h⟩ | h <;> cases h <;>
      exact projectNamedStruct_of_grown hfields hreads
  | unit =>
    cases h
    rcases hproject with ⟨_,⟨⟩,h⟩ | h <;> cases h <;> rfl
  | unnamed fields =>
    match fields with
    | [field] =>
      rcases hproject with ⟨_,-,hsame⟩ | hsame <;> cases hsame <;>
        exact FieldGrown.projects (hfields field (mem_singleton_self _)) h
    | [] | _ :: _ :: _ => exact h.elim

theorem projectArms_of_grown (htags : (variants.map VariantDecl.ident).Nodup)
    (hproject : projectArms variants = .ok project)
    (hfields : ∀ variant ∈ variants, variant.fields.Every fun field => field.codec.Lawful)
    {x : Choice variants} {tag : Key} {payload : PhenixValue}
    (h : ChoiceGrown variants x tag payload) :
    tag ∈ variants.map VariantDecl.ident ∧ project tag payload = .ok x := by
  induction variants with
  | nil => exact nomatch x
  | cons variant variants ih =>
    obtain ⟨hfirst,hrest⟩ := nodup_cons.mp htags
    obtain ⟨projectFirst,hprojectFirst,hproject⟩ := bind_eq_ok.mp hproject
    obtain ⟨projectRest,hprojectRest,hproject⟩ := bind_eq_ok.mp hproject
    cases hproject
    rcases x with x | x
    · obtain ⟨rfl,hgrown⟩ := h
      have hx := fields_of_grown (.inr hprojectFirst) (hfields variant (mem_cons_self ..)) hgrown
      exact ⟨mem_cons_self ..,(if_pos rfl).trans (map_eq_ok.mpr ⟨x,hx,rfl⟩)⟩
    · obtain ⟨hmem,hx⟩ := ih hrest hprojectRest
        (fun v hv => hfields v (mem_cons_of_mem _ hv)) h
      have hne : tag ≠ variant.ident := by
        rintro rfl
        exact hfirst hmem
      exact ⟨mem_cons_of_mem _ hmem,(if_neg hne).trans (map_eq_ok.mpr ⟨x,hx,rfl⟩)⟩

theorem deriveValue_of_grown {data : Data} {codec : ValueCodec data.Value}
    (h : deriveValue data = .ok codec) (hfields : data.Every fun field => field.codec.Lawful)
    {x : data.Value} (hw : data.Grown x w) : codec.projectFromValue w = .ok x := by
  cases data with
  | struct fields =>
    obtain ⟨generated,hgenerated,h⟩ := bind_eq_ok.mp h
    obtain ⟨project,hproject,h⟩ := bind_eq_ok.mp h
    cases h
    exact fields_of_grown (.inl ⟨generated,hgenerated,hproject⟩) hfields hw
  | enum variants htags =>
    obtain ⟨project,hproject,h⟩ := bind_eq_ok.mp h
    obtain ⟨generated,hgenerated,h⟩ := bind_eq_ok.mp h
    obtain ⟨arms,harms,hproject⟩ := bind_eq_ok.mp hproject
    cases h
    cases hproject
    obtain ⟨tag,payload,rfl,hgrown⟩ := hw
    exact (projectArms_of_grown htags harms hfields hgrown).2
  | union => cases h

/-! ### Values that grow are extended ones -/

theorem FieldGrown.extends {x : field.T} (h : FieldGrown field x w) :
    Extends (field.codec.toValue x) w := by
  rcases h with rfl | ⟨-,h⟩
  · exact .refl _
  · exact h

/-- What the encoded table holds, the grown one holds with extra keys. -/
theorem Reads.exists_of_mem {P : (field : NamedField) → field.T → PhenixValue → Prop}
    (h : Reads n P fields r) {k : Key} (hkv : (k,v) ∈ valueFields fields r) :
    ∃ field ∈ fields, ∃ x w, v = field.codec.toValue x ∧ n.get? k = some w ∧ P field x w := by
  induction fields with
  | nil => exact absurd hkv not_mem_nil
  | cons field fields ih =>
    obtain ⟨x,rest⟩ := r
    obtain ⟨⟨w,hw,hP⟩,hrest⟩ := h
    rcases mem_cons.mp hkv with hhead | hkv
    · cases hhead
      exact ⟨field,mem_cons_self ..,x,w,rfl,hw,hP⟩
    · obtain ⟨found,hmem,hfound⟩ := ih hrest hkv
      exact ⟨found,mem_cons_of_mem _ hmem,hfound⟩

theorem Reads.extends (hkeys : (fields.map NamedField.key).Nodup)
    (h : Reads n (fun field x v => FieldGrown field.toUnnamedField x v) fields r) :
    Extends (.table (.ofList (valueFields fields r))) (.table n) := by
  have hget : ∀ {k v}, (ofList (valueFields fields r)).get? k = some v ↔
      (k,v) ∈ valueFields fields r :=
    get?_ofList_of_nodup (map_fst_valueFields r ▸ hkeys)
  refine .table (fun k hk => ?_) fun k v w hv hw => ?_
  · obtain ⟨v,hv⟩ := Option.isSome_iff_exists.mp (mem_keys_iff _ |>.mp hk)
    obtain ⟨_,-,_,w,-,hw,-⟩ := h.exists_of_mem (hget.mp hv)
    exact n.mem_keys_iff.mpr (by rw [hw]; rfl)
  · obtain ⟨field,-,x,w',rfl,hw',hgrown⟩ := h.exists_of_mem (hget.mp hv)
    cases hw.symm.trans hw'
    exact hgrown.extends

/-- Without codecs that mind, every extended table is a grown one. -/
theorem reads_of_extends (hkeys : (fields.map NamedField.key).Nodup)
    (htolerant : ∀ field ∈ fields, Tolerant field.codec)
    (h : ∀ k v, (ofList (valueFields fields r)).get? k = some v → ∃ v', n.get? k = some v' ∧ Extends v v') :
    Reads n (fun field x v => FieldGrown field.toUnnamedField x v) fields r := by
  have hentry : ∀ k v, (k,v) ∈ valueFields fields r → ∃ v', n.get? k = some v' ∧ Extends v v' :=
    fun k v hkv =>
      h k v ((get?_ofList_of_nodup (map_fst_valueFields r ▸ hkeys)).mpr hkv)
  clear h hkeys
  induction fields with
  | nil => trivial
  | cons field fields ih =>
    obtain ⟨w,hw,hextends⟩ := hentry _ _ (mem_cons_self ..)
    exact ⟨⟨w,hw,.inr ⟨htolerant field (mem_cons_self ..),hextends⟩⟩,
      ih (fun f hf => htolerant f (mem_cons_of_mem _ hf))
        fun k v hkv => hentry k v (mem_cons_of_mem _ hkv)⟩

/-- The encoder of a shape, and how its values grow. -/
structure GrowsFrom {V : Type} (toValue : V → PhenixValue) (grown : V → PhenixValue → Prop)
    (tolerant : Prop) : Prop where
  extends_of_grown : ∀ x w, grown x w → Extends (toValue x) w
  grown_of_extends : tolerant → ∀ x w, Extends (toValue x) w → grown x w

theorem namedStruct_growsFrom (hkeys : (fields.map NamedField.key).Nodup) :
    GrowsFrom (namedStruct fields).toValue (Fields.named fields hkeys).Grown
      ((Fields.named fields hkeys).Every fun field => Tolerant field.codec) where
  extends_of_grown x w h := by
    obtain ⟨n,rfl,hreads⟩ := h
    exact hreads.extends hkeys
  grown_of_extends htolerant x w h := by
    obtain ⟨n,rfl,hentries⟩ := h.table_inv
    exact ⟨n,rfl,reads_of_extends hkeys htolerant hentries⟩

theorem unit_growsFrom :
    GrowsFrom (fun _ : Fields.unit.Value => PhenixValue.unit) Fields.unit.Grown
      (Fields.unit.Every fun field => Tolerant field.codec) where
  extends_of_grown x w h := by
    cases h
    exact .refl _
  grown_of_extends _ x w h := h.unit_inv

theorem UnnamedField.growsFrom (field : UnnamedField) :
    GrowsFrom field.codec.toValue (Fields.unnamed [field]).Grown
      ((Fields.unnamed [field]).Every fun field => Tolerant field.codec) where
  extends_of_grown _ _ h := FieldGrown.extends h
  grown_of_extends htolerant _ _ h := .inr ⟨htolerant field (mem_singleton_self _),h⟩

theorem deriveStruct_growsFrom {fields : Fields} {generated : Generated fields.Value}
    (h : deriveStruct fields = .ok generated) :
    GrowsFrom generated.toValue fields.Grown (fields.Every fun field => Tolerant field.codec) := by
  cases fields with
  | named fields hkeys =>
    cases h
    exact namedStruct_growsFrom hkeys
  | unit =>
    cases h
    exact unit_growsFrom
  | unnamed fields =>
    match fields with
    | [field] =>
      cases h
      exact field.growsFrom
    | [] | _ :: _ :: _ => cases h

theorem enumArms_growsFrom {arms : EnumArms variants} (h : enumArms variants = .ok arms)
    (x : Choice variants) : (∀ tag payload, ChoiceGrown variants x tag payload →
      tag = (arms.encode x).1 ∧ Extends (arms.encode x).2 payload) ∧
    ((∀ variant ∈ variants, variant.fields.Every fun field => Tolerant field.codec) →
      ∀ payload, Extends (arms.encode x).2 payload →
        ChoiceGrown variants x (arms.encode x).1 payload) := by
  induction variants with
  | nil => exact nomatch x
  | cons variant variants ih =>
    obtain ⟨arm,harm,h⟩ := bind_eq_ok.mp h
    obtain ⟨rest,hrest,h⟩ := bind_eq_ok.mp h
    cases h
    rcases x with x | x
    · have hgrows := deriveStruct_growsFrom (deriveStruct_of_variantArm harm)
      refine ⟨?_,fun htolerant payload hextends => ⟨rfl,?_⟩⟩
      · rintro _ payload ⟨rfl,hgrown⟩
        exact ⟨rfl,hgrows.extends_of_grown x payload hgrown⟩
      · exact hgrows.grown_of_extends (htolerant variant (mem_cons_self ..)) x payload hextends
    · obtain ⟨hgrown,hextends⟩ := ih hrest x
      exact ⟨hgrown,fun htolerant => hextends fun v hv => htolerant v (mem_cons_of_mem _ hv)⟩

theorem deriveValue_growsFrom {data : Data} {codec : ValueCodec data.Value}
    (h : deriveValue data = .ok codec) :
    GrowsFrom codec.toValue data.Grown (data.Every fun field => Tolerant field.codec) := by
  cases data with
  | struct fields =>
    obtain ⟨generated,hgenerated,h⟩ := bind_eq_ok.mp h
    obtain ⟨project,-,h⟩ := bind_eq_ok.mp h
    cases h
    exact deriveStruct_growsFrom hgenerated
  | enum variants htags =>
    obtain ⟨project,-,h⟩ := bind_eq_ok.mp h
    obtain ⟨generated,hgenerated,h⟩ := bind_eq_ok.mp h
    obtain ⟨arms,harms,hgenerated⟩ := bind_eq_ok.mp hgenerated
    cases h
    cases hgenerated
    refine ⟨fun x w hgrown => ?_,fun htolerant x w hextends => ?_⟩
    · obtain ⟨tag,payload,rfl,hgrown⟩ := hgrown
      obtain ⟨rfl,hextends⟩ := (enumArms_growsFrom harms x).1 tag payload hgrown
      exact hextends.variant
    · have hvariant : Extends (.variant (arms.encode x).1 (arms.encode x).2) w := hextends
      obtain ⟨payload,rfl,hpayload⟩ := hvariant.variant_inv
      exact ⟨_,payload,rfl,(enumArms_growsFrom harms x).2 htolerant payload hpayload⟩
  | union => cases h

/-- The derived codec obeys the laws if the codecs of the fields do. It projects an encoded value
with extra keys in its own tables, and within those fields whose codecs do so; and it does so for
extra keys at any depth if all of them do. -/
theorem derived_codec_lawful (data : Data) (codec : ValueCodec data.Value)
    (h : deriveValue data = .ok codec) (hfields : data.Every fun field => field.codec.Lawful) :
    codec.Lawful ∧ (∀ x w, data.Grown x w → codec.projectFromValue w = .ok x) ∧
      ((data.Every fun field => Tolerant field.codec) → Tolerant codec) := by
  refine ⟨deriveValue_lawful h hfields,fun x w => deriveValue_of_grown h hfields,?_⟩
  intro htolerant x w hextends
  exact deriveValue_of_grown h hfields
    ((deriveValue_growsFrom h).grown_of_extends htolerant x w hextends)

/-! ### A declaration with all kinds of variants -/

def idleKey : Key := ⟨"Idle",by decide⟩
def waitingKey : Key := ⟨"Waiting",by decide⟩
def activeKey : Key := ⟨"Active",by decide⟩
def turnKey : Key := ⟨"turn",by decide⟩
def noteKey : Key := ⟨"note",by decide⟩

def phaseDecl : Data :=
  .enum [⟨idleKey,.unit⟩,⟨waitingKey,.unnamed [⟨UInt64,.u64⟩]⟩,
    ⟨activeKey,.named [⟨⟨UInt64,.u64⟩,turnKey⟩,⟨⟨String,.string⟩,noteKey⟩] (by decide)⟩] (by decide)

theorem derived_codec_lawful_phase : ∃ codec, deriveValue phaseDecl = .ok codec ∧ codec.Lawful := by
  refine ⟨_,rfl,(derived_codec_lawful phaseDecl _ rfl ?_).1⟩
  simp [phaseDecl, Data.Every, Fields.Every, ValueCodec.u64_lawful, ValueCodec.string_lawful]

end PhenixConductor.Sdk
