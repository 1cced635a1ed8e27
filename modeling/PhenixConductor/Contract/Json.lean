import PhenixConductor.Contract.Containers

/-! # JSON values

A JSON value is lowered to a structural value of any type.
-/
namespace PhenixConductor.Contract
open Collections

def F64.isFinite (x : F64) : Bool := x.magnitude < 0x7ff0000000000000

/-- `serde_json::Number`: a negative integer is less than zero, and a float is finite. -/
inductive JsonNumber where
  | posInt (value : UInt64)
  | negInt (value : Int64) (negative : value.toInt < 0)
  | float (value : F64) (finite : value.isFinite = true)

/-- The conversion of an `i64`. -/
def JsonNumber.ofInt64 (value : Int64) : JsonNumber :=
  if negative : value.toInt < 0 then .negInt value negative
  else .posInt (.ofNat value.toInt.toNat)

def JsonNumber.fromF64 (value : F64) : Option JsonNumber :=
  if finite : value.isFinite = true then some (.float value finite) else none

/-- `serde_json::Value` -/
inductive JsonValue where
  | null
  | bool (value : Bool)
  | number (value : JsonNumber)
  | string (value : String)
  | array (values : List JsonValue)
  | object (values : BTreeMap String JsonValue)

namespace JsonValue

def get? (value : JsonValue) (key : String) : Option JsonValue :=
  match value with
  | .object values => values.get? key
  | _ => none

def asStr : JsonValue → Option String
  | .string value => some value
  | _ => none

def asArray : JsonValue → Option (List JsonValue)
  | .array values => some values
  | _ => none

def asObject : JsonValue → Option (BTreeMap String JsonValue)
  | .object values => some values
  | _ => none

/-- The string under a key. -/
def field (value : JsonValue) (key : String) : Option String := (value.get? key).bind asStr

/-- The members of the array under a key. -/
def items (value : JsonValue) (key : String) : List JsonValue :=
  ((value.get? key).bind asArray).getD []

/-- Induction with one hypothesis per member of a container. -/
@[elab_as_elim]
theorem induct {motive : JsonValue → Prop} (null : motive .null) (bool : ∀ v, motive (.bool v))
    (number : ∀ v, motive (.number v)) (string : ∀ v, motive (.string v))
    (array : ∀ vs, (∀ v ∈ vs, motive v) → motive (.array vs))
    (object : ∀ m, (∀ k v, m.get? k = some v → motive v) → motive (.object m))
    (v : JsonValue) : motive v := by
  refine @JsonValue.rec motive (fun vs => ∀ v ∈ vs, motive v)
    (fun m => ∀ k v, m.get? k = some v → motive v) null bool number string array object ?_ ?_ ?_ v
  · simp
  · intro v vs hv hvs w hw
    rcases List.mem_cons.mp hw with rfl | hw
    exacts [hv,hvs w hw]
  · intro keys sorted val ih k v h
    obtain ⟨hk,rfl⟩ := (BTreeMap.get?_eq_some _).mp h
    exact ih k hk

/-- `as_u64`, `as_i64` and `as_f64` are tried in this order. -/
def numberToValue : JsonNumber → PhenixValue
  | .posInt value => .u64 value
  | .negInt value _ => .i64 value
  | .float value _ => .f64 value

mutual
def toValue : JsonValue → PhenixValue
  | .null => .unit
  | .bool value => .bool value
  | .number value => numberToValue value
  | .string value => .string value
  | .array values => .list (toValues values)
  | .object ⟨keys,sorted,val⟩ => .map ⟨keys,sorted,fun k h => toValue (val k h)⟩

def toValues : List JsonValue → List PhenixValue
  | [] => []
  | value :: values => toValue value :: toValues values
end

mutual
def fromValue : PhenixValue → Except ValueError JsonValue
  | .unit => .ok .null
  | .bool value => .ok (.bool value)
  | .i64 value => .ok (.number (.ofInt64 value))
  | .u64 value => .ok (.number (.posInt value))
  | .f64 value =>
    match JsonNumber.fromF64 value with
    | some finite => .ok (.number finite)
    | none => .error (.invalidValue "non-finite float is not JSON")
  | .string value => .ok (.string value)
  | .list values => (fromValues values).map .array
  | .map ⟨keys,_,val⟩ => (keys.attach.mapM fun k =>
      (fromValue (val k.1 k.2)).map fun value => (k.1,value)).map fun entries =>
        .object (.ofList entries)
  | value => .error (.typeMismatch .any value.kind)

def fromValues : List PhenixValue → Except ValueError (List JsonValue)
  | [] => .ok []
  | value :: values => do
    let value ← fromValue value
    let values ← fromValues values
    return value :: values
end

theorem toValues_eq_map (values : List JsonValue) : toValues values = values.map toValue := by
  induction values with
  | nil => rfl
  | cons value values ih => rw [toValues, ih, List.map_cons]

theorem fromValues_eq_mapM (values : List PhenixValue) :
    fromValues values = values.mapM fromValue := by
  induction values with
  | nil => rfl
  | cons value values ih => rw [fromValues, ih, List.mapM_cons]

/-- An object is a map with strings for keys. -/
theorem fromValue_map (values : BTreeMap String PhenixValue) :
    fromValue (.map values) = (ValueCodec.decodeMap .ok fromValue (.map values)).map .object := by
  obtain ⟨keys,sorted,val⟩ := values
  have hentry : (fun k : {k // k ∈ keys} =>
      (fromValue (val k.1 k.2)).map fun value => (k.1,value)) =
      ValueCodec.decodeEntry .ok fromValue ∘ fun k => (k.1,val k.1 k.2) := by
    funext k
    dsimp only [Function.comp_apply, ValueCodec.decodeEntry]
    cases fromValue (val k.1 k.2) <;> rfl
  rw [fromValue, ValueCodec.decodeMap, BTreeMap.toList, List.mapM_map, hentry]
  cases keys.attach.mapM (ValueCodec.decodeEntry .ok fromValue ∘ fun k => (k.1,val k.1 k.2)) <;>
    rfl

theorem toValue_object (m : BTreeMap String JsonValue) :
    toValue (.object m) = .map (m.mapVal toValue) := rfl

theorem fromValue_numberToValue (number : JsonNumber) :
    fromValue (numberToValue number) = .ok (.number number) := by
  cases number with
  | posInt value => rfl
  | negInt value negative =>
    have h : JsonNumber.ofInt64 value = .negInt value negative := dif_pos negative
    rw [numberToValue, fromValue, h]
  | float value finite =>
    have h : JsonNumber.fromF64 value = some (.float value finite) := dif_pos finite
    rw [numberToValue, fromValue, h]

theorem fromValue_toValue (value : JsonValue) : fromValue (toValue value) = .ok value := by
  induction value using induct with
  | null => rfl
  | bool value => rfl
  | string value => rfl
  | number value => exact fromValue_numberToValue value
  | array values ih =>
    rw [toValue, fromValue, toValues_eq_map, fromValues_eq_mapM]
    refine map_eq_ok.mpr ⟨values,mapM_eq_ok.mpr ?_,rfl⟩
    rw [List.forall₂_map_left_iff]
    exact List.forall₂_same.mpr ih
  | object m ih =>
    rw [toValue_object, fromValue_map]
    refine map_eq_ok.mpr
      ⟨m,ValueCodec.stringTexts.decodeMap_eq_ok.mpr ⟨fun s _ => ⟨s,rfl⟩,fun k => ?_⟩,rfl⟩
    rw [id_eq, BTreeMap.get?_mapVal]
    cases h : m.get? k with
    | none => exact .none
    | some value => exact .some (ih k value h)

end JsonValue

namespace ValueCodec

def json : ValueCodec JsonValue where
  phenixType := .any
  toValue := JsonValue.toValue
  fromValue := JsonValue.fromValue

theorem json_lawful : json.Lawful where
  fromValue_toValue := JsonValue.fromValue_toValue
  parse_toValue _ := rfl
  parse_of_fromValue _ _ _ := rfl
  project_of_fromValue _ _ h := h

end ValueCodec
end PhenixConductor.Contract

/-! ## Types built from the value codecs

A type expression names a type with its codec, and its order where the type has one. Only
the members of a set need an order. The orders are the derived ones: lists and the entries
of maps and sets are compared from the left, and no value comes before any value.
-/
namespace PhenixConductor.Contract
open Collections ValueCodec

section Orders
variable {T K : Type} [LinearOrder T] [LinearOrder K]

abbrev u64Order : LinearOrder UInt64 :=
  LinearOrder.lift' UInt64.toNat fun _ _ => UInt64.toNat_inj.mp

abbrev i64Order : LinearOrder Int64 :=
  LinearOrder.lift' Int64.toInt fun _ _ => Int64.toInt_inj.mp

abbrev optionOrder : LinearOrder (Option T) :=
  LinearOrder.lift' Option.toList fun a b h => by cases a <;> cases b <;> simp_all

abbrev boxOrder : LinearOrder (Box T) :=
  LinearOrder.lift' Box.value fun ⟨_⟩ ⟨_⟩ h => congrArg Box.mk h

abbrev arrayOrder (n : ℕ) : LinearOrder (List.Vector T n) :=
  LinearOrder.lift' List.Vector.toList fun _ _ => Subtype.ext

abbrev mapOrder : LinearOrder (BTreeMap K T) :=
  LinearOrder.lift' (fun m => m.toList.map toLex) fun _ _ h =>
    BTreeMap.toList_injective (List.map_injective_iff.mpr toLex.injective h)

abbrev setOrder : LinearOrder (BTreeSet T) :=
  LinearOrder.lift' BTreeMap.keys fun a b h => BTreeMap.ext fun k => by
    cases a; cases b; cases h; rfl

end Orders

/-- A type with its codec, and with an order if it has one. -/
structure CodecType (ordered : Bool) where
  carrier : Type
  codec : ValueCodec carrier
  order : ordered = true → LinearOrder carrier

/-- The types that are built from the codecs, to any depth. -/
inductive ValueType : Bool → Type where
  | unit : ValueType true
  | bool : ValueType true
  | unsigned (width : UnsignedWidth) : ValueType true
  | signed (width : SignedWidth) : ValueType true
  | usize (width : PointerWidth) : ValueType true
  | u64 : ValueType true
  | i64 : ValueType true
  | f64 : ValueType false
  | string : ValueType true
  | bytes : ValueType false
  | json : ValueType false
  | option {ordered : Bool} (item : ValueType ordered) : ValueType ordered
  | vec {ordered : Bool} (item : ValueType ordered) : ValueType ordered
  | array {ordered : Bool} (item : ValueType ordered) (n : ℕ) : ValueType ordered
  | box {ordered : Bool} (item : ValueType ordered) : ValueType ordered
  | stringMap {ordered : Bool} (item : ValueType ordered) : ValueType ordered
  | callableMap {ordered : Bool} (item : ValueType ordered) : ValueType ordered
  | set (item : ValueType true) : ValueType true

namespace ValueType

def interpret {ordered : Bool} : ValueType ordered → CodecType ordered
  | .unit => ⟨Unit,.unit,fun _ => inferInstance⟩
  | .bool => ⟨Bool,.bool,fun _ => inferInstance⟩
  | .unsigned width => ⟨Unsigned width.bits,.unsigned width,fun _ => inferInstance⟩
  | .signed width => ⟨Signed width.bits,.signed width,fun _ => inferInstance⟩
  | .usize width => ⟨Unsigned width.bits,.usize width,fun _ => inferInstance⟩
  | .u64 => ⟨UInt64,.u64,fun _ => u64Order⟩
  | .i64 => ⟨Int64,.i64,fun _ => i64Order⟩
  | .f64 => ⟨F64,.f64,nofun⟩
  | .string => ⟨String,.string,fun _ => inferInstance⟩
  | .bytes => ⟨Bytes,.bytes,nofun⟩
  | .json => ⟨JsonValue,.json,nofun⟩
  | .option item => ⟨_,item.interpret.codec.option,fun h =>
      letI := item.interpret.order h; optionOrder⟩
  | .vec item => ⟨_,item.interpret.codec.vec,fun h =>
      letI := item.interpret.order h; inferInstance⟩
  | .array item n => ⟨_,item.interpret.codec.array n,fun h =>
      letI := item.interpret.order h; arrayOrder n⟩
  | .box item => ⟨_,item.interpret.codec.box,fun h =>
      letI := item.interpret.order h; boxOrder⟩
  | .stringMap item => ⟨_,item.interpret.codec.stringMap,fun h =>
      letI := item.interpret.order h; mapOrder⟩
  | .callableMap item => ⟨_,item.interpret.codec.callableMap,fun h =>
      letI := item.interpret.order h; mapOrder⟩
  | .set item =>
    letI := item.interpret.order rfl
    ⟨_,item.interpret.codec.set,fun _ => setOrder⟩

/-- The functions of the codec of every type agree. -/
theorem codec_lawful {ordered : Bool} (type : ValueType ordered) :
    type.interpret.codec.Lawful := by
  induction type with
  | unit => exact unit_lawful
  | bool => exact bool_lawful
  | unsigned width => exact unsigned_lawful width
  | signed width => exact signed_lawful width
  | usize width => exact usize_lawful width
  | u64 => exact u64_lawful
  | i64 => exact i64_lawful
  | f64 => exact f64_lawful
  | string => exact string_lawful
  | bytes => exact bytes_lawful
  | json => exact json_lawful
  | option item ih => exact ih.option
  | vec item ih => exact ih.vec
  | array item n ih => exact ih.array n
  | box item ih => exact ih.box
  | stringMap item ih => exact ih.stringMap
  | callableMap item ih => exact ih.callableMap
  | set item ih => exact @Lawful.set _ _ (item.interpret.order rfl) ih

end ValueType
end PhenixConductor.Contract
