import PhenixConductor.Contract.Codec
import Mathlib.Data.Vector.Basic

/-! # Codecs of containers

A container is lowered and raised through the codec of its members.
-/
namespace PhenixConductor.Contract
open Collections PhenixSchema BTreeMap

namespace ValueCodec
variable {T K : Type} (item : ValueCodec T)

/-! ### Options and boxes -/

def decodeOption (decode : PhenixValue → Except ValueError T) :
    PhenixValue → Except ValueError (Option T)
  | .option (some value) => (decode value).map some
  | .option none => .ok none
  | value => .error (.typeMismatch .option value.kind)

def option : ValueCodec (Option T) where
  phenixType := .option item.phenixType
  toValue x := .option (x.map item.toValue)
  fromValue := decodeOption item.fromValue
  projectFromValue := decodeOption item.projectFromValue

structure Box (T : Type) where
  value : T

def box : ValueCodec (Box T) where
  phenixType := item.phenixType
  toValue x := item.toValue x.value
  fromValue value := (item.fromValue value).map .mk
  projectFromValue value := (item.projectFromValue value).map .mk

/-! ### Lists and arrays -/

def decodeList (decode : PhenixValue → Except ValueError T) :
    PhenixValue → Except ValueError (List T)
  | .list values => values.mapM decode
  | value => .error (.typeMismatch .list value.kind)

def vec : ValueCodec (List T) where
  phenixType := .list item.phenixType
  toValue x := .list (x.map item.toValue)
  fromValue := decodeList item.fromValue
  projectFromValue := decodeList item.projectFromValue

def wrongLength (expected actual : ℕ) : ValueError :=
  .invalidValue ("expected " ++ toString expected ++ " values, got " ++ toString actual)

def decodeArray (n : ℕ) (decode : PhenixValue → Except ValueError T) :
    PhenixValue → Except ValueError (List.Vector T n)
  | .list values => do
    if values.length ≠ n then throw (wrongLength n values.length)
    let items ← values.mapM decode
    if h : items.length = n then return ⟨items,h⟩ else throw (wrongLength n items.length)
  | value => .error (.typeMismatch .array value.kind)

def array (n : ℕ) : ValueCodec (List.Vector T n) where
  phenixType := .array item.phenixType n
  toValue x := .list (x.toList.map item.toValue)
  fromValue := decodeArray n item.fromValue
  projectFromValue := decodeArray n item.projectFromValue

/-! ### Maps -/

def decodeEntry (parseKey : String → Except ValueError K)
    (decode : PhenixValue → Except ValueError T) (entry : String × PhenixValue) :
    Except ValueError (K × T) := do
  let key ← parseKey entry.1
  let value ← decode entry.2
  return (key,value)

section Maps
variable [LinearOrder K]

/-- The entries of a map with their keys as texts. -/
def encodeMap (keyText : K → String) (encode : T → PhenixValue) (m : BTreeMap K T) :
    BTreeMap String PhenixValue :=
  .ofList (m.toList.map fun (key,value) => (keyText key,encode value))

def decodeMap (parseKey : String → Except ValueError K)
    (decode : PhenixValue → Except ValueError T) : PhenixValue → Except ValueError (BTreeMap K T)
  | .map values => (values.toList.mapM (decodeEntry parseKey decode)).map .ofList
  | value => .error (.typeMismatch .map value.kind)

/-- A map whose keys are texts, with what their parser accepts. -/
def mapOf (keyText : K → String) (parseKey : String → Except ValueError K) :
    ValueCodec (BTreeMap K T) where
  phenixType := .map item.phenixType
  toValue x := .map (encodeMap keyText item.toValue x)
  fromValue := decodeMap parseKey item.fromValue
  projectFromValue := decodeMap parseKey item.projectFromValue

end Maps

/-- The keys of a string map need no check. -/
def stringMap : ValueCodec (BTreeMap String T) := item.mapOf id .ok

def parseCallableId (text : String) : Except ValueError CallableId :=
  match h : validateText IdentifierKind.callable.noun text with
  | .ok () => .ok ⟨text,h⟩
  | .error message => .error (.invalidValue message)

def callableMap : ValueCodec (BTreeMap CallableId T) := item.mapOf Identifier.text parseCallableId

/-! ### Sets -/

section Sets
variable [LinearOrder T]

def projectSet : PhenixValue → Except ValueError (BTreeSet T)
  | .list values => (values.mapM item.projectFromValue).map .collect
  | value => .error (.typeMismatch .list value.kind)

/-- Unlike the other containers, a set checks its schema first, and raises its members in the
projecting way also when it is exact. -/
def set : ValueCodec (BTreeSet T) where
  phenixType := .list item.phenixType
  toValue x := .list (x.keys.map item.toValue)
  fromValue value := do
    (list item.phenixType).parse value
    item.projectSet value
  projectFromValue := item.projectSet

end Sets
/-! ### Laws -/

variable {item}

section
variable (h : item.Lawful)
include h

theorem Lawful.option : item.option.Lawful where
  fromValue_toValue x := by
    cases x with
    | none => rfl
    | some x => exact map_eq_ok.mpr ⟨x,h.fromValue_toValue x,rfl⟩
  parse_toValue x := by
    cases x with
    | none => rfl
    | some x => exact h.parse_toValue x
  parse_of_fromValue v x hfrom := by
    cases v with
    | option value =>
      cases value with
      | none => rfl
      | some value =>
        obtain ⟨y,hy,-⟩ := map_eq_ok.mp hfrom
        exact h.parse_of_fromValue value y hy
    | _ => cases hfrom
  project_of_fromValue v x hfrom := by
    cases v with
    | option value =>
      cases value with
      | none => exact hfrom
      | some value =>
        obtain ⟨y,hy,rfl⟩ := map_eq_ok.mp hfrom
        exact map_eq_ok.mpr ⟨y,h.project_of_fromValue value y hy,rfl⟩
    | _ => cases hfrom

theorem Lawful.box : item.box.Lawful where
  fromValue_toValue x := map_eq_ok.mpr ⟨x.value,h.fromValue_toValue x.value,rfl⟩
  parse_toValue x := h.parse_toValue x.value
  parse_of_fromValue v x hfrom := by
    obtain ⟨y,hy,-⟩ := map_eq_ok.mp hfrom
    exact h.parse_of_fromValue v y hy
  project_of_fromValue v x hfrom := by
    obtain ⟨y,hy,rfl⟩ := map_eq_ok.mp hfrom
    exact map_eq_ok.mpr ⟨y,h.project_of_fromValue v y hy,rfl⟩

theorem Lawful.mapM_toValue (items : List T) :
    (items.map item.toValue).mapM item.fromValue = .ok items := by
  rw [mapM_eq_ok, List.forall₂_map_left_iff]
  exact List.forall₂_same.mpr fun x _ => h.fromValue_toValue x

theorem Lawful.parse_of_mapM {values : List PhenixValue} {items : List T}
    (hfrom : values.mapM item.fromValue = .ok items) :
    ∀ value ∈ values, item.phenixType.parse value = .ok () := by
  intro value hvalue
  obtain ⟨x,-,hx⟩ := Forall₂.exists_right (mapM_eq_ok.mp hfrom) hvalue
  exact h.parse_of_fromValue value x hx

theorem Lawful.project_of_mapM {values : List PhenixValue} {items : List T}
    (hfrom : values.mapM item.fromValue = .ok items) :
    values.mapM item.projectFromValue = .ok items :=
  mapM_eq_ok.mpr ((mapM_eq_ok.mp hfrom).imp h.project_of_fromValue)

theorem Lawful.parse_all (items : List T) :
    ∀ value ∈ items.map item.toValue, item.phenixType.parse value = .ok () := by
  intro value hvalue
  obtain ⟨x,-,rfl⟩ := List.mem_map.mp hvalue
  exact h.parse_toValue x

theorem Lawful.vec : item.vec.Lawful where
  fromValue_toValue := h.mapM_toValue
  parse_toValue x := (parse_list _ _).mpr (h.parse_all x)
  parse_of_fromValue v x hfrom := by
    cases v with
    | list values => exact (parse_list _ _).mpr (h.parse_of_mapM hfrom)
    | _ => cases hfrom
  project_of_fromValue v x hfrom := by
    cases v with
    | list values => exact h.project_of_mapM hfrom
    | _ => cases hfrom

end

/-- The check of the length before the members makes the one after them succeed. -/
theorem decodeArray_eq_ok {n : ℕ} {decode : PhenixValue → Except ValueError T}
    {values : List PhenixValue} {x : List.Vector T n} :
    decodeArray n decode (.list values) = .ok x ↔
      values.length = n ∧ values.mapM decode = .ok x.toList := by
  dsimp only [decodeArray]
  by_cases hlength : values.length = n
  swap
  · rw [if_pos hlength]
    exact iff_of_false nofun fun h => hlength h.1
  rw [if_neg (not_not.mpr hlength)]
  change (values.mapM decode >>= fun items =>
    if h : items.length = n then pure ⟨items,h⟩ else throw (wrongLength n items.length)) =
      Except.ok x ↔ _
  rw [bind_eq_ok]
  constructor
  · rintro ⟨items,hitems,h⟩
    split_ifs at h
    cases h
    exact ⟨hlength,hitems⟩
  · rintro ⟨-,hitems⟩
    exact ⟨x.toList,hitems,dif_pos x.toList_length⟩

theorem Lawful.array (h : item.Lawful) (n : ℕ) : (item.array n).Lawful where
  fromValue_toValue x := decodeArray_eq_ok.mpr ⟨by simp,h.mapM_toValue x.toList⟩
  parse_toValue x := (parse_array _ _ _).mpr ⟨by simp,h.parse_all x.toList⟩
  parse_of_fromValue v x hfrom := by
    cases v with
    | list values =>
      obtain ⟨hlength,hitems⟩ := decodeArray_eq_ok.mp hfrom
      exact (parse_array _ _ _).mpr ⟨hlength,h.parse_of_mapM hitems⟩
    | _ => cases hfrom
  project_of_fromValue v x hfrom := by
    cases v with
    | list values =>
      obtain ⟨hlength,hitems⟩ := decodeArray_eq_ok.mp hfrom
      exact decodeArray_eq_ok.mpr ⟨hlength,h.project_of_mapM hitems⟩
    | _ => cases hfrom

theorem collect_keys [LinearOrder T] (x : BTreeSet T) : BTreeSet.collect x.keys = x := by
  ext1 k
  cases hk : x.get? k with
  | none =>
    rw [get?_eq_none] at hk ⊢
    rwa [BTreeSet.mem_collect]
  | some u =>
    have hmem : k ∈ x.keys := x.mem_keys_iff.mpr (by rw [hk]; rfl)
    exact get?_of_mem _ (BTreeSet.mem_collect.mpr hmem)

theorem Lawful.set [LinearOrder T] (h : item.Lawful) : item.set.Lawful where
  fromValue_toValue x := by
    refine seq_eq_ok.mpr ⟨(parse_list _ _).mpr (h.parse_all x.keys),?_⟩
    exact map_eq_ok.mpr ⟨x.keys,h.project_of_mapM (h.mapM_toValue x.keys),collect_keys x⟩
  parse_toValue x := (parse_list _ _).mpr (h.parse_all x.keys)
  parse_of_fromValue v x hfrom := (seq_eq_ok.mp hfrom).1
  project_of_fromValue v x hfrom := (seq_eq_ok.mp hfrom).2

section Maps
variable {keyText : K → String} {parseKey : String → Except ValueError K}

/-- The parser of keys accepts the texts of keys and nothing else. -/
structure KeyTexts (keyText : K → String) (parseKey : String → Except ValueError K) : Prop where
  parse : ∀ k, parseKey (keyText k) = .ok k
  text : ∀ s k, parseKey s = .ok k → keyText k = s

variable {decode : PhenixValue → Except ValueError T}

theorem decodeEntry_eq_ok {entry : String × PhenixValue} {k : K} {x : T} :
    decodeEntry parseKey decode entry = .ok (k,x) ↔
      parseKey entry.1 = .ok k ∧ decode entry.2 = .ok x := by
  dsimp only [decodeEntry]
  rw [bind_eq_ok]
  constructor
  · rintro ⟨key,hkey,h⟩
    obtain ⟨value,hvalue,h⟩ := bind_eq_ok.mp h
    cases h
    exact ⟨hkey,hvalue⟩
  · rintro ⟨hkey,hvalue⟩
    exact ⟨k,hkey,bind_eq_ok.mpr ⟨x,hvalue,rfl⟩⟩

theorem KeyTexts.injective (h : KeyTexts keyText parseKey) : Function.Injective keyText := by
  intro j k hsame
  exact Except.ok.inj ((h.parse j).symm.trans ((congrArg parseKey hsame).trans (h.parse k)))

variable {values : BTreeMap String PhenixValue}

theorem KeyTexts.mem_entries (h : KeyTexts keyText parseKey) {entries : List (K × T)}
    (hentries : values.toList.mapM (decodeEntry parseKey decode) = .ok entries) {k : K} {x : T} :
    (k,x) ∈ entries ↔ ∃ v, values.get? (keyText k) = some v ∧ decode v = .ok x := by
  have hall := mapM_eq_ok.mp hentries
  constructor
  · intro hmem
    obtain ⟨⟨s,v⟩,hv,hentry⟩ := Forall₂.exists_left hall hmem
    obtain ⟨hkey,hvalue⟩ := decodeEntry_eq_ok.mp hentry
    rw [h.text s k hkey]
    exact ⟨v,values.mem_toList.mp hv,hvalue⟩
  · rintro ⟨v,hv,hvalue⟩
    obtain ⟨⟨j,y⟩,hmem,hentry⟩ := Forall₂.exists_right hall (values.mem_toList.mpr hv)
    obtain ⟨hkey,hvalue'⟩ := decodeEntry_eq_ok.mp hentry
    cases (h.parse k).symm.trans hkey
    cases hvalue.symm.trans hvalue'
    exact hmem

variable [LinearOrder K]

/-- A map is decoded to the map of its decoded values, if all its keys are accepted. -/
theorem KeyTexts.decodeMap_eq_ok (h : KeyTexts keyText parseKey) {m : BTreeMap K T} :
    decodeMap parseKey decode (.map values) = .ok m ↔
      (∀ s ∈ values.keys, ∃ k, parseKey s = .ok k) ∧
        ∀ k, Option.Rel (fun v x => decode v = .ok x) (values.get? (keyText k)) (m.get? k) := by
  have hdecoded : ∀ {m : BTreeMap K T}, decodeMap parseKey decode (.map values) = .ok m →
      (∀ s ∈ values.keys, ∃ k, parseKey s = .ok k) ∧
        ∀ k, Option.Rel (fun v x => decode v = .ok x) (values.get? (keyText k)) (m.get? k) := by
    intro m hm
    obtain ⟨entries,hentries,rfl⟩ := map_eq_ok.mp hm
    have hall := mapM_eq_ok.mp hentries
    have hget : ∀ {k : K} {x : T}, (ofList entries).get? k = some x ↔
        ∃ v, values.get? (keyText k) = some v ∧ decode v = .ok x := by
      intro k x
      rw [get?_ofList, h.mem_entries hentries]
      intro k x y hx hy
      obtain ⟨v,hv,hx⟩ := (h.mem_entries hentries).mp hx
      obtain ⟨w,hw,hy⟩ := (h.mem_entries hentries).mp hy
      cases hv.symm.trans hw
      exact Except.ok.inj (hx.symm.trans hy)
    constructor
    · intro s hs
      obtain ⟨v,hv⟩ := Option.isSome_iff_exists.mp (values.mem_keys_iff.mp hs)
      obtain ⟨⟨k,x⟩,-,hentry⟩ := Forall₂.exists_right hall (values.mem_toList.mpr hv)
      exact ⟨k,(decodeEntry_eq_ok.mp hentry).1⟩
    · intro k
      cases hv : values.get? (keyText k) with
      | none =>
        cases hx : (ofList entries).get? k with
        | none => exact .none
        | some x =>
          obtain ⟨v,hsome,-⟩ := hget.mp hx
          cases hv.symm.trans hsome
      | some v =>
        obtain ⟨⟨j,x⟩,-,hentry⟩ := Forall₂.exists_right hall (values.mem_toList.mpr hv)
        have hvalue := (decodeEntry_eq_ok.mp hentry).2
        rw [hget.mpr ⟨v,hv,hvalue⟩]
        exact .some hvalue
  refine ⟨hdecoded,?_⟩
  rintro ⟨hkeys,hrel⟩
  obtain ⟨entries,hentries⟩ : ∃ entries,
      values.toList.mapM (decodeEntry parseKey decode) = .ok entries := by
    apply mapM_ok_of_forall
    rintro ⟨s,v⟩ hv
    have hget := values.mem_toList.mp hv
    obtain ⟨k,hk⟩ := hkeys s (values.mem_keys_iff.mpr (by rw [hget]; rfl))
    have hk' := hrel k
    rw [h.text s k hk, hget] at hk'
    generalize m.get? k = x at hk'
    cases hk' with
    | some hvalue => exact ⟨_,decodeEntry_eq_ok.mpr ⟨hk,hvalue⟩⟩
  have hm : decodeMap parseKey decode (.map values) = .ok (ofList entries) :=
    map_eq_ok.mpr ⟨entries,hentries,rfl⟩
  rw [hm]
  congr 1
  ext1 k
  have hleft := (hdecoded hm).2 k
  have hright := hrel k
  generalize values.get? (keyText k) = v at hleft hright
  generalize (ofList entries).get? k = x at hleft ⊢
  generalize m.get? k = y at hright ⊢
  cases hleft with
  | none =>
    cases hright with
    | none => rfl
  | some hx =>
    cases hright with
    | some hy => rw [Except.ok.inj (hx.symm.trans hy)]

theorem KeyTexts.get?_encodeMap (h : KeyTexts keyText parseKey) {encode : T → PhenixValue}
    {m : BTreeMap K T} {s : String} {v : PhenixValue} :
    (encodeMap keyText encode m).get? s = some v ↔
      ∃ k x, m.get? k = some x ∧ keyText k = s ∧ encode x = v := by
  have hmem : ∀ {s v}, (s,v) ∈ m.toList.map (fun (key,value) => (keyText key,encode value)) ↔
      ∃ k x, m.get? k = some x ∧ keyText k = s ∧ encode x = v := by
    intro s v
    rw [List.mem_map]
    constructor
    · rintro ⟨⟨k,x⟩,hk,heq⟩
      cases heq
      exact ⟨k,x,m.mem_toList.mp hk,rfl,rfl⟩
    · rintro ⟨k,x,hk,rfl,rfl⟩
      exact ⟨(k,x),m.mem_toList.mpr hk,rfl⟩
  rw [encodeMap, get?_ofList, hmem]
  intro s v w hv hw
  obtain ⟨j,x,hj,hs,rfl⟩ := hmem.mp hv
  obtain ⟨k,y,hk,rfl,rfl⟩ := hmem.mp hw
  cases h.injective hs
  rw [Option.some.inj (hj.symm.trans hk)]

theorem KeyTexts.get?_encodeMap_text (h : KeyTexts keyText parseKey) (encode : T → PhenixValue)
    (m : BTreeMap K T) (k : K) :
    (encodeMap keyText encode m).get? (keyText k) = (m.get? k).map encode := by
  ext v
  rw [h.get?_encodeMap, Option.map_eq_some_iff]
  constructor
  · rintro ⟨j,x,hj,hsame,hv⟩
    cases h.injective hsame
    exact ⟨x,hj,hv⟩
  · rintro ⟨x,hx,hv⟩
    exact ⟨k,x,hx,rfl,hv⟩

theorem Lawful.mapOf (h : item.Lawful) (hkeys : KeyTexts keyText parseKey) :
    (item.mapOf keyText parseKey).Lawful where
  fromValue_toValue m := by
    refine hkeys.decodeMap_eq_ok.mpr ⟨fun s hs => ?_,fun k => ?_⟩
    · obtain ⟨v,hv⟩ := Option.isSome_iff_exists.mp ((mem_keys_iff _).mp hs)
      obtain ⟨k,-,-,rfl,-⟩ := hkeys.get?_encodeMap.mp hv
      exact ⟨k,hkeys.parse k⟩
    · rw [hkeys.get?_encodeMap_text]
      cases m.get? k with
      | none => exact .none
      | some x => exact .some (h.fromValue_toValue x)
  parse_toValue m := by
    refine (parse_map _ _).mpr fun s v hv => ?_
    obtain ⟨k,x,-,-,rfl⟩ := hkeys.get?_encodeMap.mp hv
    exact h.parse_toValue x
  parse_of_fromValue v m hfrom := by
    cases v with
    | map values =>
      obtain ⟨haccepted,hrel⟩ := hkeys.decodeMap_eq_ok.mp hfrom
      refine (parse_map _ _).mpr fun s v hv => ?_
      obtain ⟨k,hk⟩ := haccepted s (values.mem_keys_iff.mpr (by rw [hv]; rfl))
      have hdecoded := hrel k
      rw [hkeys.text s k hk, hv] at hdecoded
      generalize m.get? k = x at hdecoded
      cases hdecoded with
      | some hvalue => exact h.parse_of_fromValue v _ hvalue
    | _ => cases hfrom
  project_of_fromValue v m hfrom := by
    cases v with
    | map values =>
      obtain ⟨haccepted,hrel⟩ := hkeys.decodeMap_eq_ok.mp hfrom
      refine hkeys.decodeMap_eq_ok.mpr ⟨haccepted,fun k => ?_⟩
      have hdecoded := hrel k
      generalize values.get? (keyText k) = v at hdecoded ⊢
      generalize m.get? k = x at hdecoded ⊢
      cases hdecoded with
      | none => exact .none
      | some hvalue => exact .some (h.project_of_fromValue _ _ hvalue)
    | _ => cases hfrom

end Maps

theorem stringTexts : KeyTexts id (Except.ok : String → Except ValueError String) :=
  ⟨fun _ => rfl,fun _ _ h => (Except.ok.inj h).symm⟩

theorem parseCallableId_eq_ok {s : String} {k : CallableId} :
    parseCallableId s = .ok k ↔ k.text = s := by
  unfold parseCallableId
  constructor
  · intro h
    split at h
    · cases h
      rfl
    · cases h
  · rintro rfl
    split
    · rfl
    · next message h => cases k.valid.symm.trans h

theorem Lawful.stringMap (h : item.Lawful) : item.stringMap.Lawful :=
  h.mapOf stringTexts

theorem Lawful.callableMap (h : item.Lawful) : item.callableMap.Lawful :=
  h.mapOf ⟨fun _ => parseCallableId_eq_ok.mpr rfl,fun _ _ => parseCallableId_eq_ok.mp⟩

end ValueCodec
end PhenixConductor.Contract
