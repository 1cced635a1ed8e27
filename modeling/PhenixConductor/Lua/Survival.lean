import PhenixConductor.Lua.Values
import PhenixConductor.Collections.Entries
import Mathlib.Data.List.Induction
import Mathlib.Data.List.ReduceOption
import Mathlib.Data.List.TakeWhile

/-! # What survives the Lua boundary

Unit and absent options become nil.
-/
namespace PhenixConductor.Lua
open Contract Collections
open PhenixValue (induct)
open BTreeMap (get?_alter get?_eq_some mem_keys_iff toList)
open PhenixSchema (parse_array parse_list parse_map parse_table parse_variant table)
open LuaString (ofText ofText_injective toText?_ofText)

/-! ## Values and schemas -/

/-- A schema of data: nothing is accepted unseen, and no capability crosses. -/
def Plain : PhenixSchema → Prop
  | .any | .never | .callable _ _ _ | .object _ => False
  | .option item | .array item _ | .list item | .map item => Plain item
  | .table ⟨keys,_,val⟩ | .variant ⟨keys,_,val⟩ => ∀ k (h : k ∈ keys), Plain (val k h)
  | _ => True

example : Plain (.list .unit) := by simp [Plain]

theorem Plain.field {m : BTreeMap Key PhenixSchema} (h : Plain (.table m)) {k : Key}
    {t : PhenixSchema} (hk : m.get? k = some t) : Plain t := by
  obtain ⟨hmem,rfl⟩ := m.get?_eq_some.mp hk
  exact h k hmem

theorem Plain.payload {m : BTreeMap Key PhenixSchema} (h : Plain (.variant m)) {k : Key}
    {t : PhenixSchema} (hk : m.get? k = some t) : Plain t := by
  obtain ⟨hmem,rfl⟩ := m.get?_eq_some.mp hk
  exact h k hmem

mutual
/-- A condition holds of a value and of every value in it. -/
def Every (p : PhenixValue → Prop) : PhenixValue → Prop
  | .option (some v) => p (.option (some v)) ∧ Every p v
  | .list vs => p (.list vs) ∧ EveryOf p vs
  | .map ⟨keys,sorted,val⟩ => p (.map ⟨keys,sorted,val⟩) ∧ ∀ k (h : k ∈ keys), Every p (val k h)
  | .table ⟨keys,sorted,val⟩ => p (.table ⟨keys,sorted,val⟩) ∧ ∀ k (h : k ∈ keys), Every p (val k h)
  | .variant tag v => p (.variant tag v) ∧ Every p v
  | v => p v

def EveryOf (p : PhenixValue → Prop) : List PhenixValue → Prop
  | [] => True
  | v :: vs => Every p v ∧ EveryOf p vs
end

example : Every (fun _ => True) (.list []) := by simp [Every, EveryOf]

section
variable {p : PhenixValue → Prop}

theorem every_list {vs : List PhenixValue} :
    Every p (.list vs) ↔ p (.list vs) ∧ ∀ v ∈ vs, Every p v := by
  have hall : EveryOf p vs ↔ ∀ v ∈ vs, Every p v := by
    induction vs with
    | nil => simp [EveryOf]
    | cons v vs ih => rw [EveryOf, ih, List.forall_mem_cons]
  rw [Every, hall]

theorem every_map {m : BTreeMap String PhenixValue} :
    Every p (.map m) ↔ p (.map m) ∧ ∀ k v, m.get? k = some v → Every p v := by
  simp only [Every, get?_eq_some]
  exact and_congr_right fun _ =>
    ⟨fun h k v ⟨hk,hv⟩ => hv ▸ h k hk,fun h k hk => h k _ ⟨hk,rfl⟩⟩

theorem every_table {m : BTreeMap Key PhenixValue} :
    Every p (.table m) ↔ p (.table m) ∧ ∀ k v, m.get? k = some v → Every p v := by
  simp only [Every, get?_eq_some]
  exact and_congr_right fun _ =>
    ⟨fun h k v ⟨hk,hv⟩ => hv ▸ h k hk,fun h k hk => h k _ ⟨hk,rfl⟩⟩

end

/-- The number can be represented in Lua. -/
def Sendable : PhenixValue → Prop
  | .u64 value => value.toNat < 2 ^ 63
  | .f64 value => value.isFinite = true
  | _ => True

/-- The value becomes nil. -/
def BecomesNil : PhenixValue → Prop
  | .unit | .option none => True
  | .option (some v) => BecomesNil v
  | _ => False

/-- The text that the value has for a reader of the tag. -/
def kindText (lua : LuaLibrary) : PhenixValue → Option String
  | .string text => some text
  | .bytes bytes => LuaString.toText? ⟨bytes⟩
  | .i64 value => some (lua.integerText value)
  | .u64 value => some (lua.integerText value.toInt64)
  | .f64 value => some (lua.numberText value)
  | .option (some v) => kindText lua v
  | _ => none

/-- Nothing is lost at this place: no nil where it is dropped or mistaken for an absent option,
and no field of a payload that hides the tag. -/
def Kept (lua : LuaLibrary) : PhenixValue → Prop
  | .option (some v) => ¬ BecomesNil v
  | .list vs => ∀ v ∈ vs, ¬ BecomesNil v
  | .map m => ∀ k v, m.get? k = some v → ¬ BecomesNil v
  | .variant tag (.table fields) => ∀ k v, fields.get? k = some v → k.text = "kind" →
      kindText lua v = some tag.text
  | _ => True

/-! ## Tables that are written entry by entry -/

theorem present_getD (value : LuaValue) : value.present.getD .nil = value := by
  cases value <;> rfl

variable {value : LuaValue}

theorem present_eq_some {other : LuaValue} (h : value.present = some other) : other = value := by
  cases value <;> cases h <;> rfl

theorem present_isSome : value.present.isSome ↔ value ≠ .nil := by
  cases value <;> simp [LuaValue.present]

theorem setFields_items (t : LuaTable LuaValue) (entries : List (LuaString × LuaValue)) :
    (setFields t entries).items = t.items := by
  induction entries generalizing t with
  | nil => rfl
  | cons entry entries ih => exact ih _

variable {entries : List (LuaString × LuaValue)}

theorem get?_setFields_of_notMem (t : LuaTable LuaValue) {key : LuaString}
    (h : key ∉ entries.map Prod.fst) :
    (setFields t entries).fields.get? key = t.fields.get? key := by
  induction entries generalizing t with
  | nil => rfl
  | cons entry entries ih =>
    rw [List.map_cons, List.mem_cons, not_or] at h
    exact (ih _ h.2).trans ((get?_alter _ _ _ _).trans (if_neg h.1))

theorem get?_setFields_of_mem (t : LuaTable LuaValue) (hnodup : (entries.map Prod.fst).Nodup)
    {key : LuaString} (h : (key,value) ∈ entries) :
    (setFields t entries).fields.get? key = value.present := by
  induction entries generalizing t with
  | nil => exact absurd h List.not_mem_nil
  | cons entry entries ih =>
    obtain ⟨hfirst,hrest⟩ := List.nodup_cons.mp hnodup
    rcases List.mem_cons.mp h with rfl | h
    · exact (get?_setFields_of_notMem _ hfirst).trans
        ((get?_alter _ _ _ _).trans (if_pos rfl))
    · exact ih _ hrest h

theorem sequenceTable_concat (values : List LuaValue) (value : LuaValue) :
    sequenceTable (values ++ [value]) =
      (sequenceTable values).setIndex (values.length + 1) value := by
  simp [sequenceTable, List.zipIdx_append]

theorem get?_sequenceTable (values : List LuaValue) (i : ℕ) :
    (sequenceTable values).items.get? (i + 1) = values[i]?.bind LuaValue.present := by
  induction values using List.reverseRecOn with
  | nil => rfl
  | append_singleton values value ih =>
    rw [sequenceTable_concat]
    refine (get?_alter _ _ _ _).trans ?_
    rw [ih]
    split_ifs with hi
    · cases hi
      simp
    · rcases Nat.lt_or_gt_of_ne fun he => hi (congrArg (· + 1) he) with hlt | hgt
      · rw [List.getElem?_append_left hlt]
      · rw [List.getElem?_eq_none (Nat.le_of_lt hgt), List.getElem?_eq_none (by simp; omega)]

/-- The members up to the first absent index, however far the search goes. -/
theorem takeWhile_range {V : Type} (values : List V) {get : ℕ → Option V} {n : ℕ}
    (hn : values.length ≤ n) (hget : ∀ i (h : i < values.length), get i = some values[i])
    (hend : get values.length = none) :
    (((List.range n).map get).takeWhile Option.isSome).reduceOption = values := by
  induction values generalizing get n with
  | nil =>
    cases n with
    | zero => rfl
    | succ n =>
      have hzero : get 0 = none := hend
      rw [List.range_succ_eq_map, List.map_cons, hzero]
      rfl
  | cons value values ih =>
    cases n with
    | zero => cases hn
    | succ n =>
      have hzero : get 0 = some value := hget 0 (Nat.zero_lt_succ _)
      have hrest := @ih (get ∘ Nat.succ) n (Nat.le_of_succ_le_succ hn)
        (fun i h => hget (i + 1) (Nat.succ_lt_succ h)) hend
      rw [List.range_succ_eq_map, List.map_cons, List.map_map, hzero]
      simp only [List.takeWhile_cons, Option.isSome_some, if_true, List.reduceOption_cons_of_some,
        hrest]

/-- A list is read back up to its first nil. -/
theorem sequenceValues_sequenceTable (values : List LuaValue) :
    LuaTable.sequenceValues (sequenceTable values).items =
      values.takeWhile fun value => value.present.isSome := by
  have happend := List.takeWhile_append_dropWhile (p := fun value : LuaValue => value.present.isSome)
    (l := values)
  have hall : ∀ value ∈ values.takeWhile fun value => value.present.isSome, value ≠ .nil := by
    intro value hvalue
    have hpresent := List.mem_takeWhile_imp (p := fun value : LuaValue => value.present.isSome) hvalue
    exact present_isSome.mp hpresent
  have hstop := List.head?_dropWhile_not (fun value : LuaValue => value.present.isSome) values
  generalize (values.takeWhile fun value => value.present.isSome) = kept at happend hall ⊢
  generalize (values.dropWhile fun value => value.present.isSome) = rest at happend hstop
  subst happend
  have hget : ∀ i (h : i < kept.length),
      (sequenceTable (kept ++ rest)).items.get? (i + 1) = some kept[i] := by
    intro i hi
    rw [get?_sequenceTable, List.getElem?_append_left hi, List.getElem?_eq_getElem hi]
    have hpresent := present_isSome.mpr (hall _ (List.getElem_mem hi))
    obtain ⟨other,hother⟩ := Option.isSome_iff_exists.mp hpresent
    rw [Option.bind_some, hother, present_eq_some hother]
  refine takeWhile_range kept ?_ hget ?_
  · have hsub : (List.range kept.length).map (· + 1) ⊆ (sequenceTable (kept ++ rest)).items.keys := by
      intro k hk
      obtain ⟨i,hi,rfl⟩ := List.mem_map.mp hk
      rw [mem_keys_iff, hget i (List.mem_range.mp hi)]
      rfl
    have hnodup : ((List.range kept.length).map (· + 1)).Nodup :=
      List.nodup_range.map (add_left_injective 1)
    simpa using (List.subperm_of_subset hnodup hsub).length_le
  · rw [get?_sequenceTable, List.getElem?_append_right (Nat.le_refl _), Nat.sub_self,
      ← List.head?_eq_getElem?]
    cases hrest : rest.head? with
    | none => rfl
    | some value =>
      rw [hrest] at hstop
      exact Option.not_isSome_iff_eq_none.mp (by simpa using hstop)

/-! ## Tables of structural values -/

variable {K : Type} [LinearOrder K]

/-- The entries that are written for a map. -/
def luaEntries (lua : LuaLibrary) (name : K → LuaString) (m : BTreeMap K PhenixValue) :
    Except String (List (LuaString × LuaValue)) :=
  m.toList.mapM fun entry => (phenixToLua lua entry.2).map fun value => (name entry.1,value)

theorem phenixToLua_list (lua : LuaLibrary) (vs : List PhenixValue) :
    phenixToLua lua (.list vs) =
      (vs.mapM (phenixToLua lua)).map fun values => .table (sequenceTable values) := by
  have hall : phenixToLuas lua vs = vs.mapM (phenixToLua lua) := by
    induction vs with
    | nil => rfl
    | cons v vs ih => rw [phenixToLuas, ih, List.mapM_cons]
  rw [phenixToLua, hall]

theorem phenixToLua_map (lua : LuaLibrary) (m : BTreeMap String PhenixValue) :
    phenixToLua lua (.map m) = (luaEntries lua ofText m).map fun entries =>
      .table (setFields .empty entries) := by
  rw [luaEntries, toList, List.mapM_map]
  rfl

theorem phenixToLua_table (lua : LuaLibrary) (m : BTreeMap Key PhenixValue) :
    phenixToLua lua (.table m) = (luaEntries lua (fun k => .ofText k.text) m).map fun entries =>
      .table (setFields .empty entries) := by
  rw [luaEntries, toList, List.mapM_map]
  rfl

theorem phenixToLua_variant_table (lua : LuaLibrary) (tag : Key) (m : BTreeMap Key PhenixValue) :
    phenixToLua lua (.variant tag (.table m)) =
      (luaEntries lua (fun k => .ofText k.text) m).map fun entries =>
        .table (setFields (kindTable tag) entries) := by
  rw [luaEntries, toList, List.mapM_map]
  rfl

variable {v : PhenixValue}

/-- A payload with a field of its own. -/
theorem phenixToLua_variant (lua : LuaLibrary) (tag : Key) (hunit : v ≠ .unit)
    (htable : ∀ fields, v ≠ .table fields) : phenixToLua lua (.variant tag v) =
      (phenixToLua lua v).map fun value => .table ((kindTable tag).set valueKey value) := by
  cases v with
  | unit => exact absurd rfl hunit
  | table fields => exact absurd rfl (htable fields)
  | _ => rfl

variable {lua : LuaLibrary}

theorem eq_table_of_variant {tag : Key} (h : phenixToLua lua (.variant tag v) = .ok value) :
    ∃ t, value = .table t := by
  by_cases hunit : v = .unit
  · subst hunit
    cases h
    exact ⟨_,rfl⟩
  · by_cases htable : ∃ fields, v = .table fields
    · obtain ⟨fields,rfl⟩ := htable
      obtain ⟨_,-,rfl⟩ := map_eq_ok.mp h
      exact ⟨_,rfl⟩
    · rw [phenixToLua_variant lua tag hunit (fun fields h => htable ⟨fields,h⟩)] at h
      obtain ⟨_,-,rfl⟩ := map_eq_ok.mp h
      exact ⟨_,rfl⟩

theorem exists_map_eq_ok {ε α β : Type} {x : Except ε α} {f : α → β} :
    (∃ b, x.map f = .ok b) ↔ ∃ a, x = .ok a := by
  cases x <;> simp [Except.map]

variable {name : K → LuaString} {m : BTreeMap K PhenixValue}

theorem luaEntries_isOk : (∃ entries, luaEntries lua name m = .ok entries) ↔
      ∀ k v, m.get? k = some v → ∃ value, phenixToLua lua v = .ok value := by
  constructor
  · rintro ⟨entries,hentries⟩ k v hk
    obtain ⟨entry,-,hentry⟩ := Forall₂.exists_right (mapM_eq_ok.mp hentries) (m.mem_toList.mpr hk)
    obtain ⟨value,hvalue,-⟩ := map_eq_ok.mp hentry
    exact ⟨value,hvalue⟩
  · intro h
    refine mapM_ok_of_forall fun entry hentry => ?_
    obtain ⟨value,hvalue⟩ := h entry.1 entry.2 (m.mem_toList.mp hentry)
    exact ⟨_,map_eq_ok.mpr ⟨value,hvalue,rfl⟩⟩

/-- A table that holds the entries of a map beside what it held before. -/
structure Written (lua : LuaLibrary) (name : K → LuaString) (m : BTreeMap K PhenixValue)
    (before t : LuaTable LuaValue) : Prop where
  items : t.items = before.items
  entry : ∀ k v, m.get? k = some v → ∃ value, phenixToLua lua v = .ok value ∧
    t.fields.get? (name k) = value.present
  other : ∀ key, (∀ k ∈ m.keys, name k ≠ key) → t.fields.get? key = before.fields.get? key

theorem written_setFields (hname : Function.Injective name)
    (h : luaEntries lua name m = .ok entries) (before : LuaTable LuaValue) :
    Written lua name m before (setFields before entries) := by
  have hall := mapM_eq_ok.mp h
  have hkeys : entries.map Prod.fst = m.keys.map name := by
    rw [← m.map_fst_toList]
    generalize m.toList = listed at hall
    clear h
    induction hall with
    | nil => rfl
    | cons hfirst _ ih =>
      obtain ⟨value,-,hentry⟩ := map_eq_ok.mp hfirst
      rw [List.map_cons, ih, ← hentry]
      rfl
  have hnodup : (entries.map Prod.fst).Nodup := hkeys ▸ m.nodup_keys.map hname
  refine ⟨setFields_items _ _,fun k v hk => ?_,fun key hkey => ?_⟩
  · obtain ⟨entry,hmem,hentry⟩ := Forall₂.exists_right hall (m.mem_toList.mpr hk)
    obtain ⟨value,hvalue,rfl⟩ := map_eq_ok.mp hentry
    exact ⟨value,hvalue,get?_setFields_of_mem before hnodup hmem⟩
  · apply get?_setFields_of_notMem
    rw [hkeys]
    intro hmem
    obtain ⟨k,hk,rfl⟩ := List.mem_map.mp hmem
    exact hkey k hk rfl

theorem Written.get {before t : LuaTable LuaValue} (h : Written lua name m before t) {k : K}
    (hk : m.get? k = some v) : phenixToLua lua v = .ok (t.get (name k)) := by
  obtain ⟨value,hvalue,hget⟩ := h.entry k v hk
  rw [LuaTable.get, hget, present_getD, hvalue]

theorem ofText_key_injective : Function.Injective fun k : Key => ofText k.text :=
  ofText_injective.comp Key.text_injective

/-! ## One value -/

section
variable {lua : LuaLibrary}

variable {v : PhenixValue}

/-- A field of a value has its schema among the fields of the schema. -/
theorem parse_field {m : BTreeMap Key PhenixSchema} {fields : BTreeMap Key PhenixValue}
    (hm : Plain (.table m)) (h : (table m).parse (.table fields) = .ok ()) {k : Key}
    (hk : fields.get? k = some v) : ∃ T, Plain T ∧ T.parse v = .ok () := by
  obtain ⟨hfields,hkeys⟩ := (parse_table m fields).mp h
  have hmem : k ∈ fields.keys := fields.mem_keys_iff.mpr (by rw [hk]; rfl)
  obtain ⟨T,hT⟩ := Option.isSome_iff_exists.mp (m.mem_keys_iff.mp (hkeys k hmem))
  obtain ⟨w,hw,hparse⟩ := hfields k T hT
  cases hk.symm.trans hw
  exact ⟨T,hm.field hT,hparse⟩

variable {T : PhenixSchema}

variable (lua) in
/-- Data that Lua can represent is converted. -/
theorem phenixToLua_isOk (hT : Plain T) (hv : T.parse v = .ok ()) :
    (∃ value, phenixToLua lua v = .ok value) ↔ Every Sendable v := by
  induction v using induct generalizing T with
  | unit | bool | i64 | string | bytes | none =>
    exact iff_of_true ⟨_,rfl⟩ trivial
  | u64 value =>
    rw [phenixToLua]
    split_ifs with h
    · exact iff_of_true ⟨_,rfl⟩ h
    · exact iff_of_false (by simp) h
  | f64 value =>
    rw [phenixToLua]
    split_ifs with h
    · exact iff_of_true ⟨_,rfl⟩ h
    · exact iff_of_false (by simp) h
  | some v ih =>
    cases T with
    | option T => exact (ih (T := T) hT hv).trans (and_iff_right trivial).symm
    | any => cases hT
    | _ => cases hv
  | list vs ih =>
    have hitem : ∃ T, Plain T ∧ ∀ v ∈ vs, T.parse v = .ok () := by
      cases T with
      | list T => exact ⟨T,hT,(parse_list T vs).mp hv⟩
      | array T n => exact ⟨T,hT,((parse_array T n vs).mp hv).2⟩
      | any => cases hT
      | _ => cases hv
    obtain ⟨T,hT,hall⟩ := hitem
    rw [every_list, phenixToLua_list, exists_map_eq_ok]
    constructor
    · rintro ⟨values,hvalues⟩
      refine ⟨trivial,fun v hmem => (ih v hmem hT (hall v hmem)).mp ?_⟩
      obtain ⟨value,-,hvalue⟩ := Forall₂.exists_right (mapM_eq_ok.mp hvalues) hmem
      exact ⟨value,hvalue⟩
    · rintro ⟨-,hevery⟩
      exact mapM_ok_of_forall fun v hmem => (ih v hmem hT (hall v hmem)).mpr (hevery v hmem)
  | map m ih =>
    cases T with
    | map T =>
      have hall := (parse_map T m).mp hv
      rw [every_map, phenixToLua_map, exists_map_eq_ok, luaEntries_isOk]
      refine Iff.trans ?_ (and_iff_right trivial).symm
      exact forall_congr' fun k => forall_congr' fun v => forall_congr' fun hk =>
        ih k v hk (T := T) hT (hall k v hk)
    | any => cases hT
    | _ => cases hv
  | table m ih =>
    cases T with
    | table fields =>
      rw [every_table, phenixToLua_table, exists_map_eq_ok, luaEntries_isOk]
      refine Iff.trans ?_ (and_iff_right trivial).symm
      refine forall_congr' fun k => forall_congr' fun v => forall_congr' fun hk => ?_
      obtain ⟨T,hT,hparse⟩ := parse_field hT hv hk
      exact ih k v hk hT hparse
    | any => cases hT
    | _ => cases hv
  | variant tag v ih =>
    cases T with
    | variant variants =>
      obtain ⟨T,hget,hparse⟩ := (parse_variant variants tag v).mp hv
      have hpayload := ih (hT.payload hget) hparse
      refine Iff.trans ?_ (hpayload.trans (and_iff_right trivial).symm)
      by_cases hunit : v = .unit
      · subst hunit
        exact iff_of_true ⟨_,rfl⟩ ⟨_,rfl⟩
      · by_cases htable : ∃ fields, v = .table fields
        · obtain ⟨fields,rfl⟩ := htable
          rw [phenixToLua_variant_table, phenixToLua_table, exists_map_eq_ok, exists_map_eq_ok]
        · rw [phenixToLua_variant lua tag hunit (fun fields h => htable ⟨fields,h⟩), exists_map_eq_ok]
    | any => cases hT
    | _ => cases hv
  | callable r =>
    cases T with
    | any | callable => cases hT
    | _ => cases hv
  | object r =>
    cases T with
    | any | object => cases hT
    | _ => cases hv

theorem eq_nil_iff {value : LuaValue} (hT : Plain T) (hv : T.parse v = .ok ())
    (h : phenixToLua lua v = .ok value) : value = .nil ↔ BecomesNil v := by
  induction v using induct generalizing T with
  | unit | none =>
    cases h
    exact iff_of_true rfl trivial
  | bool | i64 | string | bytes =>
    cases h
    exact iff_of_false (by simp) id
  | u64 | f64 =>
    rw [phenixToLua] at h
    split_ifs at h
    cases h
    exact iff_of_false (by simp) id
  | some v ih =>
    cases T with
    | option T => exact ih (T := T) hT hv h
    | any => cases hT
    | _ => cases hv
  | list | map | table =>
    simp only [phenixToLua_list, phenixToLua_map, phenixToLua_table, map_eq_ok] at h
    obtain ⟨_,-,rfl⟩ := h
    exact iff_of_false (by simp) id
  | variant tag v =>
    obtain ⟨t,rfl⟩ := eq_table_of_variant h
    exact iff_of_false (by simp) id
  | callable | object =>
    cases T with
    | any | callable | object => cases hT
    | _ => cases hv

theorem readText_eq {value : LuaValue} (hT : Plain T) (hv : T.parse v = .ok ())
    (h : phenixToLua lua v = .ok value) : lua.readText value = kindText lua v := by
  induction v using induct generalizing T with
  | unit | none | bool | i64 | bytes =>
    cases h
    rfl
  | string text =>
    cases h
    exact toText?_ofText text
  | u64 | f64 =>
    rw [phenixToLua] at h
    split_ifs at h
    cases h
    rfl
  | some v ih =>
    cases T with
    | option T => exact ih (T := T) hT hv h
    | any => cases hT
    | _ => cases hv
  | list | map | table =>
    simp only [phenixToLua_list, phenixToLua_map, phenixToLua_table, map_eq_ok] at h
    obtain ⟨_,-,rfl⟩ := h
    rfl
  | variant tag v =>
    obtain ⟨t,rfl⟩ := eq_table_of_variant h
    rfl
  | callable | object =>
    cases T with
    | any | callable | object => cases hT
    | _ => cases hv

end

/-! ## Reading tables back -/

section
variable {lua : LuaLibrary}

theorem toStringLossy_ofText (text : String) : (ofText text).toStringLossy = text := by
  rw [LuaString.toStringLossy, toText?_ofText, Option.getD_some]

variable {t : LuaTable LuaValue} {allowedExtra : Option String}

theorem luaTableToRecord_eq_ok {fields : BTreeMap Key (LuaValue → Except String PhenixValue)}
    {r : BTreeMap Key PhenixValue} : luaTableToRecord fields t allowedExtra = .ok r ↔
      (∀ k, Option.Rel (fun convert v => convert (t.get (.ofText k.text)) = .ok v)
        (fields.get? k) (r.get? k)) ∧ checkRecordKeys t fields.keys allowedExtra = .ok () := by
  have hfields := BTreeMap.mapM_ofList_eq_ok (fun k convert => fields.mem_toList)
    (f := fun (k : Key) (convert : LuaValue → Except String PhenixValue) =>
      convert (t.get (.ofText k.text))) (r := r)
  rw [← hfields, map_eq_ok]
  constructor
  · intro h
    obtain ⟨values,hvalues,h⟩ := bind_eq_ok.mp h
    obtain ⟨hcheck,h⟩ := seq_eq_ok.mp h
    exact ⟨⟨values,hvalues,Except.ok.inj h⟩,hcheck⟩
  · rintro ⟨⟨values,hvalues,rfl⟩,hcheck⟩
    exact bind_eq_ok.mpr ⟨values,hvalues,seq_eq_ok.mpr ⟨hcheck,rfl⟩⟩

theorem checkRecordKeys_eq_ok {fields : List Key} (hitems : t.items = .empty)
    (hkeys : ∀ key ∈ t.fields.keys, ∃ text, key = .ofText text ∧ (allowedExtra = some text ∨ ∃ field ∈ fields, field.text = text)) :
    checkRecordKeys t fields allowedExtra = .ok () := by
  refine seq_eq_ok.mpr ⟨ensure_eq_ok.mpr ?_,forM_eq_ok.mpr fun key hkey => ?_⟩
  · rw [hitems]
    rfl
  · obtain ⟨text,rfl,hallowed⟩ := hkeys key hkey
    rw [toStringLossy_ofText]
    exact if_pos hallowed

variable (lua) in
/-- A table whose keys are texts is listed under them. -/
theorem textEntries_eq_ok (hitems : t.items = .empty)
    (hkeys : ∀ key ∈ t.fields.keys, ∃ text, key = .ofText text) :
    ∃ entries, lua.textEntries t = .ok entries ∧
      ∀ text value, (text,value) ∈ entries ↔ t.fields.get? (.ofText text) = some value := by
  have hread : ∀ entry ∈ t.fields.toList, ∃ text, entry.1 = .ofText text := by
    intro entry hentry
    refine hkeys entry.1 (t.fields.mem_keys_iff.mpr ?_)
    rw [t.fields.mem_toList.mp hentry]
    rfl
  rw [LuaLibrary.textEntries, hitems]
  refine (mapM_ok_of_forall fun entry hentry => ?_).elim fun fields hfields =>
    ⟨fields,bind_eq_ok.mpr ⟨fields,hfields,rfl⟩,fun text value => ?_⟩
  · obtain ⟨text,htext⟩ := hread entry hentry
    exact ⟨(text,entry.2),by simp only [htext, toText?_ofText]⟩
  rw [← t.fields.mem_toList]
  have hall := mapM_eq_ok.mp hfields
  constructor
  · intro h
    obtain ⟨entry,hentry,hfound⟩ := Forall₂.exists_left hall h
    obtain ⟨read,hread⟩ := hread entry hentry
    simp only [hread, toText?_ofText, Except.ok.injEq, Prod.mk.injEq] at hfound
    rw [← hfound.1, ← hread, ← hfound.2]
    exact hentry
  · intro h
    obtain ⟨found,hmem,hfound⟩ := Forall₂.exists_right hall h
    simp only [toText?_ofText, Except.ok.injEq] at hfound
    exact hfound ▸ hmem

/-- A map is read back from a table whose keys are texts. -/
theorem luaToPhenix_map (hitems : t.items = .empty)
    (hkeys : ∀ key ∈ t.fields.keys, ∃ text, key = .ofText text) {item : PhenixSchema}
    {r : BTreeMap String PhenixValue} : luaToPhenix lua (.map item) (.table t) = .ok (.map r) ↔
      ∀ text, Option.Rel (fun value v => luaToPhenix lua item value = .ok v)
        (t.fields.get? (.ofText text)) (r.get? text) := by
  obtain ⟨entries,hentries,hget⟩ := textEntries_eq_ok lua hitems hkeys
  rw [← BTreeMap.mapM_ofList_eq_ok hget, map_eq_ok]
  constructor
  · intro h
    obtain ⟨found,hfound,h⟩ := bind_eq_ok.mp h
    cases hentries.symm.trans hfound
    obtain ⟨values,hvalues,h⟩ := bind_eq_ok.mp h
    cases h
    exact ⟨values,hvalues,rfl⟩
  · rintro ⟨values,hvalues,rfl⟩
    exact bind_eq_ok.mpr ⟨entries,hentries,bind_eq_ok.mpr ⟨values,hvalues,rfl⟩⟩

/-- The conversions of the fields of a record. -/
def fieldConversions (lua : LuaLibrary) (fields : BTreeMap Key PhenixSchema) :
    BTreeMap Key (LuaValue → Except String PhenixValue) :=
  fields.mapVal fun T value => luaToPhenix lua T value

variable {fields : BTreeMap Key PhenixSchema}

theorem record_eq_ok {r : BTreeMap Key PhenixValue} :
    (luaTableToRecord (fieldConversions lua fields) t allowedExtra).map PhenixValue.table =
        .ok (.table r) ↔
      (∀ k, Option.Rel (fun T v => luaToPhenix lua T (t.get (.ofText k.text)) = .ok v)
        (fields.get? k) (r.get? k)) ∧ checkRecordKeys t fields.keys allowedExtra = .ok () := by
  rw [map_eq_ok]
  have hrecord : (∃ found, luaTableToRecord (fieldConversions lua fields) t allowedExtra = .ok found ∧
      PhenixValue.table found = .table r) ↔
      luaTableToRecord (fieldConversions lua fields) t allowedExtra = .ok r := by
    constructor
    · rintro ⟨_,h,⟨⟩⟩
      exact h
    · exact fun h => ⟨r,h,rfl⟩
  rw [hrecord, luaTableToRecord_eq_ok]
  refine and_congr (forall_congr' fun k => ?_) Iff.rfl
  rw [fieldConversions, BTreeMap.get?_mapVal]
  cases fields.get? k <;> cases r.get? k <;> simp

theorem luaToPhenix_table : luaToPhenix lua (.table fields) (.table t) =
      (luaTableToRecord (fieldConversions lua fields) t none).map .table := rfl

theorem luaToPhenixAt_payload {T : PhenixSchema} (t : LuaTable LuaValue) (hunit : T ≠ .unit)
    (htable : ∀ fields, T ≠ .table fields) :
    luaToPhenixAt lua T (.payload t) = luaToPhenix lua T (t.get valueKey) := by
  cases T with
  | unit => exact absurd rfl hunit
  | table fields => exact absurd rfl (htable fields)
  | variant variants =>
    rw [luaToPhenix, luaToPhenixAt, luaToPhenixAt]
    rfl
  | _ => rfl

theorem luaToPhenix_variant {variants : BTreeMap Key PhenixSchema} {tag : Key} {v : PhenixValue} :
    luaToPhenix lua (.variant variants) (.table t) = .ok (.variant tag v) ↔
      lua.readText (t.get kindKey) = some tag.text ∧ ∃ T, variants.get? tag = some T ∧
        luaToPhenixAt lua T (.payload t) = .ok v := by
  obtain ⟨keys,sorted,val⟩ := variants
  rw [luaToPhenix, luaToPhenixAt]
  dsimp only [LuaPlace.value]
  cases lua.readText (t.get kindKey) with
  | none => simp
  | some kind =>
    rw [Option.some.injEq]
    dsimp only
    split
    · next message hvalid =>
      refine iff_of_false (by simp) ?_
      rintro ⟨rfl,-⟩
      cases hvalid.symm.trans tag.valid
    · next hvalid =>
      by_cases hmem : (⟨kind,hvalid⟩ : Key) ∈ keys
      · rw [dif_pos hmem, map_eq_ok]
        constructor
        · rintro ⟨w,hw,hsame⟩
          cases hsame
          exact ⟨rfl,_,(get?_eq_some _).mpr ⟨hmem,rfl⟩,hw⟩
        · rintro ⟨rfl,T,hT,hw⟩
          obtain ⟨_,rfl⟩ := (get?_eq_some _).mp hT
          exact ⟨v,hw,rfl⟩
      · rw [dif_neg hmem]
        refine iff_of_false (by simp) ?_
        rintro ⟨rfl,T,hT,-⟩
        exact hmem (mem_keys_iff _ |>.mpr (by rw [hT]; rfl))

end

/-! ## What is read back -/

section
variable {lua : LuaLibrary}

/-- The schema leads back to the value exactly if every part of it is kept. -/
def Returns (lua : LuaLibrary) (v : PhenixValue) : Prop :=
  ∀ T value, Plain T → T.parse v = .ok () → phenixToLua lua v = .ok value →
    (luaToPhenix lua T value = .ok v ↔ Every (Kept lua) v)

/-- The members of a list are read back one by one, if none is nil. -/
theorem sequence_returns {vs : List PhenixValue} (ih : ∀ v ∈ vs, Returns lua v) {T : PhenixSchema}
    (hT : Plain T) (hv : ∀ v ∈ vs, T.parse v = .ok ()) {values : List LuaValue}
    (hvalues : vs.mapM (phenixToLua lua) = .ok values) :
    luaSequenceToPhenix (sequenceTable values) (luaToPhenix lua T) = .ok vs ↔
      Every (Kept lua) (.list vs) := by
  have hall := mapM_eq_ok.mp hvalues
  have hmembers : values.mapM (luaToPhenix lua T) = .ok vs ↔ ∀ v ∈ vs, Every (Kept lua) v := by
    clear hvalues
    induction hall with
    | nil => exact iff_of_true rfl nofun
    | cons hfirst hrest hmembers =>
      rename_i v value vs values
      have hfirst := ih v (List.mem_cons_self ..) T value hT (hv v (List.mem_cons_self ..)) hfirst
      have hrest := hmembers (fun w hw => ih w (List.mem_cons_of_mem _ hw))
        fun w hw => hv w (List.mem_cons_of_mem _ hw)
      rw [List.forall_mem_cons, ← hfirst, ← hrest, mapM_eq_ok, List.forall₂_cons, mapM_eq_ok]
  have hpresent : (∀ value ∈ values, value ≠ .nil) ↔ ∀ v ∈ vs, ¬ BecomesNil v := by
    constructor
    · intro h v hmem
      obtain ⟨value,hvalue,hlua⟩ := Forall₂.exists_right hall hmem
      exact mt (eq_nil_iff hT (hv v hmem) hlua).mpr (h value hvalue)
    · intro h value hmem
      obtain ⟨v,hvs,hlua⟩ := Forall₂.exists_left hall hmem
      exact mt (eq_nil_iff hT (hv v hvs) hlua).mp (h v hvs)
  rw [every_list, ← hmembers]
  change _ ↔ (∀ v ∈ vs, ¬ BecomesNil v) ∧ _
  rw [← hpresent, luaSequenceToPhenix, sequenceValues_sequenceTable]
  constructor
  · intro h
    -- As many members were read as were written, so the search met no nil.
    have hlength := (mapM_eq_ok.mp h).length_eq
    rw [hall.length_eq] at hlength
    have hwhole := (List.takeWhile_prefix (fun value : LuaValue => value.present.isSome)).eq_of_length
      hlength
    rw [hwhole] at h
    refine ⟨fun value hmem => present_isSome.mp ?_,h⟩
    exact List.takeWhile_eq_self_iff.mp hwhole value hmem
  · rintro ⟨hfull,h⟩
    rwa [List.takeWhile_eq_self_iff.mpr fun value hmem => present_isSome.mpr (hfull value hmem)]

theorem returns_list {vs : List PhenixValue} (ih : ∀ v ∈ vs, Returns lua v) :
    Returns lua (.list vs) := by
  intro T value hT hv hvalue
  rw [phenixToLua_list] at hvalue
  obtain ⟨values,hvalues,rfl⟩ := map_eq_ok.mp hvalue
  cases T with
  | list T =>
    rw [← sequence_returns ih (T := T) hT ((parse_list T vs).mp hv) hvalues]
    refine Iff.trans map_eq_ok ⟨?_,fun h => ⟨vs,h,rfl⟩⟩
    rintro ⟨_,h,⟨⟩⟩
    exact h
  | array T n =>
    obtain ⟨hlength,hmembers⟩ := (parse_array T n vs).mp hv
    rw [← sequence_returns ih (T := T) hT hmembers hvalues]
    refine Iff.trans bind_eq_ok ⟨?_,fun h => ⟨vs,h,seq_eq_ok.mpr ⟨ensure_eq_ok.mpr hlength,rfl⟩⟩⟩
    rintro ⟨found,h,hfound⟩
    obtain ⟨-,hfound⟩ := seq_eq_ok.mp hfound
    cases hfound
    exact h
  | any => cases hT
  | _ => cases hv

theorem returns_map {m : BTreeMap String PhenixValue}
    (ih : ∀ k v, m.get? k = some v → Returns lua v) : Returns lua (.map m) := by
  intro T value hT hv hvalue
  rw [phenixToLua_map] at hvalue
  obtain ⟨entries,hentries,rfl⟩ := map_eq_ok.mp hvalue
  have hwritten := written_setFields ofText_injective hentries .empty
  generalize setFields .empty entries = t at hwritten ⊢
  cases T with
  | map T =>
    have hparse := (parse_map T m).mp hv
    have hkeys : ∀ key ∈ t.fields.keys, ∃ text, key = .ofText text := by
      intro key hkey
      by_contra hother
      have hnone := hwritten.other key fun k _ hk => hother ⟨k,hk.symm⟩
      rw [t.fields.mem_keys_iff, hnone] at hkey
      cases hkey
    rw [luaToPhenix_map hwritten.items hkeys, every_map]
    have hentry : ∀ k, Option.Rel (fun value v => luaToPhenix lua T value = .ok v)
        (t.fields.get? (.ofText k)) (m.get? k) ↔
          ∀ v, m.get? k = some v → ¬ BecomesNil v ∧ Every (Kept lua) v := by
      intro k
      cases hk : m.get? k with
      | none =>
        have hnone : t.fields.get? (.ofText k) = none := by
          refine hwritten.other _ fun j hj hsame => ?_
          rw [ofText_injective hsame, m.mem_keys_iff, hk] at hj
          cases hj
        rw [hnone]
        exact iff_of_true .none nofun
      | some v =>
        obtain ⟨value,hlua,hget⟩ := hwritten.entry k v hk
        have hreturns := ih k v hk T value hT (hparse k v hk) hlua
        have hnil := eq_nil_iff (T := T) hT (hparse k v hk) hlua
        rw [hget]
        simp only [Option.some.injEq, forall_eq', ← hreturns, ← hnil]
        cases value <;> simp [LuaValue.present]
    rw [forall_congr' hentry]
    exact ⟨fun h => ⟨fun k v hk => (h k v hk).1,fun k v hk => (h k v hk).2⟩,
      fun h k v hk => ⟨h.1 k v hk,h.2 k v hk⟩⟩
  | any => cases hT
  | _ => cases hv

variable {m : BTreeMap Key PhenixValue}

variable {fields : BTreeMap Key PhenixSchema} {t : LuaTable LuaValue} {allowedExtra : Option String}

/-- The fields of a record are read back one by one. -/
theorem record_returns (ih : ∀ k v, m.get? k = some v → Returns lua v) (hT : Plain (.table fields))
    (hv : (table fields).parse (.table m) = .ok ())
    (ht : ∀ k v, m.get? k = some v → phenixToLua lua v = .ok (t.get (.ofText k.text)))
    (hcheck : checkRecordKeys t fields.keys allowedExtra = .ok ()) :
    (luaTableToRecord (fieldConversions lua fields) t allowedExtra).map PhenixValue.table =
      .ok (.table m) ↔ ∀ k v, m.get? k = some v → Every (Kept lua) v := by
  rw [record_eq_ok, and_iff_left hcheck]
  obtain ⟨hfields,hkeys⟩ := (parse_table fields m).mp hv
  refine forall_congr' fun k => ?_
  cases hk : fields.get? k with
  | none =>
    have hnone : m.get? k = none := by
      rw [BTreeMap.get?_eq_none] at hk ⊢
      exact fun hmem => hk (hkeys k hmem)
    rw [hnone]
    exact iff_of_true .none nofun
  | some T =>
    obtain ⟨v,hget,hparse⟩ := hfields k T hk
    have hreturns := ih k v hget T _ (hT.field hk) hparse (ht k v hget)
    rw [hget]
    simp [hreturns]

/-- A table that holds the entries of a record, and perhaps a tag, has no other key. -/
theorem Written.checkRecordKeys (hkeys : ∀ k ∈ m.keys, k ∈ fields.keys) {before : LuaTable LuaValue}
    (h : Written lua (fun k : Key => ofText k.text) m before t)
    (hitems : before.items = .empty)
    (hbefore : ∀ key ∈ before.fields.keys, ∃ text, key = .ofText text ∧ allowedExtra = some text) :
    Lua.checkRecordKeys t fields.keys allowedExtra = .ok () := by
  refine checkRecordKeys_eq_ok (h.items.trans hitems) fun key hkey => ?_
  by_cases hfield : ∃ k ∈ m.keys, ofText k.text = key
  · obtain ⟨k,hk,rfl⟩ := hfield
    exact ⟨k.text,rfl,.inr ⟨k,hkeys k hk,rfl⟩⟩
  · have hother := h.other key fun k hk hsame => hfield ⟨k,hk,hsame⟩
    rw [t.fields.mem_keys_iff, hother, ← before.fields.mem_keys_iff] at hkey
    obtain ⟨text,htext,hallowed⟩ := hbefore key hkey
    exact ⟨text,htext,.inl hallowed⟩

theorem returns_table (ih : ∀ k v, m.get? k = some v → Returns lua v) : Returns lua (.table m) := by
  intro T value hT hv hvalue
  rw [phenixToLua_table] at hvalue
  obtain ⟨entries,hentries,rfl⟩ := map_eq_ok.mp hvalue
  have hwritten := written_setFields ofText_key_injective hentries .empty
  cases T with
  | table fields =>
    have hkeys := ((parse_table fields m).mp hv).2
    have hcheck : checkRecordKeys (setFields .empty entries) fields.keys none = .ok () :=
      hwritten.checkRecordKeys hkeys rfl fun key hkey => by cases hkey
    rw [luaToPhenix_table, record_returns ih hT hv (fun k v hk => hwritten.get hk) hcheck, every_table]
    exact (and_iff_right trivial).symm
  | any => cases hT
  | _ => cases hv

theorem get?_kindTable (tag : Key) (key : LuaString) : (kindTable tag).fields.get? key =
    if key = kindKey then some (.string (.ofText tag.text)) else none := by
  refine (get?_alter _ _ _ _).trans ?_
  split_ifs <;> rfl

/-- The tag as it is read from its own field. -/
theorem readText_tag {tag : Key} (h : t.fields.get? kindKey = (kindTable tag).fields.get? kindKey) :
    lua.readText (t.get kindKey) = some tag.text := by
  rw [LuaTable.get, h]
  exact toText?_ofText tag.text

theorem valueKey_ne_kindKey : valueKey ≠ kindKey := fun h =>
  absurd (ofText_injective h) (by decide)

theorem returns_variant_table {tag : Key} (ih : ∀ k v, m.get? k = some v → Returns lua v) :
    Returns lua (.variant tag (.table m)) := by
  intro T value hT hv hvalue
  rw [phenixToLua_variant_table] at hvalue
  obtain ⟨entries,hentries,rfl⟩ := map_eq_ok.mp hvalue
  have hwritten := written_setFields ofText_key_injective hentries (kindTable tag)
  generalize setFields (kindTable tag) entries = t at hwritten ⊢
  cases T with
  | variant variants =>
    obtain ⟨T,hget,hparse⟩ := (parse_variant variants tag _).mp hv
    have hplain := hT.payload hget
    cases T with
    | table fields =>
      have hkeys := ((parse_table fields m).mp hparse).2
      have hcheck : checkRecordKeys t fields.keys (some "kind") = .ok () :=
        hwritten.checkRecordKeys hkeys rfl fun key hkey => by
          rw [mem_keys_iff, get?_kindTable] at hkey
          split_ifs at hkey with hkind
          · exact ⟨"kind",hkind,rfl⟩
          · cases hkey
      have hrecord := record_returns ih hplain hparse (fun k v hk => hwritten.get hk) hcheck
      -- The tag is read from the field of that name, if the payload has one.
      have hkind : lua.readText (t.get kindKey) = some tag.text ↔
          ∀ k v, m.get? k = some v → k.text = "kind" → kindText lua v = some tag.text := by
        by_cases hfield : ∃ k v, m.get? k = some v ∧ k.text = "kind"
        · obtain ⟨k,v,hk,htext⟩ := hfield
          obtain ⟨T,hT,hv⟩ := parse_field hplain hparse hk
          have hlua := hwritten.get hk
          rw [htext] at hlua
          rw [kindKey, readText_eq hT hv hlua]
          refine ⟨fun h j w hj hjtext => ?_,fun h => h k v hk htext⟩
          cases Key.text_injective (hjtext.trans htext.symm)
          cases hk.symm.trans hj
          exact h
        · refine iff_of_true (readText_tag (hwritten.other kindKey fun k hk hsame => ?_))
            fun k v hk htext => absurd ⟨k,v,hk,htext⟩ hfield
          obtain ⟨v,hget⟩ := Option.isSome_iff_exists.mp (m.mem_keys_iff.mp hk)
          exact hfield ⟨k,v,hget,ofText_injective hsame⟩
      rw [luaToPhenix_variant, hkind]
      have hpayload : (∃ T, variants.get? tag = some T ∧
          luaToPhenixAt lua T (.payload t) = .ok (.table m)) ↔
            ∀ k v, m.get? k = some v → Every (Kept lua) v := by
        rw [← hrecord]
        constructor
        · rintro ⟨_,hT,h⟩
          cases hget.symm.trans hT
          exact h
        · exact fun h => ⟨_,hget,h⟩
      rw [hpayload]
      exact and_congr_right fun _ =>
        (and_iff_right trivial).symm.trans (every_table (p := Kept lua)).symm
    | any => cases hplain
    | _ => cases hparse
  | any => cases hT
  | _ => cases hv

theorem returns_variant {tag : Key} {v : PhenixValue} (ih : Returns lua v)
    (htable : ∀ fields, v ≠ .table fields) : Returns lua (.variant tag v) := by
  intro T value hT hv hvalue
  cases T with
  | variant variants =>
    obtain ⟨T,hget,hparse⟩ := (parse_variant variants tag v).mp hv
    have hplain := hT.payload hget
    -- The payload leaves the tag alone and is read back by itself.
    have hpayload : ∃ t, value = .table t ∧ t.fields.get? kindKey = (kindTable tag).fields.get? kindKey ∧
        (luaToPhenixAt lua T (.payload t) = .ok v ↔ Every (Kept lua) v) := by
      by_cases hunit : v = .unit
      · subst hunit
        cases hvalue
        cases T with
        | unit => exact ⟨_,rfl,rfl,iff_of_true rfl trivial⟩
        | any => cases hplain
        | _ => cases hparse
      · rw [phenixToLua_variant lua tag hunit htable] at hvalue
        obtain ⟨payload,hlua,rfl⟩ := map_eq_ok.mp hvalue
        have hTunit : T ≠ .unit := by
          rintro rfl
          cases v with
          | unit => exact hunit rfl
          | _ => cases hparse
        have hTtable : ∀ fields, T ≠ .table fields := by
          rintro fields rfl
          cases v with
          | table found => exact htable found rfl
          | _ => cases hparse
        refine ⟨_,rfl,(get?_alter _ _ _ _).trans (if_neg valueKey_ne_kindKey.symm),?_⟩
        have hvalue : ((kindTable tag).set valueKey payload).get valueKey = payload := by
          refine Eq.trans (congrArg (Option.getD · _) (get?_alter _ _ _ _)) ?_
          rw [if_pos rfl, present_getD]
        rw [luaToPhenixAt_payload _ hTunit hTtable, hvalue]
        exact ih T payload hplain hparse hlua
    obtain ⟨t,rfl,hkind,hpayload⟩ := hpayload
    rw [luaToPhenix_variant, and_iff_right (readText_tag hkind)]
    have hkept : Kept lua (.variant tag v) := by
      cases v with
      | table fields => exact absurd rfl (htable fields)
      | _ => trivial
    refine Iff.trans ⟨?_,fun h => ⟨T,hget,hpayload.mpr h⟩⟩ (and_iff_right hkept).symm
    rintro ⟨_,hT,h⟩
    cases hget.symm.trans hT
    exact hpayload.mp h
  | any => cases hT
  | _ => cases hv

/-- An option is read back as present unless it has become nil. -/
theorem luaToPhenix_option {T : PhenixSchema} {value : LuaValue} (h : value ≠ .nil) :
    luaToPhenix lua (.option T) value =
      (luaToPhenix lua T value).map fun v => .option (some v) := by
  cases value with
  | nil => exact absurd rfl h
  | _ => rfl

theorem returns_some {v : PhenixValue} (ih : Returns lua v) : Returns lua (.option (some v)) := by
  intro T value hT hv hvalue
  cases T with
  | option T =>
    have hnil := eq_nil_iff (T := T) hT hv hvalue
    have hreturns := ih T value hT hv hvalue
    by_cases hvalue : value = .nil
    · subst hvalue
      refine iff_of_false nofun fun h => h.1 (hnil.mp rfl)
    · have hkept : Kept lua (.option (some v)) := mt hnil.mpr hvalue
      rw [luaToPhenix_option hvalue, map_eq_ok]
      refine Iff.trans ?_ (hreturns.trans (and_iff_right hkept).symm)
      refine ⟨?_,fun h => ⟨v,h,rfl⟩⟩
      rintro ⟨_,h,⟨⟩⟩
      exact h
  | any => cases hT
  | _ => cases hv

theorem returns_u64 (value : UInt64) : Returns lua (.u64 value) := by
  intro T found hT hv h
  rw [phenixToLua] at h
  split_ifs at h with hsmall
  cases h
  cases T with
  | u64 =>
    refine iff_of_true ?_ trivial
    have hsame : value.toInt64.toInt = value.toNat :=
      BitVec.toInt_eq_toNat_of_lt (x := value.toBitVec) (by rw [UInt64.toNat_toBitVec]; omega)
    have hpositive : 0 ≤ value.toInt64.toInt := by omega
    change (if 0 ≤ value.toInt64.toInt then Except.ok (PhenixValue.u64 value.toInt64.toUInt64)
      else _) = _
    rw [if_pos hpositive, UInt64.toUInt64_toInt64]
  | any => cases hT
  | _ => cases hv

theorem returns_f64 (value : F64) : Returns lua (.f64 value) := by
  intro T found hT hv h
  rw [phenixToLua] at h
  split_ifs at h with hfinite
  cases h
  cases T with
  | f64 => exact iff_of_true (if_pos hfinite) trivial
  | any => cases hT
  | _ => cases hv

theorem returns_string (text : String) : Returns lua (.string text) := by
  intro T found hT hv h
  cases h
  cases T with
  | string =>
    refine iff_of_true ?_ trivial
    change Except.ok (PhenixValue.string (ofText text).toStringLossy) = _
    rw [toStringLossy_ofText]
  | any => cases hT
  | _ => cases hv

/-- Every value is read back exactly if every part of it is kept. -/
theorem returns (v : PhenixValue) : Returns lua v := by
  have hboth : Returns lua v ∧ ∀ m, v = .table m → ∀ k w, m.get? k = some w → Returns lua w := by
    induction v using induct with
    | u64 value => exact ⟨returns_u64 value,nofun⟩
    | f64 value => exact ⟨returns_f64 value,nofun⟩
    | string text => exact ⟨returns_string text,nofun⟩
    | unit | bool | i64 | bytes | none =>
      refine ⟨fun T value hT hv h => ?_,nofun⟩
      cases h
      cases T with
      | any => cases hT
      | _ =>
        first
        | exact iff_of_true rfl trivial
        | cases hv
    | callable | object =>
      refine ⟨fun T value hT hv _ => ?_,nofun⟩
      cases T with
      | any | callable | object => cases hT
      | _ => cases hv
    | some v ih => exact ⟨returns_some ih.1,nofun⟩
    | list vs ih => exact ⟨returns_list fun v hv => (ih v hv).1,nofun⟩
    | map m ih => exact ⟨returns_map fun k v hk => (ih k v hk).1,nofun⟩
    | table m ih =>
      refine ⟨returns_table fun k v hk => (ih k v hk).1,?_⟩
      rintro _ ⟨⟩ k v hk
      exact (ih k v hk).1
    | variant tag v ih =>
      refine ⟨?_,nofun⟩
      by_cases htable : ∃ m, v = .table m
      · obtain ⟨m,rfl⟩ := htable
        exact returns_variant_table (ih.2 m rfl)
      · exact returns_variant ih.1 fun m hm => htable ⟨m,hm⟩
  exact hboth.1

/-- A value survives the boundary exactly if Lua cannot represent one of its numbers, so that it
does not cross, or every part of it is kept. -/
theorem survives_iff {T : PhenixSchema} {v : PhenixValue} (hT : Plain T) (hv : T.parse v = .ok ()) :
    (∀ value, phenixToLua lua v = .ok value → luaToPhenix lua T value = .ok v) ↔
      (Every Sendable v → Every (Kept lua) v) := by
  have hcrosses := phenixToLua_isOk lua hT hv
  constructor
  · intro h hsendable
    obtain ⟨value,hvalue⟩ := hcrosses.mpr hsendable
    exact (returns v T value hT hv hvalue).mp (h value hvalue)
  · intro h value hvalue
    exact (returns v T value hT hv hvalue).mpr (h (hcrosses.mp ⟨value,hvalue⟩))

end

/-- A library that writes numbers in decimal. -/
def decimalLibrary : LuaLibrary where
  integerText value := toString value.toInt
  numberText _ := ""
  invalidText := ""
  rawLen indices := indices.length
  reference _ := .error ""

def plannedKey : Key := ⟨"planned",by decide⟩

/-- A list of choices, one of them with a payload, comes back whole. -/
theorem survives_iff_planned : ∃ value,
    phenixToLua decimalLibrary (.list [.variant plannedKey (.u64 3)]) = .ok value ∧
      luaToPhenix decimalLibrary (.list (.variant (.ofList [(plannedKey,.u64)]))) value =
        .ok (.list [.variant plannedKey (.u64 3)]) := by
  refine ⟨_,rfl,(survives_iff (T := .list (.variant (.ofList [(plannedKey,.u64)]))) ?_
    (by decide)).mpr (fun _ => ?_) _ rfl⟩
  · intro k hk
    cases List.mem_singleton.mp hk
    exact trivial
  · refine ⟨fun v hv => ?_,⟨trivial,trivial⟩,trivial⟩
    cases List.mem_singleton.mp hv
    exact id

/-- An absent option ends the list that it is a member of. -/
theorem absent_member_lost : ¬ ∀ (lua : LuaLibrary) (T : PhenixSchema) (v : PhenixValue), Plain T →
    T.parse v = .ok () → ∀ value, phenixToLua lua v = .ok value → luaToPhenix lua T value = .ok v := by
  intro h
  have hback := h decimalLibrary (.list (.option .i64)) (.list [.option none,.option (some (.i64 1))])
    trivial rfl _ rfl
  have hempty : luaToPhenix decimalLibrary (.list (.option .i64))
      (.table (sequenceTable [.nil,.integer 1])) = .ok (.list []) := by
    rw [luaToPhenix, luaToPhenixAt]
    exact map_eq_ok.mpr ⟨[],by rw [luaSequenceToPhenix, sequenceValues_sequenceTable]; rfl,rfl⟩
  cases hempty.symm.trans hback

end PhenixConductor.Lua
