import PhenixConductor.Contract.Json

/-! # Values at the Lua boundary

A Lua table has integer and string keys and cannot hold nil: to write nil is to delete.
-/
namespace PhenixConductor.Lua
open Contract Collections

/-! ## Lua values -/

/-- A Lua string is a string of bytes. -/
structure LuaString where
  bytes : List UInt8
  deriving DecidableEq

namespace LuaString

def codes (s : LuaString) : List ℕ := s.bytes.map UInt8.toNat

theorem codes_injective : Function.Injective codes := by
  rintro ⟨a⟩ ⟨b⟩ h
  exact congrArg mk (List.map_injective_iff.mpr (fun _ _ => UInt8.toNat_inj.mp) h)

instance linearOrder : LinearOrder LuaString := LinearOrder.lift' codes codes_injective

def ofText (text : String) : LuaString := ⟨text.toByteArray.data.toList⟩

def byteArray (s : LuaString) : ByteArray := ⟨s.bytes.toArray⟩

/-- `to_str`: only UTF-8 is text. -/
def toText? (s : LuaString) : Option String := String.fromUTF8? s.byteArray

/-- How many bytes of the text one step of `from_utf8_lossy` takes, and whether they are a
character: a broken sequence ends before the first byte that cannot continue it. -/
def lossyStep : List UInt8 → ℕ × Bool
  | [] => (0,true)
  | a :: rest =>
    let continues (low high : UInt8) (b : Option UInt8) : Bool := b.any fun b => low ≤ b ∧ b ≤ high
    let tail := continues 0x80 0xbf
    if a < 0x80 then (1,true)
    else if 0xc2 ≤ a ∧ a ≤ 0xdf then (if tail rest[0]? then (2,true) else (1,false))
    else if 0xe0 ≤ a ∧ a ≤ 0xef then
      let low := if a = 0xe0 then 0xa0 else 0x80
      let high := if a = 0xed then 0x9f else 0xbf
      if ¬ continues low high rest[0]? then (1,false)
      else if ¬ tail rest[1]? then (2,false)
      else (3,true)
    else if 0xf0 ≤ a ∧ a ≤ 0xf4 then
      let low := if a = 0xf0 then 0x90 else 0x80
      let high := if a = 0xf4 then 0x8f else 0xbf
      if ¬ continues low high rest[0]? then (1,false)
      else if ¬ tail rest[1]? then (2,false)
      else if ¬ tail rest[2]? then (3,false)
      else (4,true)
    else (1,false)

/-- The text with a replacement character for each broken sequence. -/
def replaceBroken : ℕ → List UInt8 → String
  | 0, _ | _, [] => ""
  | fuel + 1, bytes =>
    let (length,whole) := lossyStep bytes
    (if whole then (String.fromUTF8? ⟨(bytes.take length).toArray⟩).getD "" else "\uFFFD") ++
      replaceBroken fuel (bytes.drop length)

def toStringLossy (s : LuaString) : String :=
  (s.toText?).getD (replaceBroken s.bytes.length s.bytes)

theorem toText?_ofText (text : String) : (ofText text).toText? = some text := by
  have hbytes : (ofText text).byteArray = text.toByteArray := by
    simp [byteArray, ofText]
  have hvalid : text.toByteArray.IsValidUTF8 := text.isValidUTF8
  rw [toText?, hbytes, String.fromUTF8?, dif_pos hvalid]
  rfl

theorem ofText_injective : Function.Injective ofText := by
  intro a b h
  have htext := congrArg toText? h
  simpa only [toText?_ofText, Option.some.injEq] using htext

end LuaString

/-- A table by its integer and its string keys. -/
structure LuaTable (V : Type) where
  items : BTreeMap ℕ V
  fields : BTreeMap LuaString V

inductive LuaValue where
  | nil
  | boolean (value : Bool)
  | integer (value : Int64)
  | number (value : F64)
  | string (value : LuaString)
  | table (table : LuaTable LuaValue)
  /-- A function, a thread or a userdata, by the name of its type. -/
  | other (typeName : String)

def LuaValue.typeName : LuaValue → String
  | .nil => "nil"
  | .boolean _ => "boolean"
  | .integer _ => "integer"
  | .number _ => "number"
  | .string _ => "string"
  | .table _ => "table"
  | .other typeName => typeName

/-- What a table holds for a value that is written to it. -/
def LuaValue.present : LuaValue → Option LuaValue
  | .nil => none
  | value => some value

namespace LuaTable
variable {V : Type}

def empty : LuaTable V := ⟨.empty,.empty⟩

def get (t : LuaTable LuaValue) (key : LuaString) : LuaValue := (t.fields.get? key).getD .nil

def set (t : LuaTable LuaValue) (key : LuaString) (value : LuaValue) : LuaTable LuaValue :=
  { t with fields := t.fields.alter key value.present }

def setIndex (t : LuaTable LuaValue) (index : ℕ) (value : LuaValue) : LuaTable LuaValue :=
  { t with items := t.items.alter index value.present }

/-- `sequence_values`: from the first index on, up to the first one that is absent. -/
def sequenceValues (items : BTreeMap ℕ V) : List V :=
  (((List.range items.keys.length).map fun i => items.get? (i + 1)).takeWhile
    Option.isSome).reduceOption

end LuaTable

/-- What the conversions use of the Lua library: the texts that numbers are coerced to, the
message for a string that is no text, the length operator, and the values of capability
references. -/
structure LuaLibrary where
  integerText : Int64 → String
  numberText : F64 → String
  invalidText : String
  rawLen : List ℕ → ℕ
  reference : {kind : CapabilityKind} → CapabilityRef kind → Except String LuaValue

/-! ## From structural values to Lua -/

def kindKey : LuaString := .ofText "kind"
def valueKey : LuaString := .ofText "value"

/-- The table of a list: index 1 holds the first member. -/
def sequenceTable (values : List LuaValue) : LuaTable LuaValue :=
  values.zipIdx.foldl (fun t (value,index) => t.setIndex (index + 1) value) .empty

/-- Writes the entries in order. -/
def setFields (t : LuaTable LuaValue) (entries : List (LuaString × LuaValue)) : LuaTable LuaValue :=
  entries.foldl (fun t (key,value) => t.set key value) t

/-- The table of a variant before its payload is written. -/
def kindTable (tag : Key) : LuaTable LuaValue := LuaTable.empty.set kindKey (.string (.ofText tag.text))

theorem mem_of_attached {K : Type} {keys : List K} (k : {k // k ∈ keys}) : k.1 ∈ keys := k.2

mutual
def phenixToLua (lua : LuaLibrary) : PhenixValue → Except String LuaValue
  | .unit => .ok .nil
  | .bool value => .ok (.boolean value)
  | .i64 value => .ok (.integer value)
  | .u64 value =>
    if value.toNat < 2 ^ 63 then .ok (.integer value.toInt64)
    else .error "u64 value exceeds Lua 5.1 integer range"
  | .f64 value =>
    if value.isFinite then .ok (.number value)
    else .error "non-finite float cannot cross the Lua boundary"
  | .string value => .ok (.string (.ofText value))
  | .bytes value => .ok (.string ⟨value⟩)
  | .option none => .ok .nil
  | .option (some value) => phenixToLua lua value
  | .list values => (phenixToLuas lua values).map fun values => .table (sequenceTable values)
  | .map ⟨keys,_,val⟩ => (keys.attach.mapM fun k =>
      (phenixToLua lua (val k.1 (mem_of_attached k))).map fun value => (LuaString.ofText k.1,value)).map
        fun entries => .table (setFields .empty entries)
  | .table ⟨keys,_,val⟩ => (keys.attach.mapM fun k =>
      (phenixToLua lua (val k.1 (mem_of_attached k))).map fun value => (LuaString.ofText k.1.text,value)).map
        fun entries => .table (setFields .empty entries)
  | .variant tag .unit => .ok (.table (kindTable tag))
  | .variant tag (.table ⟨keys,_,val⟩) => (keys.attach.mapM fun k =>
      (phenixToLua lua (val k.1 (mem_of_attached k))).map fun value => (LuaString.ofText k.1.text,value)).map
        fun entries => .table (setFields (kindTable tag) entries)
  | .variant tag value => (phenixToLua lua value).map fun value =>
      .table ((kindTable tag).set valueKey value)
  | .callable reference => lua.reference reference
  | .object reference => lua.reference reference

def phenixToLuas (lua : LuaLibrary) : List PhenixValue → Except String (List LuaValue)
  | [] => .ok []
  | value :: values => do
    let value ← phenixToLua lua value
    let values ← phenixToLuas lua values
    return value :: values
end

example (lua : LuaLibrary) : phenixToLua lua (.option none) = .ok .nil := by simp [phenixToLua]

/-! ## From Lua to structural values -/

def typeError (expected : String) (value : LuaValue) : String :=
  "expected " ++ expected ++ ", got " ++ value.typeName

/-- An `i64` as an `f64`, rounded to the nearest one and to even at a tie. -/
def asF64 (value : Int64) : F64 :=
  let magnitude := value.toInt.natAbs
  let sign : ℕ := if value.toInt < 0 then 2 ^ 63 else 0
  if magnitude = 0 then ⟨0⟩
  else
    let log := magnitude.log2
    let mantissa :=
      if log ≤ 52 then magnitude * 2 ^ (52 - log)
      else
        let unit := 2 ^ (log - 52)
        let down := magnitude / unit
        let rest := magnitude % unit
        if unit < 2 * rest ∨ (unit = 2 * rest ∧ down % 2 = 1) then down + 1 else down
    -- A mantissa that was rounded up to 2 ^ 53 carries into the exponent.
    ⟨.ofNat (sign + (log + 1022) * 2 ^ 52 + mantissa)⟩

/-- The text of a value that `get::<String>` accepts: strings of UTF-8, and numbers. -/
def LuaLibrary.readText (lua : LuaLibrary) : LuaValue → Option String
  | .string value => value.toText?
  | .integer value => some (lua.integerText value)
  | .number value => some (lua.numberText value)
  | _ => none

/-- The entries of a table whose keys are read as texts. -/
def LuaLibrary.textEntries {V : Type} (lua : LuaLibrary) (t : LuaTable V) :
    Except String (List (String × V)) := do
  let fields ← t.fields.toList.mapM fun (key,value) =>
    match key.toText? with
    | some text => .ok (text,value)
    | none => .error lua.invalidText
  return t.items.toList.map (fun (index,value) => (lua.integerText (.ofInt index),value)) ++ fields

/-- The checks of a record for keys that are not its fields. -/
def checkRecordKeys (t : LuaTable LuaValue) (fields : List Key) (allowedExtra : Option String) :
    Except String Unit := do
  ensure (t.items.keys.isEmpty = true) "record tables require string field names"
  t.fields.keys.forM fun key =>
    let key := key.toStringLossy
    if allowedExtra = some key ∨ ∃ field ∈ fields, field.text = key then .ok ()
    else .error ("unexpected record field " ++ key)

def luaAnyToPhenix (lua : LuaLibrary) : LuaValue → Except String PhenixValue
  | .nil => .ok .unit
  | .boolean value => .ok (.bool value)
  | .integer value => .ok (.i64 value)
  | .number value =>
    if value.isFinite then .ok (.f64 value)
    else .error (typeError "serializable Lua value" (.number value))
  | .string value => .ok (.string value.toStringLossy)
  | .table ⟨⟨indices,hi,item⟩,⟨keys,hk,field⟩⟩ =>
    if 0 < lua.rawLen indices then
      ((LuaTable.sequenceValues ⟨indices,hi,fun i h => luaAnyToPhenix lua (item i h)⟩).mapM id).map .list
    else do
      let entries ← lua.textEntries ⟨⟨indices,hi,fun i h => luaAnyToPhenix lua (item i h)⟩,
        ⟨keys,hk,fun k h => luaAnyToPhenix lua (field k h)⟩⟩
      let values ← entries.mapM fun (key,value) => value.map fun value => (key,value)
      return .map (.ofList values)
  | value => .error (typeError "serializable Lua value" value)

example (lua : LuaLibrary) : luaAnyToPhenix lua .nil = .ok .unit := by simp [luaAnyToPhenix]

/-- Where a value of a schema stands: by itself, or as the payload of a variant in its table. -/
inductive LuaPlace where
  | whole (value : LuaValue)
  | payload (t : LuaTable LuaValue)

/-- A payload that is neither a record nor unit has a field of its own. -/
def LuaPlace.value : LuaPlace → LuaValue
  | .whole value => value
  | .payload t => t.get valueKey

/-- `lua_table_to_record`, with the conversion of each field in place of its schema. -/
def luaTableToRecord (fields : BTreeMap Key (LuaValue → Except String PhenixValue))
    (t : LuaTable LuaValue) (allowedExtra : Option String) :
    Except String (BTreeMap Key PhenixValue) := do
  let values ← fields.toList.mapM fun (key,convert) =>
    (convert (t.get (.ofText key.text))).map fun value => (key,value)
  checkRecordKeys t fields.keys allowedExtra
  return .ofList values

def luaSequenceToPhenix (t : LuaTable LuaValue) (convert : LuaValue → Except String PhenixValue) :
    Except String (List PhenixValue) :=
  (LuaTable.sequenceValues t.items).mapM convert

/-- `lua_to_phenix` at a place: a variant hands its table on to its payload. -/
def luaToPhenixAt (lua : LuaLibrary) : PhenixSchema → LuaPlace → Except String PhenixValue
  | .any, place => luaAnyToPhenix lua place.value
  | .never, _ => .error "Lua value cannot satisfy the never schema"
  | .unit, .payload _ => .ok .unit
  | .unit, .whole value =>
    match value with
    | .nil => .ok .unit
    | value => .error (typeError "nil" value)
  | .bool, place =>
    match place.value with
    | .boolean value => .ok (.bool value)
    | value => .error (typeError "boolean" value)
  | .i64, place =>
    match place.value with
    | .integer value => .ok (.i64 value)
    | value => .error (typeError "integer" value)
  | .u64, place =>
    match place.value with
    | .integer value =>
      if 0 ≤ value.toInt then .ok (.u64 value.toUInt64)
      else .error (typeError "non-negative integer" (.integer value))
    | value => .error (typeError "non-negative integer" value)
  | .f64, place =>
    match place.value with
    | .integer value => .ok (.f64 (asF64 value))
    | .number value =>
      if value.isFinite then .ok (.f64 value) else .error (typeError "finite number" (.number value))
    | value => .error (typeError "finite number" value)
  | .string, place =>
    match place.value with
    | .string value => .ok (.string value.toStringLossy)
    | value => .error (typeError "string" value)
  | .bytes, place =>
    match place.value with
    | .string value => .ok (.bytes value.bytes)
    | value => .error (typeError "string bytes" value)
  | .option item, place =>
    match place.value with
    | .nil => .ok (.option none)
    | value => (luaToPhenixAt lua item (.whole value)).map fun value => .option (some value)
  | .array item len, place =>
    match place.value with
    | .table t => do
      let values ← luaSequenceToPhenix t fun value => luaToPhenixAt lua item (.whole value)
      ensure (values.length = len)
        ("expected " ++ toString len ++ " array items, got " ++ toString values.length)
      return .list values
    | value => .error (typeError "array table" value)
  | .list item, place =>
    match place.value with
    | .table t =>
      (luaSequenceToPhenix t fun value => luaToPhenixAt lua item (.whole value)).map .list
    | value => .error (typeError "list table" value)
  | .map item, place =>
    match place.value with
    | .table t => do
      let entries ← lua.textEntries t
      let values ← entries.mapM fun (key,value) =>
        (luaToPhenixAt lua item (.whole value)).map fun value => (key,value)
      return .map (.ofList values)
    | value => .error (typeError "map table" value)
  | .table ⟨keys,sorted,val⟩, .payload t =>
    (luaTableToRecord ⟨keys,sorted,fun k h value => luaToPhenixAt lua (val k h) (.whole value)⟩ t
      (some "kind")).map .table
  | .table ⟨keys,sorted,val⟩, .whole value =>
    match value with
    | .table t =>
      (luaTableToRecord ⟨keys,sorted,fun k h value => luaToPhenixAt lua (val k h) (.whole value)⟩ t
        none).map .table
    | value => .error (typeError "record table" value)
  | .variant ⟨keys,_,val⟩, place =>
    match place.value with
    | .table t =>
      match lua.readText (t.get kindKey) with
      | none => .error "variant table requires string field kind"
      | some kind =>
        match hvalid : validateKey kind with
        | .error message => .error message
        | .ok () =>
          if h : ⟨kind,hvalid⟩ ∈ keys then
            (luaToPhenixAt lua (val ⟨kind,hvalid⟩ h) (.payload t)).map (.variant ⟨kind,hvalid⟩)
          else .error ("unknown variant kind " ++ kind)
    | value => .error (typeError "variant table" value)
  | .callable _ _ _, _ | .object _, _ =>
    .error "callable and object references cannot be constructed from Lua tables"

example (lua : LuaLibrary) : luaToPhenixAt lua .unit (.whole .nil) = .ok .unit := by
  simp [luaToPhenixAt]

def luaToPhenix (lua : LuaLibrary) (schema : PhenixSchema) (value : LuaValue) :
    Except String PhenixValue :=
  luaToPhenixAt lua schema (.whole value)

end PhenixConductor.Lua
