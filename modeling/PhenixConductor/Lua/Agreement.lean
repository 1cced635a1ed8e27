import PhenixConductor.Collections.Stateful
import PhenixConductor.Lua.Survival

/-! # The two decoders

The decoder with a host also takes functions, which become callables of the client.
-/
namespace PhenixConductor.Lua
open Contract Collections
open BTreeMap (get?_eq_some ofList toList)

/-! ## The decoder with a host -/

section
variable {H : Type} (lua : LuaLibrary) (lift : PhenixSchema → LuaValue → EStateM String H CallableRef)

end

/-! ## What fits a schema -/

/-- The shape that a schema asks for. A strict reader takes no record with keys that are not its
fields, and another one takes them in a payload. -/
def Fits (lua : LuaLibrary) (strict : Bool) : PhenixSchema → LuaPlace → Prop
  | .any, place => ∃ v, luaAnyToPhenix lua place.value = .ok v
  | .unit, .payload _ => True
  | .unit, .whole value => value = .nil
  | .bool, place => ∃ b, place.value = .boolean b
  | .i64, place => ∃ i, place.value = .integer i
  | .u64, place => ∃ i, place.value = .integer i ∧ 0 ≤ i.toInt
  | .f64, place => (∃ i, place.value = .integer i) ∨
      ∃ x, place.value = .number x ∧ x.isFinite = true
  | .string, place | .bytes, place => ∃ s, place.value = .string s
  | .option item, place => place.value = .nil ∨ Fits lua strict item (.whole place.value)
  | .array item len, place => ∃ t, place.value = .table t ∧
      (∀ value ∈ LuaTable.sequenceValues t.items, Fits lua strict item (.whole value)) ∧
        (LuaTable.sequenceValues t.items).length = len
  | .list item, place => ∃ t, place.value = .table t ∧
      ∀ value ∈ LuaTable.sequenceValues t.items, Fits lua strict item (.whole value)
  | .map item, place => ∃ t entries, place.value = .table t ∧ lua.textEntries t = .ok entries ∧
      ∀ entry ∈ entries, Fits lua strict item (.whole entry.2)
  | .table ⟨keys,_,val⟩, .payload t =>
      (∀ k (h : k ∈ keys), Fits lua strict (val k h) (.whole (t.get (.ofText k.text)))) ∧
        (strict = true → checkRecordKeys t keys (some "kind") = .ok ())
  | .table ⟨keys,_,val⟩, .whole value => ∃ t, value = .table t ∧
      (∀ k (h : k ∈ keys), Fits lua strict (val k h) (.whole (t.get (.ofText k.text)))) ∧
        checkRecordKeys t keys none = .ok ()
  | .variant ⟨keys,_,val⟩, place => ∃ t kind, place.value = .table t ∧
      lua.readText (t.get kindKey) = some kind ∧
        ∃ (hvalid : validateKey kind = .ok ()) (h : ⟨kind,hvalid⟩ ∈ keys),
          Fits lua strict (val ⟨kind,hvalid⟩ h) (.payload t)
  | .never, _ | .callable _ _ _, _ | .object _, _ => False

/-! ## Two readers side by side -/

section
variable {H α β γ ι : Type} {fits fits' : Bool → Prop} {good : α → Prop} {good' : β → Prop}
  {x : Except String α} {y : EStateM String H α}

/-- A strict computation and one with a host that leaves its state alone. Each gives a value
exactly if the input fits, and then they give the same one. -/
def Agrees (fits : Bool → Prop) (good : α → Prop) (x : Except String α)
    (y : EStateM String H α) : Prop :=
  ∃ r : Except String α, y = check r ∧ (∀ a, x = .ok a → r = .ok a) ∧ (∀ a, r = .ok a → good a) ∧
    (fits false ↔ ∃ a, r = .ok a) ∧ (fits true ↔ ∃ a, x = .ok a)

theorem Agrees.congr (h : Agrees fits good x y) (hfits : ∀ strict, fits strict ↔ fits' strict) :
    Agrees fits' good x y := by
  obtain ⟨r,hy,hsame,hgood,hfalse,htrue⟩ := h
  exact ⟨r,hy,hsame,hgood,(hfits _).symm.trans hfalse,(hfits _).symm.trans htrue⟩

theorem Agrees.weaken {better : α → Prop} (h : Agrees fits good x y)
    (hgood : ∀ a, good a → better a) : Agrees fits better x y := by
  obtain ⟨r,hy,hsame,hr,hfits⟩ := h
  exact ⟨r,hy,hsame,fun a ha => hgood a (hr a ha),hfits⟩

theorem Agrees.bind {f : α → Except String β} {g : α → EStateM String H β}
    (h : Agrees fits good x y) (hnext : ∀ a, good a → Agrees fits' good' (f a) (g a)) :
    Agrees (fun strict => fits strict ∧ fits' strict) good' (x >>= f) (y >>= g) := by
  obtain ⟨r,rfl,hsame,hgood,hfalse,htrue⟩ := h
  cases r with
  | error e =>
    have hx : ∀ a, x ≠ .ok a := fun a ha => nomatch hsame a ha
    refine ⟨.error e,rfl,fun b hb => ?_,nofun,by simp [hfalse],by simp [htrue, bind_eq_ok, hx]⟩
    obtain ⟨a,ha,-⟩ := bind_eq_ok.mp hb
    exact absurd ha (hx a)
  | ok a =>
    obtain ⟨r,hr,hsame',hgood',hfalse',htrue'⟩ := hnext a (hgood a rfl)
    have hx : ∀ b, (x >>= f) = .ok b ↔ fits true ∧ f a = .ok b := by
      intro b
      rw [htrue, bind_eq_ok]
      constructor
      · rintro ⟨a',ha,hb⟩
        cases hsame a' ha
        exact ⟨⟨a,ha⟩,hb⟩
      · rintro ⟨⟨a',ha⟩,hb⟩
        cases hsame a' ha
        exact ⟨a,ha,hb⟩
    refine ⟨r,hr,fun b hb => hsame' b ((hx b).mp hb).2,hgood',?_,?_⟩
    · exact (and_iff_right (hfalse.mpr ⟨a,rfl⟩)).trans hfalse'
    · simp only [hx, exists_and_left, ← htrue']

theorem Agrees.map (h : Agrees fits good x y) (f : α → β) (good' : β → Prop)
    (hf : ∀ a, good a → good' (f a)) : Agrees fits good' (x.map f) (f <$> y) := by
  obtain ⟨r,rfl,hsame,hgood,hfalse,htrue⟩ := h
  refine ⟨r.map f,?_,?_,?_,hfalse.trans exists_map_eq_ok.symm,htrue.trans exists_map_eq_ok.symm⟩
  · cases r <;> rfl
  · intro b hb
    obtain ⟨a,ha,rfl⟩ := map_eq_ok.mp hb
    rw [hsame a ha]
    rfl
  · intro b hb
    obtain ⟨a,ha,rfl⟩ := map_eq_ok.mp hb
    exact hf a (hgood a ha)

end

/-! ## The decoders side by side -/

section
variable {H : Type} {lua : LuaLibrary} {lift : PhenixSchema → LuaValue → EStateM String H CallableRef}
  {t : LuaTable LuaValue} {keys : List Key} {sorted : keys.Pairwise (· < ·)}
  {val : ∀ k ∈ keys, PhenixSchema}

end

section
variable {H : Type}

end

/-- A choice with the fields of its payload. -/
def charge (fields : List (LuaString × LuaValue)) : LuaValue :=
  .table (setFields (kindTable plannedKey) ((.ofText "amount",.integer 1) :: fields))

end PhenixConductor.Lua
