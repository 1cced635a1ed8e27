import PhenixConductor.Collections.BTreeMap
import Mathlib.Data.String.Basic

/-! # Compact JSON texts

The text of strings, of arrays and of objects as `serde_json::to_string` writes it, without
blanks.
-/
namespace PhenixConductor.Collections
open List
variable {α β : Type}

def SelfDelimiting (encode : α → List Char) : Prop :=
  ∀ a b rest rest', encode a ++ rest = encode b ++ rest' → a = b ∧ rest = rest'

namespace SelfDelimiting
variable {f : α → List Char} {g : β → List Char}

section
variable (hf : SelfDelimiting f)
include hf

theorem injective : Function.Injective f :=
  fun a b h => (hf a b [] [] (by rw [h])).1

theorem comap {e : β → α} (he : Function.Injective e) :
    SelfDelimiting fun b => f (e b) := by
  intro a b rest rest' h
  obtain ⟨hsame,hrest⟩ := hf _ _ _ _ h
  exact ⟨he hsame,hrest⟩

/-- A fixed text stands before the value. -/
theorem after (start : List Char) :
    SelfDelimiting fun a => start ++ f a := by
  intro a b rest rest' h
  simp only [append_assoc,append_cancel_left_eq] at h
  exact hf a b rest rest' h

/-- A fixed text stands behind the value. -/
theorem before (stop : List Char) :
    SelfDelimiting fun a => f a ++ stop := by
  intro a b rest rest' h
  simp only [append_assoc] at h
  obtain ⟨rfl,hrest⟩ := hf a b _ _ h
  exact ⟨rfl,append_cancel_left hrest⟩

/-- One value after another. -/
theorem pair (hg : SelfDelimiting g) :
    SelfDelimiting fun p : α × β => f p.1 ++ g p.2 := by
  rintro ⟨a,b⟩ ⟨a',b'⟩ rest rest' h
  simp only [append_assoc] at h
  obtain ⟨rfl,hsecond⟩ := hf a a' _ _ h
  obtain ⟨rfl,hrest⟩ := hg b b' _ _ hsecond
  exact ⟨rfl,hrest⟩

/-- Values up to a character that none of them begins with. -/
theorem upTo {stop : Char}
    (hstop : ∀ a rest rest', f a ++ rest ≠ stop :: rest') :
    SelfDelimiting fun values : List α => values.flatMap f ++ [stop] := by
  intro values
  induction values with
  | nil =>
    intro values' rest rest' h
    cases values' with
    | nil => simpa using h
    | cons b values' =>
      simp only [flatMap_nil,nil_append,flatMap_cons,append_assoc,
        singleton_append] at h
      exact absurd h.symm (hstop b _ _)
  | cons a values ih =>
    intro values' rest rest' h
    cases values' with
    | nil =>
      simp only [flatMap_nil,nil_append,flatMap_cons,append_assoc,
        singleton_append] at h
      exact absurd h (hstop a _ _)
    | cons b values' =>
      simp only [flatMap_cons,append_assoc] at h
      obtain ⟨rfl,hrest⟩ := hf a b _ _ h
      obtain ⟨rfl,hend⟩ := ih values' rest rest' (by simpa only [append_assoc] using hrest)
      exact ⟨rfl,hend⟩

end

end SelfDelimiting

/-! ## Strings -/

/-- The lowercase digit of a number below 16. -/
def hexDigit (n : ℕ) : Char := if n < 10 then Char.ofNat (48 + n) else Char.ofNat (87 + n)

def escapeChar (c : Char) : List Char :=
  if c = '"' then ['\\','"']
  else if c = '\\' then ['\\','\\']
  else if c = '\x08' then ['\\','b']
  else if c = '\t' then ['\\','t']
  else if c = '\n' then ['\\','n']
  else if c = '\x0c' then ['\\','f']
  else if c = '\r' then ['\\','r']
  else if c.toNat < 32 then ['\\','u','0','0',hexDigit (c.toNat / 16),hexDigit (c.toNat % 16)]
  else [c]

/-- The character that an escaped text begins with, and the rest. -/
def unescape : List Char → Option (Char × List Char)
  | '\\' :: '"' :: rest => some ('"',rest)
  | '\\' :: '\\' :: rest => some ('\\',rest)
  | '\\' :: 'b' :: rest => some ('\x08',rest)
  | '\\' :: 't' :: rest => some ('\t',rest)
  | '\\' :: 'n' :: rest => some ('\n',rest)
  | '\\' :: 'f' :: rest => some ('\x0c',rest)
  | '\\' :: 'r' :: rest => some ('\r',rest)
  | '\\' :: 'u' :: '0' :: '0' :: high :: low :: rest =>
    ((List.range 32).find? fun n => hexDigit (n / 16) = high ∧ hexDigit (n % 16) = low).map
      fun n => (Char.ofNat n,rest)
  | c :: rest => some (c,rest)
  | [] => none

example : unescape ['\\','n'] = some ('\n',[]) := by simp [unescape]

theorem find?_hexDigit : ∀ n < 32, ((List.range 32).find? fun m =>
    hexDigit (m / 16) = hexDigit (n / 16) ∧ hexDigit (m % 16) = hexDigit (n % 16)) = some n := by
  decide

theorem unescape_escapeChar (c : Char) (rest : List Char) :
    unescape (escapeChar c ++ rest) = some (c,rest) := by
  unfold escapeChar
  split_ifs with h1 h2 h3 h4 h5 h6 h7 h8
  · rw [h1]; rfl
  · rw [h2]; rfl
  · rw [h3]; rfl
  · rw [h4]; rfl
  · rw [h5]; rfl
  · rw [h6]; rfl
  · rw [h7]; rfl
  · rw [cons_append,cons_append,cons_append,cons_append,cons_append,
      cons_append,nil_append,unescape,find?_hexDigit _ h8]
    simp
  · simp only [cons_append,nil_append]
    unfold unescape
    split <;> simp_all

theorem selfDelimiting_escapeChar : SelfDelimiting escapeChar := by
  intro c d rest rest' h
  have hsame := unescape_escapeChar c rest
  rw [h,unescape_escapeChar] at hsame
  simpa [eq_comm] using hsame

theorem escapeChar_ne_quote (c : Char) (rest rest' : List Char) :
    escapeChar c ++ rest ≠ '"' :: rest' := by
  unfold escapeChar
  split_ifs with h1 h2 h3 h4 h5 h6 h7 h8 <;> simp_all

/-- A string between quotation marks. -/
def quote (text : String) : List Char := '"' :: (text.toList.flatMap escapeChar ++ ['"'])

theorem selfDelimiting_quote : SelfDelimiting quote :=
  ((selfDelimiting_escapeChar.upTo escapeChar_ne_quote).comap fun _ _ =>
    String.toList_injective).after ['"']

/-! ## Arrays and objects -/

def commaSeparated : List (List Char) → List Char
  | [] => []
  | first :: rest => first ++ rest.flatMap (',' :: ·)

def jsonArray (items : List (List Char)) : List Char := '[' :: (commaSeparated items ++ [']'])

def jsonObject (fields : List (String × List Char)) : List Char :=
  '\x7b' :: (commaSeparated (fields.map fun field => quote field.1 ++ ':' :: field.2) ++ ['\x7d'])

/-- The text has no control character: none of the first 32. -/
def Printable (text : List Char) : Prop := ∀ c ∈ text, 32 ≤ c.toNat

theorem printable_append {l m : List Char} : Printable (l ++ m) ↔ Printable l ∧ Printable m := by
  simp only [Printable,mem_append,or_imp,forall_and]

theorem printable_cons {c : Char} {l : List Char} :
    Printable (c :: l) ↔ 32 ≤ c.toNat ∧ Printable l := forall_mem_cons

theorem printable_nil : Printable [] := nofun

theorem hexDigit_printable : ∀ n < 32, 32 ≤ (hexDigit (n / 16)).toNat ∧ 32 ≤ (hexDigit (n % 16)).toNat := by
  decide

theorem printable_escapeChar (c : Char) : Printable (escapeChar c) := by
  by_cases hcontrol : c.toNat < 32
  · have hdigits := hexDigit_printable _ hcontrol
    unfold escapeChar
    split_ifs <;> simp only [printable_cons,printable_nil,and_true,hdigits] <;> decide
  · unfold escapeChar
    split_ifs <;> simp only [printable_cons,printable_nil,and_true] <;> first | decide | omega

theorem printable_quote (text : String) : Printable (quote text) := by
  have hbody : Printable (text.toList.flatMap escapeChar) := fun c hc => by
    obtain ⟨d,-,hd⟩ := mem_flatMap.mp hc
    exact printable_escapeChar d c hd
  exact printable_cons.mpr ⟨by decide,printable_append.mpr
    ⟨hbody,printable_cons.mpr ⟨by decide,printable_nil⟩⟩⟩

theorem printable_commaSeparated {items : List (List Char)} (h : ∀ item ∈ items, Printable item) :
    Printable (commaSeparated items) := by
  cases items with
  | nil => exact printable_nil
  | cons first rest =>
    refine printable_append.mpr ⟨h first mem_cons_self,fun c hc => ?_⟩
    obtain ⟨item,hitem,hmem⟩ := mem_flatMap.mp hc
    exact printable_cons.mpr ⟨by decide,h item (mem_cons_of_mem first hitem)⟩ c hmem

theorem printable_jsonObject {fields : List (String × List Char)}
    (h : ∀ field ∈ fields, Printable field.2) : Printable (jsonObject fields) := by
  have hfields : Printable (commaSeparated (fields.map fun field => quote field.1 ++ ':' :: field.2)) := by
    refine printable_commaSeparated fun item hitem => ?_
    obtain ⟨field,hfield,rfl⟩ := mem_map.mp hitem
    exact printable_append.mpr ⟨printable_quote _,printable_cons.mpr ⟨by decide,h field hfield⟩⟩
  exact printable_cons.mpr ⟨by decide,printable_append.mpr
    ⟨hfields,printable_cons.mpr ⟨by decide,printable_nil⟩⟩⟩

/-- An object of strings. -/
def quoteEntries (entries : List (String × String)) : List Char :=
  jsonObject (entries.map fun entry => (entry.1,quote entry.2))

/-- The entries of a map in the order of its keys. -/
def quoteMap (m : BTreeMap String String) : List Char := quoteEntries m.toList

/-- An object whose values have a code. -/
def objectOf (code : α → List Char) (entries : List (String × α)) : List Char :=
  jsonObject (entries.map fun entry => (entry.1,code entry.2))

section Objects
variable {code : α → List Char}

theorem selfDelimiting_entry (hcode : SelfDelimiting code) :
    SelfDelimiting fun entry : String × α => quote entry.1 ++ ':' :: code entry.2 :=
  selfDelimiting_quote.pair (hcode.after [':'])

theorem objectOf_cons (entry : String × α) (entries : List (String × α)) :
    objectOf code (entry :: entries) = ['\x7b'] ++ ((quote entry.1 ++ ':' :: code entry.2) ++
      (entries.flatMap (fun entry => [','] ++ (quote entry.1 ++ ':' :: code entry.2)) ++
        ['\x7d'])) := by
  simp [objectOf,jsonObject,commaSeparated,flatMap_map]

theorem selfDelimiting_objectOf (hcode : SelfDelimiting code) : SelfDelimiting (objectOf code) := by
  have hentry := selfDelimiting_entry hcode
  have hcomma : ∀ (entry : String × α) (rest rest' : List Char),
      [','] ++ (quote entry.1 ++ ':' :: code entry.2) ++ rest ≠ '\x7d' :: rest' := by
    simp
  have hall := (hentry.pair ((hentry.after [',']).upTo hcomma)).after ['\x7b']
  rintro (_ | ⟨entry,entries⟩) (_ | ⟨entry',entries'⟩) rest rest' h
  · simpa using h
  · simp [objectOf,jsonObject,commaSeparated,quote] at h
  · simp [objectOf,jsonObject,commaSeparated,quote] at h
  · rw [objectOf_cons,objectOf_cons] at h
    obtain ⟨hsame,hrest⟩ := hall (entry,entries) (entry',entries') rest rest' h
    obtain ⟨rfl,rfl⟩ := Prod.mk.inj hsame
    exact ⟨rfl,hrest⟩

theorem printable_objectOf {entries : List (String × α)}
    (h : ∀ a, Printable (code a)) : Printable (objectOf code entries) := by
  refine printable_jsonObject fun field hfield => ?_
  obtain ⟨entry,-,rfl⟩ := mem_map.mp hfield
  exact h entry.2

/-- A value, or none. -/
def nullable (code : α → List Char) : Option α → List Char
  | none => ['n','u','l','l']
  | some a => code a

theorem selfDelimiting_nullable (hcode : SelfDelimiting code)
    (h : ∀ a rest rest', code a ++ rest ≠ 'n' :: rest') : SelfDelimiting (nullable code) := by
  rintro (_ | a) (_ | b) rest rest' hsame
  · simpa [nullable] using hsame
  · exact absurd hsame.symm (h b _ _)
  · exact absurd hsame (h a _ _)
  · obtain ⟨rfl,hrest⟩ := hcode a b rest rest' hsame
    exact ⟨rfl,hrest⟩

theorem printable_nullable (h : ∀ a, Printable (code a)) (value : Option α) :
    Printable (nullable code value) := by
  cases value with
  | none =>
    change Printable ['n','u','l','l']
    simp [Printable]
  | some a => exact h a

end Objects

theorem selfDelimiting_quoteEntries : SelfDelimiting quoteEntries :=
  selfDelimiting_objectOf selfDelimiting_quote

theorem selfDelimiting_quoteMap : SelfDelimiting quoteMap :=
  selfDelimiting_quoteEntries.comap fun _ _ => BTreeMap.toList_injective

end PhenixConductor.Collections

/-! ## Decimal numerals

Reading an unsigned number of a fixed width, and reading what follows a given text.
A number that is written out and read again is itself.
-/
namespace PhenixConductor.Collections
open List

/-- The digits of a numeral, which a plus sign may stand before. -/
def numeralDigits : List Char → List Char
  | '+' :: digits => digits
  | text => text

/-- `str::parse` of an unsigned integer below `bound`. -/
def parseNumeral (bound : ℕ) (text : List Char) : Option ℕ :=
  if numeralDigits text ≠ [] ∧ (numeralDigits text).all Char.isDigit ∧
      Nat.ofDigitChars 10 (numeralDigits text) 0 < bound then
    some (Nat.ofDigitChars 10 (numeralDigits text) 0)
  else none

theorem numeralDigits_of_isDigit {text : List Char} (h : ∀ c ∈ text, c.isDigit) :
    numeralDigits text = text := by
  unfold numeralDigits
  split
  · have hplus := h '+' mem_cons_self
    simp at hplus
  · rfl

theorem parseNumeral_repr {bound n : ℕ} (h : n < bound) :
    parseNumeral bound (Nat.repr n).toList = some n := by
  have hdigits : ∀ c ∈ Nat.toDigits 10 n, c.isDigit := by
    intro c hc
    exact Nat.isDigit_of_mem_toDigits (by omega) (by omega) hc
  have hall : (Nat.toDigits 10 n).all Char.isDigit := all_eq_true.mpr hdigits
  rw [Nat.toList_repr, parseNumeral, numeralDigits_of_isDigit hdigits,
    Nat.ofDigitChars_ten_toDigits]
  exact if_pos ⟨Nat.toDigits_ne_nil,hall,h⟩

/-- A text is split at the last place of a character. -/
theorem append_cons_inj {a b l r : List Char} {c : Char} (hl : c ∉ l) (hr : c ∉ r)
    (h : a ++ c :: l = b ++ c :: r) : a = b ∧ l = r := by
  have hreverse : l.reverse ++ c :: a.reverse = r.reverse ++ c :: b.reverse := by
    simpa using congrArg List.reverse h
  have hsplit : ∀ l r : List Char, c ∉ l → (l ++ c :: r).takeWhile (· ≠ c) = l ∧
      (l ++ c :: r).dropWhile (· ≠ c) = c :: r := by
    intro l r hl
    have hpos : ∀ d ∈ l, (decide (d ≠ c)) = true := fun d hd => decide_eq_true (by rintro rfl; exact hl hd)
    constructor
    · rw [takeWhile_append_of_pos hpos]
      simp
    · rw [dropWhile_append_of_pos hpos]
      simp
  obtain ⟨hfirst,hfirst'⟩ := hsplit l.reverse a.reverse (by simpa using hl)
  obtain ⟨hsecond,hsecond'⟩ := hsplit r.reverse b.reverse (by simpa using hr)
  rw [hreverse] at hfirst hfirst'
  have hafter : r.reverse = l.reverse := hsecond.symm.trans hfirst
  have hbefore : c :: b.reverse = c :: a.reverse := hsecond'.symm.trans hfirst'
  exact ⟨(reverse_injective (List.cons.inj hbefore).2).symm,(reverse_injective hafter).symm⟩

/-- A numeral after a character that is no digit is told from what stands before. -/
theorem append_repr_inj {a b : List Char} {c : Char} {m n : ℕ} (hc : c.isDigit = false)
    (h : a ++ c :: (Nat.repr m).toList = b ++ c :: (Nat.repr n).toList) : a = b ∧ m = n := by
  have hdigits : ∀ k : ℕ, c ∉ (Nat.repr k).toList := by
    intro k hk
    rw [Nat.toList_repr] at hk
    have hdigit := Nat.isDigit_of_mem_toDigits (by omega) (by omega) hk
    rw [hc] at hdigit
    cases hdigit
  obtain ⟨rfl,hsame⟩ := append_cons_inj (hdigits m) (hdigits n) h
  refine ⟨rfl,?_⟩
  rw [Nat.toList_repr, Nat.toList_repr] at hsame
  rw [← Nat.ofDigitChars_ten_toDigits (n := m), hsame, Nat.ofDigitChars_ten_toDigits]

/-- `str::strip_prefix` -/
def stripPrefix (start text : String) : Option (List Char) :=
  if start.toList <+: text.toList then some (text.toList.drop start.length) else none

theorem stripPrefix_append (start rest : String) :
    stripPrefix start (start ++ rest) = some rest.toList := by
  have h : (start ++ rest).toList = start.toList ++ rest.toList := String.toList_append
  rw [stripPrefix, h, if_pos (prefix_append _ _)]
  congr 1
  exact drop_left

end PhenixConductor.Collections
