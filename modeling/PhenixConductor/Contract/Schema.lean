import Mathlib.Data.String.Basic
import Mathlib.Data.Prod.Lex
import PhenixConductor.Collections.BTreeMap
import Mathlib.Algebra.Order.BigOperators.Group.List

/-! # Identifiers and structural keys

Every identifier of the kernel is a checked string, ordered by its text.
-/
namespace PhenixConductor.Contract

/-- Bytes allowed in an identifier. Non-ASCII text has no allowed byte. -/
def identifierChar (c : Char) : Bool :=
  c.isAlphanum || c ∈ ['.','_','-','/',':','@']

/-- `validate_identifier`, with the noun that its messages start with. -/
def validateText (noun text : String) : Except String Unit :=
  if text.isEmpty then .error (noun ++ " must not be empty")
  else if text.toList.all identifierChar then .ok ()
  else .error (noun ++ " contains unsupported characters")

inductive IdentifierKind where
  | plugin | component | capability | eventType | subscription | runtime
  | clientConnection | capabilityGeneration | reference | value | configurationFrontend
  | service | resourceNamespace | callable | session | contextResource | contextRevision
  | routingProfile
  deriving DecidableEq

def IdentifierKind.noun : IdentifierKind → String
  | .reference => "reference id"
  | .value => "observable value id"
  | _ => "identifier"

/-- A checked identifier of one kind. -/
structure Identifier (kind : IdentifierKind) where
  text : String
  valid : validateText kind.noun text = .ok ()

def Identifier.parse {kind : IdentifierKind} (text : String) : Option (Identifier kind) :=
  if valid : validateText kind.noun text = .ok () then some ⟨text,valid⟩ else none

abbrev PluginId := Identifier .plugin
abbrev ComponentId := Identifier .component
abbrev CapabilityId := Identifier .capability
abbrev EventTypeId := Identifier .eventType
abbrev SubscriptionId := Identifier .subscription
abbrev RuntimeId := Identifier .runtime
abbrev ClientConnectionId := Identifier .clientConnection
abbrev CapabilityGenerationId := Identifier .capabilityGeneration
abbrev ConfigurationFrontendId := Identifier .configurationFrontend
abbrev ServiceId := Identifier .service
abbrev ResourceNamespace := Identifier .resourceNamespace
abbrev CallableId := Identifier .callable
abbrev SessionId := Identifier .session
abbrev ContextResourceId := Identifier .contextResource
abbrev ContextRevisionId := Identifier .contextRevision
abbrev RoutingProfileId := Identifier .routingProfile
abbrev ReferenceId := Identifier .reference
abbrev ValueId := Identifier .value

/-- The identity of a resolved graph: `sha256:` and a digest. -/
structure GraphGenerationId where
  text : String
  deriving DecidableEq

theorem Identifier.text_injective {kind : IdentifierKind} :
    Function.Injective (@Identifier.text kind) := by
  rintro ⟨a,ha⟩ ⟨b,hb⟩ h
  cases h
  rfl

instance {kind : IdentifierKind} : LinearOrder (Identifier kind) :=
  LinearOrder.lift' Identifier.text Identifier.text_injective

instance {kind : IdentifierKind} : LawfulBEq (Identifier kind) := inferInstance

def namespaceChar (c : Char) : Bool := c.isAlphanum || c ∈ ['.','_','-',':','@']

/-- `ConfigNamespace::parse`. -/
def validateNamespace (text : String) : Except String Unit :=
  if text.isEmpty then .error "configuration namespace must not be empty"
  else if text.toList.all namespaceChar then .ok ()
  else .error "configuration namespace contains unsupported characters"

structure ConfigNamespace where
  text : String
  valid : validateNamespace text = .ok ()

theorem ConfigNamespace.text_injective : Function.Injective ConfigNamespace.text := by
  rintro ⟨a,ha⟩ ⟨b,hb⟩ h
  cases h
  rfl

instance : LinearOrder ConfigNamespace :=
  LinearOrder.lift' ConfigNamespace.text ConfigNamespace.text_injective

/-- `InterfaceId::try_from`: one `@` separates a nonempty identity from a
positive version that fits 64 bits. -/
def validateInterface (text : String) : Except String Unit := do
  validateText "identifier" text
  let chars := text.toList
  let version := (chars.reverse.takeWhile (· ≠ '@')).reverse
  let identity := chars.take (chars.length - version.length - 1)
  if version.length = chars.length then
    throw "interface identifier must include an @version suffix"
  if identity.isEmpty then throw "interface identifier identity must not be empty"
  if '@' ∈ identity then
    throw "interface identifier must contain exactly one @version suffix"
  let number := version.foldl (fun n c => 10 * n + (c.toNat - '0'.toNat)) 0
  if version.isEmpty || !version.all Char.isDigit || number ≥ 2 ^ 64 || number = 0 then
    throw "interface identifier version must be a positive integer"

structure InterfaceId where
  text : String
  valid : validateInterface text = .ok ()

abbrev ContractId := InterfaceId

theorem InterfaceId.text_injective : Function.Injective InterfaceId.text := by
  rintro ⟨a,ha⟩ ⟨b,hb⟩ h
  cases h
  rfl

instance : LinearOrder InterfaceId :=
  LinearOrder.lift' InterfaceId.text InterfaceId.text_injective

/-- Control characters in the sense of the Unicode category Cc. -/
def isControl (c : Char) : Bool := c.toNat ≤ 0x1f || (0x7f ≤ c.toNat && c.toNat ≤ 0x9f)

def validateKey (text : String) : Except String Unit :=
  if text.isEmpty then .error "structural key must not be empty"
  else if text.toList.any isControl then
    .error "structural key must not contain control characters"
  else .ok ()

/-- A field name of a table or a tag of a variant. -/
structure Key where
  text : String
  valid : validateKey text = .ok ()

theorem Key.text_injective : Function.Injective Key.text := by
  rintro ⟨a,ha⟩ ⟨b,hb⟩ h
  cases h
  rfl

instance : LinearOrder Key :=
  LinearOrder.lift' Key.text Key.text_injective

instance : LawfulBEq Key := inferInstance

end PhenixConductor.Contract

/-! ## Structural schemas

`PhenixSchema` is the closed language of structural types. Equality is the
structural equality that the kernel derives; it is decided by `sameSchema`.
-/
namespace PhenixConductor.Contract
open Collections

inductive TypeKind where
  | any | never | unit | bool | i64 | u64 | f64 | string | bytes | option | array | list
  | map | table | variant | callable | object
  deriving DecidableEq

/-- The derived `Debug` name, which `Display` prints. -/
def TypeKind.text : TypeKind → String
  | .any => "Any"
  | .never => "Never"
  | .unit => "Unit"
  | .bool => "Bool"
  | .i64 => "I64"
  | .u64 => "U64"
  | .f64 => "F64"
  | .string => "String"
  | .bytes => "Bytes"
  | .option => "Option"
  | .array => "Array"
  | .list => "List"
  | .map => "Map"
  | .table => "Table"
  | .variant => "Variant"
  | .callable => "Callable"
  | .object => "Object"

/-- The source enum `Type`, under its alias. -/
inductive PhenixSchema where
  | any | never | unit | bool | i64 | u64 | f64 | string | bytes
  | option (item : PhenixSchema)
  | array (item : PhenixSchema) (len : ℕ)
  | list (item : PhenixSchema)
  | map (item : PhenixSchema)
  | table (fields : BTreeMap Key PhenixSchema)
  | variant (variants : BTreeMap Key PhenixSchema)
  | callable (contract : ContractId) (input output : PhenixSchema)
  | object (contract : ContractId)

namespace PhenixSchema

def kind : PhenixSchema → TypeKind
  | .any => .any
  | .never => .never
  | .unit => .unit
  | .bool => .bool
  | .i64 => .i64
  | .u64 => .u64
  | .f64 => .f64
  | .string => .string
  | .bytes => .bytes
  | .option _ => .option
  | .array _ _ => .array
  | .list _ => .list
  | .map _ => .map
  | .table _ => .table
  | .variant _ => .variant
  | .callable _ _ _ => .callable
  | .object _ => .object

/-- Induction with one hypothesis per member of a table or variant. -/
@[elab_as_elim]
theorem induct {motive : PhenixSchema → Prop} (any : motive .any) (never : motive .never)
    (unit : motive .unit) (bool : motive .bool) (i64 : motive .i64) (u64 : motive .u64)
    (f64 : motive .f64) (string : motive .string) (bytes : motive .bytes)
    (option : ∀ item, motive item → motive (.option item))
    (array : ∀ item len, motive item → motive (.array item len))
    (list : ∀ item, motive item → motive (.list item))
    (map : ∀ item, motive item → motive (.map item))
    (table : ∀ fields, (∀ k t, fields.get? k = some t → motive t) → motive (.table fields))
    (variant : ∀ vs, (∀ k t, vs.get? k = some t → motive t) → motive (.variant vs))
    (callable : ∀ c i o, motive i → motive o → motive (.callable c i o))
    (object : ∀ c, motive (.object c)) (t : PhenixSchema) : motive t := by
  refine @PhenixSchema.rec motive
    (fun m => ∀ k t, m.get? k = some t → motive t) any never unit bool i64 u64 f64
    string bytes option array list map table variant callable object ?_ t
  intro keys sorted val ih k t h
  obtain ⟨hk,rfl⟩ := (BTreeMap.get?_eq_some _).mp h
  exact ih k hk

/-- Structural equality as a computation. -/
def sameSchema : PhenixSchema → PhenixSchema → Bool
  | .any, .any | .never, .never | .unit, .unit | .bool, .bool | .i64, .i64 | .u64, .u64
  | .f64, .f64 | .string, .string | .bytes, .bytes => true
  | .option a, .option b | .list a, .list b | .map a, .map b => sameSchema a b
  | .array a m, .array b n => m == n && sameSchema a b
  | .table ⟨keys,_,val⟩, .table n | .variant ⟨keys,_,val⟩, .variant n =>
    keys == n.keys && keys.attach.all fun ⟨k,h⟩ =>
      (n.get? k).any fun t => sameSchema (val k h) t
  | .callable c i o, .callable c' i' o' => c == c' && sameSchema i i' && sameSchema o o'
  | .object c, .object c' => c == c'
  | _, _ => false

example : sameSchema (.list .unit) (.list .unit) = true := by simp [sameSchema]

theorem sameSchema_iff (a b : PhenixSchema) : sameSchema a b = true ↔ a = b := by
  induction a using induct generalizing b with
  | any | never | unit | bool | i64 | u64 | f64 | string | bytes | object =>
    cases b <;> simp [sameSchema]
  | option a ih | list a ih | map a ih | array a len ih => cases b <;> simp [sameSchema, ih, and_comm]
  | callable c i o ihi iho => cases b <;> simp [sameSchema, ihi, iho, and_assoc]
  | table m ih | variant m ih =>
    cases b <;> simp only [sameSchema, reduceCtorEq, Bool.false_eq_true]
    simp only [Bool.and_eq_true, beq_iff_eq, List.all_eq_true, List.mem_attach, true_implies,
      Subtype.forall, Option.any_eq_true, table.injEq, variant.injEq, BTreeMap.eq_iff]
    refine and_congr_right fun _ => forall₂_congr fun k hk => ?_
    simp only [ih k _ (m.get?_of_mem hk)]
    simp

instance : DecidableEq PhenixSchema := fun a b => decidable_of_iff _ (sameSchema_iff a b)

/-- Number of constructors, the measure of the contravariant recursion. -/
def size : PhenixSchema → ℕ
  | .option t | .list t | .map t | .array t _ => t.size + 1
  | .table ⟨keys,_,val⟩ | .variant ⟨keys,_,val⟩ =>
    (keys.attach.map fun ⟨k,h⟩ => (val k h).size).sum + 1
  | .callable _ i o => i.size + o.size + 1
  | _ => 1

example : size (.list .unit) = 2 := by simp [size]

theorem size_val_lt_table (m : BTreeMap Key PhenixSchema) {k : Key} (h : k ∈ m.keys) :
    (m.val k h).size < (table m).size :=
  Nat.lt_succ_of_le (List.le_sum_of_mem (List.mem_map.mpr ⟨⟨k,h⟩,List.mem_attach _ _,rfl⟩))

theorem size_val_lt_variant (m : BTreeMap Key PhenixSchema) {k : Key} (h : k ∈ m.keys) :
    (m.val k h).size < (variant m).size :=
  size_val_lt_table m h

end PhenixSchema
end PhenixConductor.Contract
