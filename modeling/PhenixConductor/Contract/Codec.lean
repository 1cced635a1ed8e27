import PhenixConductor.Contract.Parse

/-! # Value codecs

A codec declares the schema of its values, lowers a value, and raises it again in an exact and
in a projecting way.
-/
namespace PhenixConductor.Contract

/-- The trait, as the record of its functions for one type. -/
structure ValueCodec (T : Type) where
  phenixType : PhenixSchema
  toValue : T → PhenixValue
  fromValue : PhenixValue → Except ValueError T
  projectFromValue : PhenixValue → Except ValueError T := fromValue

namespace ValueCodec
variable {T : Type}

/-- The four functions of a codec agree. -/
structure Lawful (codec : ValueCodec T) : Prop where
  fromValue_toValue : ∀ x, codec.fromValue (codec.toValue x) = .ok x
  parse_toValue : ∀ x, codec.phenixType.parse (codec.toValue x) = .ok ()
  parse_of_fromValue : ∀ v x, codec.fromValue v = .ok x → codec.phenixType.parse v = .ok ()
  project_of_fromValue : ∀ v x, codec.fromValue v = .ok x → codec.projectFromValue v = .ok x

/-! ### Primitives -/

/-- `primitive_value!`: one variant of the value holds the type as it is. -/
def primitive (type : PhenixSchema) (variant : T → PhenixValue)
    (held : PhenixValue → Option T) : ValueCodec T where
  phenixType := type
  toValue := variant
  fromValue value :=
    match held value with
    | some x => .ok x
    | none => .error (.typeMismatch type.kind value.kind)

theorem primitive_fromValue {type : PhenixSchema} {variant : T → PhenixValue}
    {held : PhenixValue → Option T} {value : PhenixValue} {x : T} :
    (primitive type variant held).fromValue value = .ok x ↔ held value = some x := by
  dsimp only [primitive]
  cases held value <;> simp

theorem primitive_lawful {type : PhenixSchema} {variant : T → PhenixValue}
    {held : PhenixValue → Option T} (hheld : ∀ v x, held v = some x ↔ v = variant x)
    (hparse : ∀ x, type.parse (variant x) = .ok ()) :
    (primitive type variant held).Lawful where
  fromValue_toValue x := primitive_fromValue.mpr ((hheld _ x).mpr rfl)
  parse_toValue := hparse
  parse_of_fromValue v x h := by
    rw [(hheld v x).mp (primitive_fromValue.mp h)]
    exact hparse x
  project_of_fromValue _ _ h := h

/-- The newtype of `Vec<u8>`. -/
structure Bytes where
  data : List UInt8

def unit : ValueCodec Unit := primitive .unit (fun _ => .unit) fun | .unit => some () | _ => none

def bool : ValueCodec Bool := primitive .bool .bool fun | .bool value => some value | _ => none

def i64 : ValueCodec Int64 := primitive .i64 .i64 fun | .i64 value => some value | _ => none

def u64 : ValueCodec UInt64 := primitive .u64 .u64 fun | .u64 value => some value | _ => none

def f64 : ValueCodec F64 := primitive .f64 .f64 fun | .f64 value => some value | _ => none

def string : ValueCodec String :=
  primitive .string .string fun | .string value => some value | _ => none

def bytes : ValueCodec Bytes :=
  primitive .bytes (.bytes ·.data) fun | .bytes value => some ⟨value⟩ | _ => none

theorem unit_lawful : unit.Lawful :=
  primitive_lawful (fun v x => by cases v <;> simp) fun _ => rfl

theorem bool_lawful : bool.Lawful :=
  primitive_lawful (fun v x => by cases v <;> simp) fun _ => rfl

theorem i64_lawful : i64.Lawful :=
  primitive_lawful (fun v x => by cases v <;> simp) fun _ => rfl

theorem u64_lawful : u64.Lawful :=
  primitive_lawful (fun v x => by cases v <;> simp) fun _ => rfl

theorem f64_lawful : f64.Lawful :=
  primitive_lawful (fun v x => by cases v <;> simp) fun _ => rfl

theorem string_lawful : string.Lawful :=
  primitive_lawful (fun v x => by cases v <;> simp) fun _ => rfl

theorem bytes_lawful : bytes.Lawful :=
  primitive_lawful (fun v x => by cases x; cases v <;> simp) fun _ => rfl

/-! ### Narrow integers -/

inductive UnsignedWidth where
  | u8 | u16 | u32

def UnsignedWidth.bits : UnsignedWidth → ℕ
  | .u8 => 8
  | .u16 => 16
  | .u32 => 32

inductive SignedWidth where
  | i8 | i16 | i32

def SignedWidth.bits : SignedWidth → ℕ
  | .i8 => 8
  | .i16 => 16
  | .i32 => 32

/-- The size of a pointer, which depends on the target. -/
inductive PointerWidth where
  | w16 | w32 | w64

def PointerWidth.bits : PointerWidth → ℕ
  | .w16 => 16
  | .w32 => 32
  | .w64 => 64

abbrev Unsigned (bits : ℕ) := Fin (2 ^ bits)

abbrev Signed (bits : ℕ) := {z : ℤ // -2 ^ (bits - 1) ≤ z ∧ z < 2 ^ (bits - 1)}

/-- An unsigned integer with the error for a value that it cannot hold. -/
def fitted (bits : ℕ) (outOfRange : ValueError) : ValueCodec (Unsigned bits) where
  phenixType := .u64
  toValue x := .u64 (.ofNat x)
  fromValue
    | .u64 value => if h : value.toNat < 2 ^ bits then .ok ⟨value.toNat,h⟩ else .error outOfRange
    | value => .error (.typeMismatch .u64 value.kind)

/-- `unsigned_value!` -/
def unsigned (width : UnsignedWidth) : ValueCodec (Unsigned width.bits) :=
  fitted width.bits (.typeMismatch .u64 .u64)

def usize (width : PointerWidth) : ValueCodec (Unsigned width.bits) :=
  fitted width.bits (.invalidValue "u64 does not fit usize")

/-- `signed_value!` -/
def signed (width : SignedWidth) : ValueCodec (Signed width.bits) where
  phenixType := .i64
  toValue x := .i64 (.ofInt x)
  fromValue
    | .i64 value =>
      if h : -2 ^ (width.bits - 1) ≤ value.toInt ∧ value.toInt < 2 ^ (width.bits - 1) then
        .ok ⟨value.toInt,h⟩
      else .error (.typeMismatch .i64 .i64)
    | value => .error (.typeMismatch .i64 value.kind)

theorem fitted_lawful {bits : ℕ} (h : bits ≤ 64) (outOfRange : ValueError) :
    (fitted bits outOfRange).Lawful where
  fromValue_toValue x := by
    have hbound : (2 : ℕ) ^ bits ≤ 2 ^ 64 := Nat.pow_le_pow_right (by decide) h
    have hvalue : (UInt64.ofNat x).toNat = x := UInt64.toNat_ofNat_of_lt' (x.isLt.trans_le hbound)
    dsimp only [fitted]
    simp only [hvalue, x.isLt, dif_pos]
  parse_toValue _ := rfl
  parse_of_fromValue v x hfrom := by
    cases v with
    | u64 value => rfl
    | _ => cases hfrom
  project_of_fromValue _ _ hfrom := hfrom

theorem unsigned_lawful (width : UnsignedWidth) : (unsigned width).Lawful :=
  fitted_lawful (by cases width <;> decide) _

theorem usize_lawful (width : PointerWidth) : (usize width).Lawful :=
  fitted_lawful (by cases width <;> decide) _

theorem signed_lawful (width : SignedWidth) : (signed width).Lawful where
  fromValue_toValue x := by
    obtain ⟨z,hz⟩ := x
    have hvalue : (Int64.ofInt z).toInt = z := by
      apply Int64.toInt_ofInt_of_le
      · cases width <;> simp only [SignedWidth.bits] at hz <;> omega
      · cases width <;> simp only [SignedWidth.bits] at hz <;> omega
    dsimp only [signed]
    simp only [hvalue, hz, and_self, dif_pos]
  parse_toValue _ := rfl
  parse_of_fromValue v x hfrom := by
    cases v with
    | i64 value => rfl
    | _ => cases hfrom
  project_of_fromValue _ _ hfrom := hfrom

end ValueCodec
end PhenixConductor.Contract
