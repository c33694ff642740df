/-!
# Primitive types

The scalar types of a record: integers of five widths, signed and unsigned, truth values, floats
and account addresses. Each is stored in a fixed number of bytes, its `width`. `parse?` accepts
the name of each and two more spellings for an address.
-/

namespace LedgerScan

/-- A scalar type. -/
inductive Primitive where
  | u8 | i8 | bool
  | u16 | i16
  | u32 | i32 | f32
  | u64 | i64 | f64
  | u128 | i128
  | pubkey
  deriving DecidableEq, Repr, Inhabited

namespace Primitive

/-- The bytes a value takes. -/
def width : Primitive → Nat
  | .u8 | .i8 | .bool => 1
  | .u16 | .i16 => 2
  | .u32 | .i32 | .f32 => 4
  | .u64 | .i64 | .f64 => 8
  | .u128 | .i128 => 16
  | .pubkey => 32

/-- The name that types are shown with. -/
def name : Primitive → String
  | .u8 => "u8"
  | .i8 => "i8"
  | .bool => "bool"
  | .u16 => "u16"
  | .i16 => "i16"
  | .u32 => "u32"
  | .i32 => "i32"
  | .f32 => "f32"
  | .u64 => "u64"
  | .i64 => "i64"
  | .f64 => "f64"
  | .u128 => "u128"
  | .i128 => "i128"
  | .pubkey => "pubkey"

/-- The type a name stands for. -/
def parse? : String → Option Primitive
  | "u8" => some .u8
  | "i8" => some .i8
  | "bool" => some .bool
  | "u16" => some .u16
  | "i16" => some .i16
  | "u32" => some .u32
  | "i32" => some .i32
  | "f32" => some .f32
  | "u64" => some .u64
  | "i64" => some .i64
  | "f64" => some .f64
  | "u128" => some .u128
  | "i128" => some .i128
  | "pubkey" | "publicKey" | "Pubkey" => some .pubkey
  | _ => none

/-- A type is found again under the name it is shown with. -/
theorem parse?_name (p : Primitive) : parse? p.name = some p := by
  cases p <;> rfl

/-- Every value takes at least one byte. -/
theorem width_pos (p : Primitive) : 0 < p.width := by
  cases p <;> decide

end Primitive

end LedgerScan
