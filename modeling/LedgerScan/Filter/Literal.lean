import LedgerScan.Codec.Base58
import LedgerScan.Codec.LittleEndian
import LedgerScan.Json.Number
import LedgerScan.Scan.Error
import LedgerScan.Schema.Primitive

/-!
# Literals

A literal is a value that the bytes of a field are compared with. It is encoded in the width of its
own type, so a literal of one width never equals a field of another. An integer literal knows the
primitive type it belongs to and fits it.
-/

namespace LedgerScan

namespace Primitive

/-- Whether an integer is a value of a type; only integer types have any. -/
def holds (p : Primitive) (i : Int) : Bool :=
  match p with
  | .u8 | .u16 | .u32 | .u64 | .u128 => 0 ≤ i && i < LittleEndian.capacity p.width
  | .i8 | .i16 | .i32 | .i64 | .i128 =>
    -(LittleEndian.capacity p.width) ≤ 2 * i && 2 * i < LittleEndian.capacity p.width
  | _ => false

end Primitive

/-- A value to compare the bytes of a field with. -/
inductive Literal where
  | integer (type : Primitive) (value : Int) (fits : type.holds value = true)
  | bool (value : Bool)
  | pubkey (key : List UInt8) (size : key.length = 32)
  | bytes (data : List UInt8)

namespace Literal

/-- The literal of an integer type, if the integer fits it. -/
def integer? (type : Primitive) (value : Int) : Option Literal :=
  if fits : type.holds value = true then some (.integer type value fits) else none

/-- The literal of an account address, if a text is one: base58 of thirty-two bytes. -/
def address? (text : String) : Except ScanError Literal :=
  match Base58.decode? text with
  | some key =>
    if size : key.length = 32 then .ok (.pubkey key size) else .error (.invalidAddress text)
  | none => .error (.invalidAddress text)

/-- The bytes a field has when it equals the literal. -/
def encode : Literal → List UInt8
  | .integer type value _ => LittleEndian.encodeInt type.width value
  | .bool value => [if value then 1 else 0]
  | .pubkey key _ => key
  | .bytes data => data

/-- An encoded integer is as long as its type is wide. -/
theorem length_encode_integer (type : Primitive) (value : Int) (fits : type.holds value = true) :
    (encode (.integer type value fits)).length = type.width := by
  simp [encode, LittleEndian.encodeInt]

/-- Numbers with commas between them, in brackets. -/
def numberList (data : List UInt8) : String :=
  "[" ++ String.intercalate ", " (data.map fun b => toString b.toNat) ++ "]"

/-- The text of a literal in diagnostics: its kind, then its value. -/
def display : Literal → String
  | .integer type value _ =>
    type.name.capitalize ++ "(" ++ String.ofList (Number.encode (.int value)) ++ ")"
  | .bool value => "Bool(" ++ (if value then "true" else "false") ++ ")"
  | .pubkey key _ => "Pubkey(" ++ Base58.encode key ++ ")"
  | .bytes data => "Bytes(" ++ numberList data ++ ")"

end Literal

end LedgerScan
