import LedgerScan.Borsh.Decode
import Mathlib.Data.Finset.Lattice.Fold
import Mathlib.Data.Fintype.Basic
import Mathlib.Order.Lattice.Nat

/-!
# Borsh values

What a type stands for apart from any decoder: its values, how they are written and what they are
shown as.

* A `Value schema type` is a value of the type by construction: numbers are in their range, counts
  fit their four bytes, an address has thirty-two bytes, an index is that of a variant without data.
  Values are finite, also those of types that contain themselves behind an option, a vector or a
  map. There are none of the floating types and none of variants with data;
* `Value.encode` writes a value, `Value.json` is what it is shown as;
* `Value.depth` is how many structures lie within each other.
-/

namespace LedgerScan

/-! ## 1. Numbers -/

namespace Primitive

/-- The integers without a sign. -/
def unsigned : Primitive → Bool
  | .u8 | .u16 | .u32 | .u64 | .u128 => true
  | _ => false

/-- The integers with a sign. -/
def signed : Primitive → Bool
  | .i8 | .i16 | .i32 | .i64 | .i128 => true
  | _ => false

/-- What an integer is shown as: a number up to 64 bits, a decimal text beyond. -/
def integerJson (p : Primitive) (i : Int) : Json :=
  if p.width ≤ 8 then .int i else .text (toString i)

end Primitive

/-! ## 2. Values -/

/-- There are fewer items than this behind a count. -/
def countLimit : Nat := LittleEndian.capacity 4

/-- **The values of a type.** -/
inductive Value (schema : Schema) : FieldType → Type where
  | unsigned (p : Primitive) (kind : p.unsigned = true) (n : Nat)
      (fits : n < LittleEndian.capacity p.width) : Value schema (.primitive p)
  | signed (p : Primitive) (kind : p.signed = true) (i : Int)
      (low : -(LittleEndian.capacity p.width : Int) ≤ 2 * i)
      (high : 2 * i < LittleEndian.capacity p.width) : Value schema (.primitive p)
  | bool (b : Bool) : Value schema (.primitive .bool)
  | pubkey (address : List UInt8) (size : address.length = 32) : Value schema (.primitive .pubkey)
  | array {element : FieldType} {length : Nat} (items : Fin length → Value schema element) :
      Value schema (.array element length)
  | absent {inner : FieldType} : Value schema (.option inner)
  | present {inner : FieldType} (value : Value schema inner) : Value schema (.option inner)
  | vec {element : FieldType} (count : Nat) (fits : count < countLimit)
      (items : Fin count → Value schema element) : Value schema (.vec element)
  | string (s : String) (fits : (Utf8.encode s).length < countLimit) : Value schema .string
  | bytes (content : List UInt8) (fits : content.length < countLimit) : Value schema .bytes
  | map {key value : FieldType} (count : Nat) (fits : count < countLimit)
      (keys : Fin count → Value schema key) (values : Fin count → Value schema value) :
      Value schema (.map key value)
  | struct {name : String} (fields : List Field) (found : schema.find? name = some (.struct fields))
      (values : (i : Fin fields.length) → Value schema fields[i].type) :
      Value schema (.defined name)
  | variant {name : String} (variants : List Variant)
      (found : schema.find? name = some (.enum variants)) (index : Fin variants.length)
      (fits : index.val < 256) (unit : variants[index].hasFields = false) :
      Value schema (.defined name)

namespace Value

variable {schema : Schema}

/-- A count of four bytes in front of what is counted. -/
def counted (count : Nat) (content : List UInt8) : List UInt8 :=
  LittleEndian.encode 4 count ++ content

/-- **The bytes of a value.** -/
def encode : {type : FieldType} → Value schema type → List UInt8
  | _, .unsigned p _ n _ => LittleEndian.encode p.width n
  | _, .signed p _ i _ _ => LittleEndian.encodeInt p.width i
  | _, .bool b => [if b then 1 else 0]
  | _, .pubkey address _ => address
  | _, .array items => (List.ofFn fun i => (items i).encode).flatten
  | _, .absent => [0]
  | _, .present value => 1 :: value.encode
  | _, .vec count _ items => counted count (List.ofFn fun i => (items i).encode).flatten
  | _, .string s _ => counted (Utf8.encode s).length (Utf8.encode s)
  | _, .bytes content _ => counted content.length content
  | _, .map count _ keys values =>
    counted count (List.ofFn fun i => (keys i).encode ++ (values i).encode).flatten
  | _, .struct _ _ values => (List.ofFn fun i => (values i).encode).flatten
  | _, .variant _ _ index _ _ => [UInt8.ofNat index]

/-- **What a value is shown as.** Of two entries under one key the later one stays. -/
def json : {type : FieldType} → Value schema type → Json
  | _, .unsigned p _ n _ => p.integerJson n
  | _, .signed p _ i _ _ => p.integerJson i
  | _, .bool b => .bool b
  | _, .pubkey address _ => .text (Base58.encode address)
  | _, .array items => .list (List.ofFn fun i => (items i).json)
  | _, .absent => .null
  | _, .present value => value.json
  | _, .vec _ _ items => .list (List.ofFn fun i => (items i).json)
  | _, .string s _ => .text s
  | _, .bytes content _ => .list (content.map fun b => .nat b.toNat)
  | _, .map _ _ keys values =>
    .ofPairs (List.ofFn fun i => (Decoder.keyText (keys i).json, (values i).json))
  | _, .struct fields _ values => .ofPairs (List.ofFn fun i => (fields[i].name, (values i).json))
  | _, .variant variants _ index _ _ => .text variants[index].name

/-- How many structures lie within each other. -/
def depth : {type : FieldType} → Value schema type → Nat
  | _, .array items => Finset.univ.sup fun i => (items i).depth
  | _, .present value => value.depth
  | _, .vec _ _ items => Finset.univ.sup fun i => (items i).depth
  | _, .map _ _ keys values =>
    max (Finset.univ.sup fun i => (keys i).depth) (Finset.univ.sup fun i => (values i).depth)
  | _, .struct _ _ values => (Finset.univ.sup fun i => (values i).depth) + 1
  | _, _ => 0

end Value

end LedgerScan
