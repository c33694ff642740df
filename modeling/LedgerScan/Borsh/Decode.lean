import LedgerScan.Borsh.Error
import LedgerScan.Codec.Base58
import LedgerScan.Codec.LittleEndian
import LedgerScan.Json.Printer
import LedgerScan.Schema.Basic

/-!
# Decoding Borsh

Values follow each other without gaps. Integers are little-endian, a truth value is one byte, false
when it is zero, an address is thirty-two bytes. Vectors, strings, byte strings and maps have a
count of four bytes in front. An option is a byte that says whether a value follows. A structure is
its fields in order, an enumeration the index of a variant in one byte.

Decoded values are JSON: integers up to 64 bits are numbers and wider ones are decimal texts, an
address is base58 text, a float that is not finite is null, an option is null or its value, a
variant is its name. Keys of maps that are not texts are written as compact JSON; of two entries
under one key the later one stays.

Bytes after the last field are left alone, so a record decodes the same from a longer buffer.

A value is read by a `Decoder`, which takes bytes off the front. Names are followed through a
bounded number of levels. A name that is met again with no byte read in between contains itself
and has no finite value, so between two bytes there are never more levels than names in the
schema, and the bound is never met by a schema that guards its cycles with an option, a vector or
a map.
-/

namespace LedgerScan

/-- A reader that takes bytes off the front. -/
abbrev Decoder (α : Type) := StateT (List UInt8) (Except DecodeError) α

namespace Decoder

/-! ## 1. Pieces -/

/-- Says of an error in which part it arose. -/
def within {α : Type} (segment : String) (decoder : Decoder α) : Decoder α := fun bytes =>
  match decoder bytes with
  | .ok result => .ok result
  | .error e => .error (e.within segment)

/-- The first `count` bytes and the rest, if there are so many. -/
def split? : Nat → List UInt8 → Option (List UInt8 × List UInt8)
  | 0, bytes => some ([], bytes)
  | _ + 1, [] => none
  | count + 1, byte :: bytes =>
    match split? count bytes with
    | some (front, rest) => some (byte :: front, rest)
    | none => none

/-- Takes `count` bytes. -/
def take (count : Nat) : Decoder (List UInt8) := fun bytes =>
  match split? count bytes with
  | some result => .ok result
  | none => .error (.malformed [] .shortRead)

/-- Takes one byte. -/
def byte : Decoder Nat := do
  return LittleEndian.decode (← take 1)

/-- Takes a count of four bytes. -/
def count : Decoder Nat := do
  return LittleEndian.decode (← take 4)

/-- Decodes `n` items one after the other; `done` are the ones before them, the last in front. -/
def items (item : Decoder Json) : Nat → List Json → Decoder (List Json)
  | 0, done => pure done.reverse
  | n + 1, done => do
    let value ← within (toString done.length) item
    items item n (value :: done)

/-- The text under which a decoded key stands in an object. -/
def keyText : Json → String
  | .text s => s
  | value => value.render

/-- Decodes `n` entries of a map into an object. -/
def entries (key value : Decoder Json) : Nat → Entries Json → Decoder (Entries Json)
  | 0, done => pure done
  | n + 1, done => do
    let name := keyText (← key)
    let v ← within name value
    entries key value n (Entries.insert name v done)

/-- Decodes the fields of a structure into an object. -/
def fields (decode : FieldType → Decoder Json) :
    List Field → Entries Json → Decoder (Entries Json)
  | [], done => pure done
  | field :: rest, done => do
    let v ← within field.name (decode field.type)
    fields decode rest (Entries.insert field.name v done)

/-- A variant by its index. -/
def variant (type : String) (variants : List Variant) : Decoder Json := do
  let index ← byte
  match variants[index]? with
  | some v =>
    if v.hasFields then throw (.unsupported [] (type ++ "::" ++ v.name)) else pure (.text v.name)
  | none => throw (.malformed [] (.variantIndex index type))

end Decoder

/-! ## 2. Types -/

/-- The decimal text of an integer. -/
def decimalText (i : Int) : Json :=
  .text (String.ofList (Number.encode (.int i)))

/-- The value that the bytes of a primitive stand for. -/
def Primitive.value (p : Primitive) (bytes : List UInt8) : Json :=
  match p with
  | .u8 | .u16 | .u32 | .u64 => .nat (LittleEndian.decode bytes)
  | .i8 | .i16 | .i32 | .i64 => .int (LittleEndian.decodeInt bytes)
  | .bool => .bool (LittleEndian.decode bytes != 0)
  | .f32 => .float (Binary64.ofBinary32 (UInt32.ofNat (LittleEndian.decode bytes)))
  | .f64 => .float (UInt64.ofNat (LittleEndian.decode bytes))
  | .u128 => decimalText (LittleEndian.decode bytes)
  | .i128 => decimalText (LittleEndian.decodeInt bytes)
  | .pubkey => .text (Base58.encode bytes)

/-- Decodes a value of a type, given how to decode names. -/
def FieldType.decodeBy (named : String → Decoder Json) : FieldType → Decoder Json
  | .primitive p => do return p.value (← Decoder.take p.width)
  | .array element length => do
    return .list (← Decoder.items (element.decodeBy named) length [])
  | .defined name => named name
  | .option inner => do
    if (← Decoder.byte) = 0 then return .null else inner.decodeBy named
  | .vec element => do
    let n ← Decoder.count
    return .list (← Decoder.items (element.decodeBy named) n [])
  | .string => do
    let bytes ← Decoder.take (← Decoder.count)
    match Utf8.decode bytes with
    | .ok s => return .text s
    | .error e => throw (.malformed [] (.utf8 e))
  | .bytes => do
    let bytes ← Decoder.take (← Decoder.count)
    return .list (bytes.map fun b => .nat b.toNat)
  | .map key value => do
    let n ← Decoder.count
    return .object (← Decoder.entries (key.decodeBy named) (value.decodeBy named) n [])

namespace Schema

/-- Decodes a value of a name, following names to a bounded number of levels. -/
def decodeNamed (schema : Schema) (levels : Nat) (name : String) : Decoder Json :=
  match schema.find? name with
  | none => throw (.unsupported [] name)
  | some (.enum variants) => Decoder.variant name variants
  | some (.struct fields) =>
    match levels with
    | 0 => throw (.endless [] name)
    | levels + 1 => do
      return .object (← Decoder.fields (FieldType.decodeBy (schema.decodeNamed levels)) fields [])

/-- Levels enough for every value in so many bytes. -/
def levelsFor (schema : Schema) (bytes : List UInt8) : Nat :=
  (bytes.length + 1) * (schema.types.length + 1)

/-- Decodes a value of a type off the front of a byte string. -/
def decodeValue (schema : Schema) (type : FieldType) (bytes : List UInt8) :
    Except DecodeError (Json × List UInt8) :=
  (type.decodeBy (schema.decodeNamed (schema.levelsFor bytes))).run bytes

/-- Decodes the fields of a record from account data, after the discriminator. -/
def decodeRecord (schema : Schema) (record : String) (data : List UInt8) :
    Except DecodeError (Entries Json) :=
  match schema.fields? record with
  | none => .error (.unknownRecord record)
  | some fields =>
    let header := (schema.discriminator record).length
    if data.length < header then
      .error (.malformed ["$discriminator"] (.shortHeader header data.length))
    else
      let decode := FieldType.decodeBy (schema.decodeNamed (schema.levelsFor data))
      (Decoder.fields decode fields []).run' (data.drop header)

end Schema

end LedgerScan
