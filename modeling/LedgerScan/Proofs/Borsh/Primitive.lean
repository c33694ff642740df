import LedgerScan.Filter.Literal
import LedgerScan.Proofs.Borsh.RoundTrip
import LedgerScan.Proofs.Codec.Base58

/-!
# Values that tell the bytes

An integer or an address is stored in one way only, so the value that is decoded from its bytes
tells which bytes they were: `same_value_iff`. Truth values and floats do not: every byte but zero
is true, and all bytes of a float that is not finite are null. Literals of a type are encoded in its
width, and so are decoded as a value of it (`decodeValue_primitive`, `length_encode_of_type`).
-/

namespace LedgerScan

open Decoder Fallible

/-! ## 1. Little-endian integers -/

namespace LittleEndian

/-- What was read is written back. -/
theorem encode_decode (bytes : List UInt8) : encode bytes.length (decode bytes) = bytes := by
  induction bytes with
  | nil => rfl
  | cons byte rest ih =>
    have hbyte : byte.toNat < 256 := byte.toNat_lt
    have hlow : (byte.toNat + 256 * decode rest) % 256 = byte.toNat := by omega
    have hhigh : (byte.toNat + 256 * decode rest) / 256 = decode rest := by omega
    rw [List.length_cons, decode, encode, hlow, hhigh, ih, UInt8.ofNat_toNat]

theorem decode_inj {a b : List UInt8} (hlength : a.length = b.length) (h : decode a = decode b) :
    a = b := by
  rw [← encode_decode a, ← encode_decode b, hlength, h]

theorem decode_lt (bytes : List UInt8) : decode bytes < capacity bytes.length := by
  induction bytes with
  | nil => exact Nat.one_pos
  | cons byte rest ih =>
    have hbyte : byte.toNat < 256 := byte.toNat_lt
    rw [List.length_cons, decode, capacity]
    omega

/-- A signed integer differs from the unsigned one by nothing or by the capacity of its width. -/
theorem decodeInt_emod (bytes : List UInt8) :
    decodeInt bytes % (capacity bytes.length : Int) = decode bytes := by
  have hlt := decode_lt bytes
  unfold decodeInt
  dsimp only
  split
  · exact Int.emod_eq_of_lt (by omega) (by omega)
  · rw [Int.sub_emod_right]
    exact Int.emod_eq_of_lt (by omega) (by omega)

theorem decodeInt_inj {a b : List UInt8} (hlength : a.length = b.length)
    (h : decodeInt a = decodeInt b) : a = b := by
  refine decode_inj hlength (Int.ofNat_inj.mp ?_)
  rw [← decodeInt_emod a, ← decodeInt_emod b, hlength, h]

end LittleEndian

/-! ## 2. Primitives -/

theorem digitChars_inj {m n : Nat} (h : Binary64.digitChars m = Binary64.digitChars n) :
    m = n := by
  have hread := congrArg (fun text => Nat.ofDigitChars 10 text 0) h
  unfold Binary64.digitChars at hread
  simpa only [Nat.ofDigitChars_toDigits (by decide : 1 < 10) (le_refl 10)] using hread

theorem minus_notMem_digitChars (n : Nat) : '-' ∉ Binary64.digitChars n := fun h =>
  absurd (Nat.isDigit_of_mem_toDigits (by decide : 0 < 10) (le_refl 10) h) (by decide)

/-- Digits tell how great an integer is, and only those below zero have a sign in front. -/
theorem Number.encode_int_inj {i j : Int} (h : encode (.int i) = encode (.int j)) : i = j := by
  unfold encode at h
  dsimp only at h
  split at h <;> split at h
  · have hdigits := digitChars_inj (List.cons.inj h).2
    omega
  · exact absurd (h ▸ List.mem_cons_self) (minus_notMem_digitChars _)
  · exact absurd (h ▸ List.mem_cons_self) (minus_notMem_digitChars _)
  · have hdigits := digitChars_inj h
    omega

theorem decimalText_inj {i j : Int} (h : decimalText i = decimalText j) : i = j :=
  Number.encode_int_inj (String.ofList_injective (Json.text.inj h))

theorem Base58.encode_inj {a b : List UInt8} (h : encode a = encode b) : a = b := by
  have hdecode := decode?_encode a
  rw [h, decode?_encode b] at hdecode
  exact (Option.some.inj hdecode).symm

namespace Primitive

variable {p : Primitive} {a b : List UInt8}

/-- The types whose values are each stored in one way only: integers and addresses. -/
def exact : Primitive → Bool
  | .bool | .f32 | .f64 => false
  | _ => true

theorem value_inj (hexact : p.exact = true) (hlength : a.length = b.length)
    (h : p.value a = p.value b) : a = b := by
  cases p with
  | u8 | u16 | u32 | u64 =>
    exact LittleEndian.decode_inj hlength (Int.ofNat_inj.mp (Number.int.inj (Json.number.inj h)))
  | i8 | i16 | i32 | i64 =>
    exact LittleEndian.decodeInt_inj hlength (Number.int.inj (Json.number.inj h))
  | u128 => exact LittleEndian.decode_inj hlength (Int.ofNat_inj.mp (decimalText_inj h))
  | i128 => exact LittleEndian.decodeInt_inj hlength (decimalText_inj h)
  | pubkey => exact Base58.encode_inj (Json.text.inj h)
  | bool | f32 | f64 => cases hexact

/-- These values are numbers or texts, which say the same only if they are equal. -/
theorem same_iff_eq (hexact : p.exact = true) :
    (p.value a).same (p.value b) = true ↔ p.value a = p.value b := by
  cases p with
  | u8 | u16 | u32 | u64 | i8 | i16 | i32 | i64 =>
    simp [value, Json.nat, Json.int, Json.same, Number.same]
  | u128 | i128 | pubkey => simp [value, decimalText, Json.same]
  | bool | f32 | f64 => cases hexact

/-- **Values say the same only of the same bytes.** -/
theorem same_value_iff (hexact : p.exact = true) (hlength : a.length = b.length) :
    (p.value a).same (p.value b) = true ↔ a = b :=
  (same_iff_eq hexact).trans ⟨value_inj hexact hlength, fun h => h ▸ rfl⟩

end Primitive

theorem Schema.decodeValue_primitive (schema : Schema) {p : Primitive} {bytes : List UInt8}
    (h : bytes.length = p.width) :
    schema.decodeValue (.primitive p) bytes = .ok (p.value bytes, []) := by
  have htake : Accepts (do return p.value (← take p.width)) bytes (p.value bytes) :=
    h ▸ (accepts_take bytes).result p.value
  have hdecode := htake []
  rw [List.append_nil] at hdecode
  exact hdecode

/-! ## 3. Literals -/

namespace Literal

/-- The type that a literal belongs to; bytes belong to none. -/
def type? : Literal → Option Primitive
  | .integer type _ _ => some type
  | .bool _ => some .bool
  | .pubkey _ _ => some .pubkey
  | .bytes _ => none

theorem length_encode_of_type {literal : Literal} {p : Primitive} (h : literal.type? = some p) :
    literal.encode.length = p.width := by
  cases literal with
  | integer type value fits =>
    cases h
    exact length_encode_integer _ value fits
  | bool value =>
    cases h
    rfl
  | pubkey key size =>
    cases h
    exact size
  | bytes _ => cases h

end Literal

end LedgerScan
