/-!
# Little-endian integers

The first byte is the least significant one. A signed integer is its two's complement of the same
width, so reading subtracts the `capacity` of the width when the top bit is set.
-/

namespace LedgerScan.LittleEndian

/-- How many numbers there are of a width. -/
def capacity : Nat → Nat
  | 0 => 1
  | width + 1 => 256 * capacity width

/-- The lowest `width` bytes of a natural number. -/
def encode : Nat → Nat → List UInt8
  | 0, _ => []
  | width + 1, n => UInt8.ofNat (n % 256) :: encode width (n / 256)

/-- The natural number that bytes stand for. -/
def decode : List UInt8 → Nat
  | [] => 0
  | byte :: rest => byte.toNat + 256 * decode rest

/-- The lowest `width` bytes of the two's complement of an integer. -/
def encodeInt (width : Nat) (i : Int) : List UInt8 :=
  encode width (i % (capacity width : Int)).toNat

/-- The signed integer that bytes stand for. -/
def decodeInt (bytes : List UInt8) : Int :=
  let n := decode bytes
  let total := capacity bytes.length
  if 2 * n < total then n else (n : Int) - total

@[simp] theorem length_encode (width n : Nat) : (encode width n).length = width := by
  induction width generalizing n with
  | zero => rfl
  | succ width ih => simp [encode, ih]

/-- Reading what was written gives the number modulo the capacity of the width. -/
theorem decode_encode (width n : Nat) : decode (encode width n) = n % capacity width := by
  induction width generalizing n with
  | zero => simp [encode, decode, capacity, Nat.mod_one]
  | succ width ih =>
    have head : (UInt8.ofNat (n % 256)).toNat = n % 256 :=
      Nat.mod_eq_of_lt (Nat.mod_lt n (by decide))
    rw [encode, decode, ih, head, capacity, Nat.mod_mul]

/-- An integer in the range of the width is read back from its two's complement. -/
theorem decodeInt_encodeInt {width : Nat} {i : Int} (low : -(capacity width : Int) ≤ 2 * i)
    (high : 2 * i < capacity width) : decodeInt (encodeInt width i) = i := by
  unfold decodeInt encodeInt
  rw [length_encode, decode_encode]
  -- the lower half of the range is read as it is, the upper half as negative
  by_cases hi : 0 ≤ i
  · have hmod : i % (capacity width : Int) = i := Int.emod_eq_of_lt hi (by omega)
    rw [hmod, Nat.mod_eq_of_lt (by omega), if_pos (by omega)]
    omega
  · have hmod : i % (capacity width : Int) = i + capacity width := by
      rw [← Int.add_emod_right]
      exact Int.emod_eq_of_lt (by omega) (by omega)
    rw [hmod, Nat.mod_eq_of_lt (by omega), if_neg (by omega)]
    omega

end LedgerScan.LittleEndian
