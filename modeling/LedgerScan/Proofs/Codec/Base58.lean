import LedgerScan.Codec.Base58
import LedgerScan.Proofs.Fallible
import Mathlib.Data.List.TakeWhile
import Mathlib.Data.Nat.Digits.Lemmas

/-!
# Base58 texts are read back

`decode?_encode`: reading the text of a byte string gives the byte string. The digits of a number
are those of `Nat.digits`, most significant first (`digitsIn_eq`), if the fuel is enough; the zeros
in front, which the number does not show, are counted apart.

`decode?_eq_some_iff`: a text is read as a byte string only if it is the text of it. So byte strings
and texts of digits belong to each other one to one.
-/

namespace LedgerScan.Base58

/-! ## 1. Digits -/

theorem digitValue?_digitChar : ∀ d < 58, digitValue? (digitChar d) = some d := by
  decide +kernel

/-- Fuel for as many digits as the number has is enough. -/
theorem digitsIn_eq {base : Nat} (hb : 1 < base) :
    ∀ (fuel n : Nat), n < base ^ fuel → digitsIn base fuel n = (Nat.digits base n).reverse
  | 0, n, h => by
      obtain rfl : n = 0 := by simpa using h
      rw [Nat.digits_zero]
      rfl
  | fuel + 1, n, h => by
      have hlt : n / base < base ^ fuel := by
        rw [Nat.div_lt_iff_lt_mul (by omega), ← Nat.pow_succ]
        exact h
      unfold digitsIn
      split
      · next hzero =>
          rw [hzero, Nat.digits_zero]
          rfl
      · next hne =>
          have hpos : 0 < n := Nat.pos_of_ne_zero hne
          rw [digitsIn_eq hb fuel _ hlt, Nat.digits_def' hb hpos, List.reverse_cons]

theorem ofDigits_eq (base : Nat) (digits : List Nat) :
    ofDigits base digits = Nat.ofDigits base digits.reverse := by
  rw [Nat.ofDigits_eq_foldr, List.foldr_reverse, ofDigits]
  congr
  funext n d
  rw [Nat.cast_id, Nat.mul_comm, Nat.add_comm]

theorem ofDigits_lt {base : Nat} (hb : 1 < base) {digits : List Nat} (h : ∀ d ∈ digits, d < base) :
    ofDigits base digits < base ^ digits.length := by
  rw [ofDigits_eq, ← List.length_reverse]
  exact Nat.ofDigits_lt_base_pow_length hb fun d hd => h d (List.mem_reverse.mp hd)

/-- Digits without a zero in front are those of their number. -/
theorem digitsIn_ofDigits {base fuel : Nat} (hb : 1 < base) {digits : List Nat}
    (h : ∀ d ∈ digits, d < base) (hhead : digits.head? ≠ some 0)
    (hfuel : ofDigits base digits < base ^ fuel) :
    digitsIn base fuel (ofDigits base digits) = digits := by
  rw [digitsIn_eq hb _ _ hfuel, ofDigits_eq, Nat.digits_ofDigits base hb, List.reverse_reverse]
  · exact fun d hd => h d (List.mem_reverse.mp hd)
  · intro hne hzero
    rw [List.getLast_reverse] at hzero
    rw [List.head?_eq_some_head (fun h => hne (by rw [h]; rfl)), hzero] at hhead
    exact hhead rfl

theorem ofDigits_digitsIn {base fuel n : Nat} (hb : 1 < base) (h : n < base ^ fuel) :
    ofDigits base (digitsIn base fuel n) = n := by
  rw [digitsIn_eq hb _ _ h, ofDigits_eq, List.reverse_reverse, Nat.ofDigits_digits]

theorem lt_of_mem_digitsIn {base fuel n d : Nat} (hb : 1 < base) (h : n < base ^ fuel)
    (hd : d ∈ digitsIn base fuel n) : d < base := by
  rw [digitsIn_eq hb _ _ h] at hd
  exact Nat.digits_lt_base hb (List.mem_reverse.mp hd)

/-- No number starts with a zero. -/
theorem head?_digitsIn {base fuel n : Nat} (hb : 1 < base) (h : n < base ^ fuel) :
    (digitsIn base fuel n).head? ≠ some 0 := by
  rw [digitsIn_eq hb _ _ h, List.head?_reverse]
  by_cases hzero : n = 0
  · rw [hzero, Nat.digits_zero]
    exact nofun
  · have hne : Nat.digits base n ≠ [] := Nat.digits_ne_nil_iff_ne_zero.mpr hzero
    rw [List.getLast?_eq_some_getLast hne]
    exact fun h => Nat.getLast_digit_ne_zero base hzero (Option.some.inj h)

/-! ## 2. Texts -/

theorem mapM_digitValue? {digits : List Nat} (h : ∀ d ∈ digits, d < 58) :
    (digits.map digitChar).mapM digitValue? = some digits := by
  have := Fallible.mapM_map_eq_some fun d hd => digitValue?_digitChar d (h d hd)
  rwa [List.map_id'] at this

section Zeros

variable {α : Type} [BEq α] [LawfulBEq α] [OfNat α 0]

/-- The zeros in front come apart from digits that do not start with one. -/
theorem takeWhile_zeros {digits : List α} (h : digits.head? ≠ some 0) (count : Nat) :
    (List.replicate count 0 ++ digits).takeWhile (· == 0) = List.replicate count 0 ∧
      (List.replicate count 0 ++ digits).dropWhile (· == 0) = digits := by
  induction count with
  | zero =>
    cases digits with
    | nil => exact ⟨rfl, rfl⟩
    | cons d digits =>
      have hd : (d == 0) = false := by simpa using h
      simp [hd]
  | succ count ih => simpa [List.replicate_succ] using ih

theorem takeWhile_eq_replicate (digits : List α) :
    digits.takeWhile (· == 0) = List.replicate (digits.takeWhile (· == 0)).length 0 := by
  rw [List.eq_replicate_iff]
  exact ⟨rfl, fun d hd => by simpa using List.mem_takeWhile_imp hd⟩

/-- Behind the zeros in front there is no other one. -/
theorem exists_zeros (digits : List α) :
    ∃ count rest, digits = List.replicate count 0 ++ rest ∧ rest.head? ≠ some 0 := by
  refine ⟨(digits.takeWhile (· == 0)).length, digits.dropWhile (· == 0), ?_, fun hzero => ?_⟩
  · rw [← takeWhile_eq_replicate, List.takeWhile_append_dropWhile]
  · have hfirst := List.head?_dropWhile_not (· == 0) digits
    rw [hzero] at hfirst
    simp at hfirst

end Zeros

/-- The digits of bytes read as a number. -/
def byteDigits (bytes : List UInt8) : List Nat :=
  digitsIn 58 (2 * bytes.length) (ofDigits 256 (bytes.map UInt8.toNat))

theorem forall_toNat_lt (bytes : List UInt8) : ∀ d ∈ bytes.map UInt8.toNat, d < 256 := by
  rintro d hd
  obtain ⟨byte, _, rfl⟩ := List.mem_map.mp hd
  exact byte.toNat_lt

/-- There are fewer base-58 digits than twice the bytes. -/
theorem ofDigits_toNat_lt (bytes : List UInt8) :
    ofDigits 256 (bytes.map UInt8.toNat) < 58 ^ (2 * bytes.length) := by
  calc ofDigits 256 (bytes.map UInt8.toNat) < 256 ^ (bytes.map UInt8.toNat).length :=
        ofDigits_lt (by omega) (forall_toNat_lt bytes)
    _ = 256 ^ bytes.length := by rw [List.length_map]
    _ ≤ (58 ^ 2) ^ bytes.length := Nat.pow_le_pow_left (by omega) _
    _ = 58 ^ (2 * bytes.length) := (Nat.pow_mul ..).symm

theorem lt_of_mem_byteDigits {bytes : List UInt8} {d : Nat} (hd : d ∈ byteDigits bytes) : d < 58 :=
  lt_of_mem_digitsIn (by omega) (ofDigits_toNat_lt bytes) hd

theorem head?_byteDigits (bytes : List UInt8) : (byteDigits bytes).head? ≠ some 0 :=
  head?_digitsIn (by omega) (ofDigits_toNat_lt bytes)

/-- Bytes that do not start with a zero are read back from their digits. -/
theorem map_ofNat_byteDigits {bytes : List UInt8} (hhead : bytes.head? ≠ some 0) :
    (digitsIn 256 (byteDigits bytes).length (ofDigits 58 (byteDigits bytes))).map UInt8.ofNat
      = bytes := by
  have hhead' : (bytes.map UInt8.toNat).head? ≠ some 0 := by
    rw [List.head?_map]
    intro h
    obtain ⟨byte, hbyte, hzero⟩ := Option.map_eq_some_iff.mp h
    have hbyte' : byte = 0 := UInt8.toNat_inj.mp hzero
    exact hhead (by rw [hbyte, hbyte'])
  have hvalue : ofDigits 58 (byteDigits bytes) = ofDigits 256 (bytes.map UInt8.toNat) :=
    ofDigits_digitsIn (by omega) (ofDigits_toNat_lt bytes)
  have hlt : ofDigits 58 (byteDigits bytes) < 58 ^ (byteDigits bytes).length :=
    ofDigits_lt (by omega) fun d hd => lt_of_mem_byteDigits hd
  rw [hvalue] at hlt ⊢
  rw [digitsIn_ofDigits (by omega) (forall_toNat_lt bytes) hhead'
    (hlt.trans_le (Nat.pow_le_pow_left (by omega) _))]
  simp [List.map_map, Function.comp_def]

/-- The text of zeros and of bytes behind them that do not start with one. -/
theorem toList_encode {rest : List UInt8} (hrest : rest.head? ≠ some 0) (zeros : Nat) :
    (encode (List.replicate zeros 0 ++ rest)).toList
      = (List.replicate zeros 0 ++ byteDigits rest).map digitChar := by
  obtain ⟨hzeros, hdrop⟩ := takeWhile_zeros hrest zeros
  simp only [encode, hzeros, hdrop]
  rw [String.toList_ofList, List.map_append, List.map_replicate, List.map_replicate]
  rfl

/-- What a text of digits is read as: zeros, and the bytes of the digits behind them. -/
theorem decode?_eq {text : String} {rest : List Nat} {zeros : Nat}
    (htext : text.toList.mapM digitValue? = some (List.replicate zeros 0 ++ rest))
    (hrest : rest.head? ≠ some 0) :
    decode? text = some (List.replicate zeros 0
      ++ (digitsIn 256 rest.length (ofDigits 58 rest)).map UInt8.ofNat) := by
  obtain ⟨hzeros, hdrop⟩ := takeWhile_zeros hrest zeros
  unfold decode?
  rw [htext]
  simp only [Option.bind_eq_bind, Option.bind_some, Option.pure_def, hzeros, hdrop,
    List.map_replicate]

/-- **What was written is read back.** -/
theorem decode?_encode (bytes : List UInt8) : decode? (encode bytes) = some bytes := by
  obtain ⟨zeros, rest, rfl, hrest⟩ := exists_zeros bytes
  have hdigits : ∀ d ∈ List.replicate zeros 0 ++ byteDigits rest, d < 58 := by
    intro d hd
    rcases List.mem_append.mp hd with hd | hd
    · rw [(List.mem_replicate.mp hd).2]
      omega
    · exact lt_of_mem_byteDigits hd
  have htext := mapM_digitValue? hdigits
  rw [← toList_encode hrest zeros] at htext
  rw [decode?_eq htext (head?_byteDigits rest), map_ofNat_byteDigits hrest]

/-! ## 3. One text for each byte string -/

theorem digitChar_of_digitValue? {c : Char} {d : Nat} (h : digitValue? c = some d) :
    digitChar d = c ∧ d < 58 := by
  obtain ⟨hlt, hchar, _⟩ := List.findIdx?_eq_some_iff_getElem.mp h
  refine ⟨?_, hlt⟩
  rw [digitChar, List.getD_eq_getElem?_getD, List.getElem?_eq_getElem hlt]
  exact eq_of_beq hchar

theorem map_digitChar_of_mapM {text : List Char} {digits : List Nat}
    (h : text.mapM digitValue? = some digits) :
    digits.map digitChar = text ∧ ∀ d ∈ digits, d < 58 := by
  have hread := Fallible.mapM_eq_some_iff.mp h
  clear h
  induction hread with
  | nil => exact ⟨rfl, nofun⟩
  | cons hfirst _ ih =>
    obtain ⟨hchar, hlt⟩ := digitChar_of_digitValue? hfirst
    rw [List.map_cons, hchar, ih.1, List.forall_mem_cons]
    exact ⟨rfl, hlt, ih.2⟩

theorem map_toNat_map_ofNat {numbers : List Nat} (h : ∀ n ∈ numbers, n < 256) :
    (numbers.map UInt8.ofNat).map UInt8.toNat = numbers := by
  rw [List.map_map]
  exact (List.map_congr_left fun n hn => UInt8.toNat_ofNat_of_lt (h n hn)).trans (List.map_id _)

/-- Digits that do not start with a zero are bytes that do not start with one either, and these have
    the same digits. -/
theorem byteDigits_map_ofNat {digits : List Nat} (hdigits : ∀ d ∈ digits, d < 58)
    (hhead : digits.head? ≠ some 0) :
    let bytes := (digitsIn 256 digits.length (ofDigits 58 digits)).map UInt8.ofNat
    bytes.head? ≠ some 0 ∧ byteDigits bytes = digits := by
  intro bytes
  have hfuel : ofDigits 58 digits < 256 ^ digits.length :=
    (ofDigits_lt (by omega) hdigits).trans_le (Nat.pow_le_pow_left (by omega) _)
  have hnumbers : bytes.map UInt8.toNat = digitsIn 256 digits.length (ofDigits 58 digits) :=
    map_toNat_map_ofNat fun n hn => lt_of_mem_digitsIn (by omega) hfuel hn
  have hvalue : ofDigits 256 (bytes.map UInt8.toNat) = ofDigits 58 digits := by
    rw [hnumbers, ofDigits_digitsIn (by omega) hfuel]
  constructor
  · intro hzero
    have hfirst := congrArg List.head? hnumbers
    rw [List.head?_map, hzero] at hfirst
    exact head?_digitsIn (by omega) hfuel hfirst.symm
  · have hbound := ofDigits_toNat_lt bytes
    rw [hvalue] at hbound
    rw [byteDigits, hvalue, digitsIn_ofDigits (by omega) hdigits hhead hbound]

/-- **What is read has no other text.** -/
theorem encode_of_decode? {text : String} {bytes : List UInt8} (h : decode? text = some bytes) :
    encode bytes = text := by
  obtain ⟨digits, hread, _⟩ := Option.bind_eq_some_iff.mp h
  obtain ⟨zeros, rest, rfl, hrest⟩ := exists_zeros digits
  obtain ⟨htext, hdigits⟩ := map_digitChar_of_mapM hread
  obtain ⟨hhead, hsame⟩ :=
    byteDigits_map_ofNat (fun d hd => hdigits d (List.mem_append_right _ hd)) hrest
  rw [decode?_eq hread hrest] at h
  cases h
  refine String.toList_injective ?_
  rw [toList_encode hhead, hsame, htext]

/-- A text is read as a byte string exactly if it is the text of it. -/
theorem decode?_eq_some_iff {text : String} {bytes : List UInt8} :
    decode? text = some bytes ↔ text = encode bytes :=
  ⟨fun h => (encode_of_decode? h).symm, fun h => h ▸ decode?_encode bytes⟩

end LedgerScan.Base58
