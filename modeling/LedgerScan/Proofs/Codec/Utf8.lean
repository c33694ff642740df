import LedgerScan.Codec.Utf8
import Mathlib.Data.List.Basic

/-!
# UTF-8 texts are read back

`decode_encode`: reading the bytes of a text gives the text. A character of one byte stands for
itself. The first byte of any other opens it with its highest bits and narrows what may come next
just so far that long forms, surrogates and code points above the last one are left out
(`opening?_two`, `opening?_three`, `opening?_four`), so the bytes of a character always pass. Each
further byte adds six bits (`decodeFrom_more`), the last one closes the character
(`decodeFrom_last`).
-/

namespace LedgerScan.Utf8

variable {index : Nat} {c : Open} {byte : UInt8} {rest : List UInt8}

/-! ## 1. Bytes of a character -/

theorem decodeFrom_more {more : Nat} (hmore : c.more = more + 1) (hlow : c.low ≤ byte.toNat)
    (hhigh : byte.toNat ≤ c.high) :
    decodeFrom index (some c) (byte :: rest)
      = decodeFrom (index + 1)
          (some ⟨more, 0x80, 0xBF, c.code * 64 + byte.toNat % 64, c.start, c.seen + 1⟩) rest := by
  rw [decodeFrom, if_pos ⟨hlow, hhigh⟩, hmore]

theorem decodeFrom_last (hmore : c.more = 0) (hlow : c.low ≤ byte.toNat)
    (hhigh : byte.toNat ≤ c.high) :
    decodeFrom index (some c) (byte :: rest)
      = (decodeFrom (index + 1) none rest).map
          (Char.ofNat (c.code * 64 + byte.toNat % 64) :: ·) := by
  rw [decodeFrom, if_pos ⟨hlow, hhigh⟩, hmore]

theorem decodeFrom_opening {opened : Open} (h : opening? index byte.toNat = some opened)
    (hbyte : 0x80 ≤ byte.toNat) :
    decodeFrom index none (byte :: rest) = decodeFrom (index + 1) (some opened) rest := by
  rw [decodeFrom, if_neg (by omega), h]

/-- The first byte of a character of two. -/
theorem opening?_two (index : Nat) {v : Nat} (hlow : 0x80 ≤ v) (hhigh : v ≤ 0x7FF) :
    ∃ c, opening? index (v / 64 % 32 + 192) = some c ∧ c.more = 0 ∧ c.code = v / 64 ∧
      c.low ≤ v % 64 + 128 ∧ v % 64 + 128 ≤ c.high := by
  refine ⟨_, by rw [opening?, if_pos (by omega)], rfl, ?_, ?_, ?_⟩
  · show v / 64 % 32 + 192 - 0xC0 = v / 64
    omega
  · show 0x80 ≤ v % 64 + 128
    omega
  · show v % 64 + 128 ≤ 0xBF
    omega

/-- The first byte of a character of three, which is no surrogate. -/
theorem opening?_three (index : Nat) {v : Nat} (hlow : 0x800 ≤ v) (hhigh : v ≤ 0xFFFF)
    (hvalid : v.isValidChar) :
    ∃ c, opening? index (v / 4096 % 16 + 224) = some c ∧ c.more = 1 ∧ c.code = v / 4096 ∧
      c.low ≤ v / 64 % 64 + 128 ∧ v / 64 % 64 + 128 ≤ c.high := by
  unfold Nat.isValidChar at hvalid
  unfold opening?
  rw [if_neg (by omega)]
  split_ifs with hfirst hsurrogate hmiddle
  · exact ⟨_, rfl, rfl, by show 0 = v / 4096; omega, by show 0xA0 ≤ _; omega,
      by show _ ≤ 0xBF; omega⟩
  · exact ⟨_, rfl, rfl, by show 13 = v / 4096; omega, by show 0x80 ≤ _; omega,
      by show _ ≤ 0x9F; omega⟩
  · exact ⟨_, rfl, rfl, by show _ - 0xE0 = v / 4096; omega, by show 0x80 ≤ _; omega,
      by show _ ≤ 0xBF; omega⟩
  all_goals omega

/-- The first byte of a character of four, which is not above the last one. -/
theorem opening?_four (index : Nat) {v : Nat} (hlow : 0x10000 ≤ v) (hhigh : v < 0x110000) :
    ∃ c, opening? index (v / 262144 % 8 + 240) = some c ∧ c.more = 2 ∧ c.code = v / 262144 ∧
      c.low ≤ v / 4096 % 64 + 128 ∧ v / 4096 % 64 + 128 ≤ c.high := by
  unfold opening?
  rw [if_neg (by omega), if_neg (by omega), if_neg (by omega), if_neg (by omega)]
  split_ifs with hfirst hmiddle hlast
  · exact ⟨_, rfl, rfl, by show 0 = v / 262144; omega, by show 0x90 ≤ _; omega,
      by show _ ≤ 0xBF; omega⟩
  · exact ⟨_, rfl, rfl, by show _ - 0xF0 = v / 262144; omega, by show 0x80 ≤ _; omega,
      by show _ ≤ 0xBF; omega⟩
  · exact ⟨_, rfl, rfl, by show 4 = v / 262144; omega, by show 0x80 ≤ _; omega,
      by show _ ≤ 0x8F; omega⟩
  all_goals omega

/-! ## 2. One character -/

theorem toNat_ofNat {n : Nat} (h : n < 256) : (UInt8.ofNat n).toNat = n :=
  UInt8.toNat_ofNat_of_lt' h

section Characters

variable {v : Nat}

theorem decodeFrom_one (hhigh : v ≤ 0x7F) :
    decodeFrom index none (UInt8.ofNat v :: rest)
      = (decodeFrom (index + 1) none rest).map (Char.ofNat v :: ·) := by
  have hbyte : (UInt8.ofNat v).toNat = v := toNat_ofNat (by omega)
  rw [decodeFrom, hbyte, if_pos (by omega)]

theorem decodeFrom_two (hlow : 0x80 ≤ v) (hhigh : v ≤ 0x7FF) :
    decodeFrom index none
        (UInt8.ofNat (v / 64 % 32 + 192) :: UInt8.ofNat (v % 64 + 128) :: rest)
      = (decodeFrom (index + 2) none rest).map (Char.ofNat v :: ·) := by
  have hfirst : (UInt8.ofNat (v / 64 % 32 + 192)).toNat = v / 64 % 32 + 192 :=
    toNat_ofNat (by omega)
  have hlast : (UInt8.ofNat (v % 64 + 128)).toNat = v % 64 + 128 := toNat_ofNat (by omega)
  obtain ⟨c, hopen, hmore, hcode, hle, hge⟩ := opening?_two index hlow hhigh
  have hv : c.code * 64 + (v % 64 + 128) % 64 = v := by omega
  rw [← hfirst] at hopen
  rw [← hlast] at hle hge
  rw [decodeFrom_opening hopen (by omega), decodeFrom_last hmore hle hge, hlast, hv]

theorem decodeFrom_three (hlow : 0x800 ≤ v) (hhigh : v ≤ 0xFFFF) (hvalid : v.isValidChar) :
    decodeFrom index none
        (UInt8.ofNat (v / 4096 % 16 + 224) :: UInt8.ofNat (v / 64 % 64 + 128)
          :: UInt8.ofNat (v % 64 + 128) :: rest)
      = (decodeFrom (index + 3) none rest).map (Char.ofNat v :: ·) := by
  have hfirst : (UInt8.ofNat (v / 4096 % 16 + 224)).toNat = v / 4096 % 16 + 224 :=
    toNat_ofNat (by omega)
  have hsecond : (UInt8.ofNat (v / 64 % 64 + 128)).toNat = v / 64 % 64 + 128 :=
    toNat_ofNat (by omega)
  have hlast : (UInt8.ofNat (v % 64 + 128)).toNat = v % 64 + 128 := toNat_ofNat (by omega)
  obtain ⟨c, hopen, hmore, hcode, hle, hge⟩ := opening?_three index hlow hhigh hvalid
  have hv : (c.code * 64 + (v / 64 % 64 + 128) % 64) * 64 + (v % 64 + 128) % 64 = v := by omega
  rw [← hfirst] at hopen
  rw [← hsecond] at hle hge
  rw [decodeFrom_opening hopen (by omega), decodeFrom_more hmore hle hge,
    decodeFrom_last rfl (by show 0x80 ≤ _; omega) (by show _ ≤ 0xBF; omega), hlast, hsecond, hv]

theorem decodeFrom_four (hlow : 0x10000 ≤ v) (hhigh : v < 0x110000) :
    decodeFrom index none
        (UInt8.ofNat (v / 262144 % 8 + 240) :: UInt8.ofNat (v / 4096 % 64 + 128)
          :: UInt8.ofNat (v / 64 % 64 + 128) :: UInt8.ofNat (v % 64 + 128) :: rest)
      = (decodeFrom (index + 4) none rest).map (Char.ofNat v :: ·) := by
  have hfirst : (UInt8.ofNat (v / 262144 % 8 + 240)).toNat = v / 262144 % 8 + 240 :=
    toNat_ofNat (by omega)
  have hsecond : (UInt8.ofNat (v / 4096 % 64 + 128)).toNat = v / 4096 % 64 + 128 :=
    toNat_ofNat (by omega)
  have hthird : (UInt8.ofNat (v / 64 % 64 + 128)).toNat = v / 64 % 64 + 128 :=
    toNat_ofNat (by omega)
  have hlast : (UInt8.ofNat (v % 64 + 128)).toNat = v % 64 + 128 := toNat_ofNat (by omega)
  obtain ⟨c, hopen, hmore, hcode, hle, hge⟩ := opening?_four index hlow hhigh
  have hv : ((c.code * 64 + (v / 4096 % 64 + 128) % 64) * 64 + (v / 64 % 64 + 128) % 64) * 64
      + (v % 64 + 128) % 64 = v := by omega
  rw [← hfirst] at hopen
  rw [← hsecond] at hle hge
  rw [decodeFrom_opening hopen (by omega), decodeFrom_more hmore hle hge,
    decodeFrom_more rfl (by show 0x80 ≤ _; omega) (by show _ ≤ 0xBF; omega),
    decodeFrom_last rfl (by show 0x80 ≤ _; omega) (by show _ ≤ 0xBF; omega), hlast, hthird,
    hsecond, hv]

end Characters

/-- **The bytes of a character are read as the character**, whatever follows them. -/
theorem decodeFrom_utf8EncodeChar (index : Nat) (char : Char) (rest : List UInt8) :
    decodeFrom index none (String.utf8EncodeChar char ++ rest)
      = (decodeFrom (index + (String.utf8EncodeChar char).length) none rest).map (char :: ·) := by
  have hvalid : char.val.toNat.isValidChar := char.valid
  have hbound : char.val.toNat < 0x110000 := by
    unfold Nat.isValidChar at hvalid
    omega
  have hchar : Char.ofNat char.val.toNat = char := Char.ofNat_toNat char
  unfold String.utf8EncodeChar
  simp only
  -- as many bytes as the code point needs
  split_ifs with hone htwo hthree
  · exact (decodeFrom_one hone).trans (by rw [hchar]; rfl)
  · exact (decodeFrom_two (by omega) htwo).trans (by rw [hchar]; rfl)
  · exact (decodeFrom_three (by omega) hthree hvalid).trans (by rw [hchar]; rfl)
  · exact (decodeFrom_four (by omega) hbound).trans (by rw [hchar]; rfl)

/-! ## 3. Texts -/

theorem decodeFrom_flatMap (chars : List Char) :
    ∀ index, decodeFrom index none (chars.flatMap String.utf8EncodeChar) = .ok chars := by
  induction chars with
  | nil => exact fun _ => rfl
  | cons char chars ih =>
    intro index
    rw [List.flatMap_cons, decodeFrom_utf8EncodeChar, ih]
    rfl

/-- **A text is read back from its bytes.** -/
theorem decode_encode (s : String) : decode (encode s) = .ok s := by
  unfold decode encode
  rw [decodeFrom_flatMap]
  exact congrArg Except.ok String.ofList_toList

end LedgerScan.Utf8
