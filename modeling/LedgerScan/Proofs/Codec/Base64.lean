import LedgerScan.Codec.Base64
import LedgerScan.Codec.Utf8

/-!
# Base64 texts are read back

`decode_encode`: reading the text of a byte string gives the byte string. The text is made of
symbols of one byte each (`flatMap_quadSymbols`). Its last quad is read apart from the ones before
it, so the induction over the bytes, three at a time, keeps the two apart (`exists_last_quad`).
-/

namespace LedgerScan.Base64

/-! ## 1. Symbols -/

/-- The byte of the symbol of a value. -/
def symbolByte (n : Nat) : UInt8 :=
  UInt8.ofNat (symbol n).toNat

theorem utf8EncodeChar_symbol : ∀ n < 64, String.utf8EncodeChar (symbol n) = [symbolByte n] := by
  decide +kernel

theorem value?_symbolByte : ∀ n < 64, value? (symbolByte n) = some n := by
  decide +kernel

theorem symbolByte_ne_padding : ∀ n < 64, symbolByte n ≠ padding := by
  decide +kernel

theorem utf8EncodeChar_padding : String.utf8EncodeChar '=' = [padding] := by
  decide +kernel

/-! ## 2. Quads -/

/-- The bits of three bytes as one number. -/
def word (a b c : UInt8) : Nat :=
  (a.toNat * 256 + b.toNat) * 256 + c.toNat

theorem word_lt (a b c : UInt8) : word a b c < 16777216 := by
  have ha := a.toNat_lt
  have hb := b.toNat_lt
  have hc := c.toNat_lt
  unfold word
  omega

/-- The bytes of the text of three bytes. -/
def quadText (a b c : UInt8) : List UInt8 :=
  let n := word a b c
  [symbolByte (n / 262144), symbolByte (n / 4096 % 64), symbolByte (n / 64 % 64),
    symbolByte (n % 64)]

theorem map_quadSymbols (a b c : UInt8) :
    (quadSymbols a b c).map String.utf8EncodeChar = (quadText a b c).map fun byte => [byte] := by
  have hw := word_lt a b c
  have h₁ := utf8EncodeChar_symbol (word a b c / 262144) (by omega)
  have h₂ := utf8EncodeChar_symbol (word a b c / 4096 % 64) (by omega)
  have h₃ := utf8EncodeChar_symbol (word a b c / 64 % 64) (by omega)
  have h₄ := utf8EncodeChar_symbol (word a b c % 64) (by omega)
  show [String.utf8EncodeChar (symbol (word a b c / 262144)), _, _, _] = _
  rw [h₁]
  show [_, String.utf8EncodeChar (symbol (word a b c / 4096 % 64)),
    String.utf8EncodeChar (symbol (word a b c / 64 % 64)),
    String.utf8EncodeChar (symbol (word a b c % 64))] = _
  rw [h₂, h₃, h₄]
  rfl

/-- The values of the four symbols of three bytes give the bytes back. -/
theorem quadBytes_word (a b c : UInt8) :
    quadBytes (word a b c / 262144) (word a b c / 4096 % 64) (word a b c / 64 % 64)
      (word a b c % 64) = [a, b, c] := by
  have ha := a.toNat_lt
  have hb := b.toNat_lt
  have hc := c.toNat_lt
  have h₁ : word a b c / 262144 = word a b c / 64 / 64 / 64 := by simp [Nat.div_div_eq_div_mul]
  have h₂ : word a b c / 4096 = word a b c / 64 / 64 := by simp [Nat.div_div_eq_div_mul]
  have hword : ((word a b c / 262144 * 64 + word a b c / 4096 % 64) * 64
      + word a b c / 64 % 64) * 64 + word a b c % 64 = word a b c := by omega
  unfold quadBytes
  simp only [hword, List.cons.injEq, ← UInt8.toNat_inj, UInt8.toNat_ofNat', and_true]
  unfold word
  exact ⟨by omega, by omega, by omega⟩

/-- A quad that is not the last one. -/
theorem decodeQuads_quadText (a b c : UInt8) (offset : Nat) (rest : List UInt8) :
    decodeQuads offset (quadText a b c ++ rest)
      = (decodeQuads (offset + 4) rest).map ([a, b, c] ++ ·) := by
  have hw := word_lt a b c
  have h₁ := value?_symbolByte (word a b c / 262144) (by omega)
  have h₂ := value?_symbolByte (word a b c / 4096 % 64) (by omega)
  have h₃ := value?_symbolByte (word a b c / 64 % 64) (by omega)
  have h₄ := value?_symbolByte (word a b c % 64) (by omega)
  show decodeQuads offset (_ :: _ :: _ :: _ :: rest) = _
  rw [decodeQuads, h₁, h₂, h₃, h₄, ← quadBytes_word a b c]

/-! ## 3. The last quad -/

theorem readSuffix_symbol {n : Nat} (h : n < 64) {found : Suffix} (unpadded : found.paddings = 0)
    (start position : Nat) (rest : List UInt8) :
    readSuffix start position found (symbolByte n :: rest) = readSuffix start (position + 1)
      { found with symbols := found.symbols ++ [(symbolByte n, n)] } rest := by
  rw [readSuffix, if_neg (symbolByte_ne_padding n h), if_neg (fun h => h unpadded),
    value?_symbolByte n h]

theorem readSuffix_padding {position : Nat} (h : 2 ≤ position) (found : Suffix) (start : Nat)
    (rest : List UInt8) :
    readSuffix start position found (padding :: rest) = readSuffix start (position + 1)
      { found with paddings := found.paddings + 1 } rest := by
  rw [readSuffix, if_pos rfl, if_neg (Nat.not_lt.mpr h)]

/-- A text of four bytes that is read as the last quad. -/
def LastQuad (last tail : List UInt8) : Prop :=
  last.length = 4 ∧ ∃ suffix : Suffix, 2 ≤ suffix.symbols.length ∧
    ∀ start, readSuffix start 0 ⟨[], 0⟩ last = .ok suffix ∧ suffixBytes start suffix = .ok tail

/-- A text of quads that is read before the last one. -/
def Quads (front done : List UInt8) : Prop :=
  front.length % 4 = 0 ∧ ∀ offset, decodeQuads offset front = .ok done

theorem lastQuad_two {n₁ n₂ : Nat} (h₁ : n₁ < 64) (h₂ : n₂ < 64) (clean : n₂ % 16 = 0) :
    LastQuad [symbolByte n₁, symbolByte n₂, padding, padding] ((quadBytes n₁ n₂ 0 0).take 1) := by
  refine ⟨rfl, ⟨[(symbolByte n₁, n₁), (symbolByte n₂, n₂)], 2⟩, Nat.le_refl 2,
    fun start => ⟨?_, ?_⟩⟩
  · rw [readSuffix_symbol h₁ rfl, readSuffix_symbol h₂ rfl, readSuffix_padding (by omega),
      readSuffix_padding (by omega)]
    rfl
  · simp [suffixBytes, clean]

theorem lastQuad_three {n₁ n₂ n₃ : Nat} (h₁ : n₁ < 64) (h₂ : n₂ < 64) (h₃ : n₃ < 64)
    (clean : n₃ % 4 = 0) :
    LastQuad [symbolByte n₁, symbolByte n₂, symbolByte n₃, padding]
      ((quadBytes n₁ n₂ n₃ 0).take 2) := by
  refine ⟨rfl, ⟨[(symbolByte n₁, n₁), (symbolByte n₂, n₂), (symbolByte n₃, n₃)], 1⟩,
    Nat.le_succ 2, fun start => ⟨?_, ?_⟩⟩
  · rw [readSuffix_symbol h₁ rfl, readSuffix_symbol h₂ rfl, readSuffix_symbol h₃ rfl,
      readSuffix_padding (by omega)]
    rfl
  · simp [suffixBytes, clean]

theorem lastQuad_four {n₁ n₂ n₃ n₄ : Nat} (h₁ : n₁ < 64) (h₂ : n₂ < 64) (h₃ : n₃ < 64)
    (h₄ : n₄ < 64) :
    LastQuad [symbolByte n₁, symbolByte n₂, symbolByte n₃, symbolByte n₄]
      (quadBytes n₁ n₂ n₃ n₄) := by
  refine ⟨rfl, ⟨[(symbolByte n₁, n₁), (symbolByte n₂, n₂), (symbolByte n₃, n₃),
    (symbolByte n₄, n₄)], 0⟩, by simp, fun start => ⟨?_, ?_⟩⟩
  · rw [readSuffix_symbol h₁ rfl, readSuffix_symbol h₂ rfl, readSuffix_symbol h₃ rfl,
      readSuffix_symbol h₄ rfl]
    rfl
  · simp [suffixBytes]

/-! ## 4. Texts -/

/-- The bytes of the text of a byte string. -/
def textBytes (bytes : List UInt8) : List UInt8 :=
  (encodeChars bytes).flatMap String.utf8EncodeChar

theorem flatMap_quadSymbols (a b c : UInt8) (n : Nat) :
    ((quadSymbols a b c).take n).flatMap String.utf8EncodeChar = (quadText a b c).take n := by
  rw [List.flatMap_def, List.map_take, map_quadSymbols, ← List.map_take, ← List.flatMap_def]
  exact List.flatMap_singleton' _

theorem textBytes_cons (a b c : UInt8) (rest : List UInt8) :
    textBytes (a :: b :: c :: rest) = quadText a b c ++ textBytes rest := by
  have := flatMap_quadSymbols a b c 4
  rw [textBytes, encodeChars, List.flatMap_append]
  exact congrArg (· ++ textBytes rest) this

theorem lastQuad_byte (a : UInt8) : LastQuad (textBytes [a]) [a] := by
  have hw := word_lt a 0 0
  have hz : word a 0 0 = a.toNat * 65536 := by simp [word]; omega
  have htext : textBytes [a] = (quadText a 0 0).take 2 ++ [padding, padding] := by
    rw [textBytes, encodeChars, List.flatMap_append, flatMap_quadSymbols]
    simp [utf8EncodeChar_padding]
  have hbytes : (quadBytes (word a 0 0 / 262144) (word a 0 0 / 4096 % 64) 0 0).take 1 = [a] := by
    have h := quadBytes_word a 0 0
    rw [show word a 0 0 / 64 % 64 = 0 by omega, show word a 0 0 % 64 = 0 by omega] at h
    rw [h]
    rfl
  rw [htext, ← hbytes]
  exact lastQuad_two (by omega) (by omega) (by omega)

theorem lastQuad_bytes (a b : UInt8) : LastQuad (textBytes [a, b]) [a, b] := by
  have hw := word_lt a b 0
  have hz : word a b 0 = (a.toNat * 256 + b.toNat) * 256 := by simp [word]
  have htext : textBytes [a, b] = (quadText a b 0).take 3 ++ [padding] := by
    rw [textBytes, encodeChars, List.flatMap_append, flatMap_quadSymbols]
    simp [utf8EncodeChar_padding]
  have hbytes : (quadBytes (word a b 0 / 262144) (word a b 0 / 4096 % 64)
      (word a b 0 / 64 % 64) 0).take 2 = [a, b] := by
    have h := quadBytes_word a b 0
    rw [show word a b 0 % 64 = 0 by omega] at h
    rw [h]
    rfl
  rw [htext, ← hbytes]
  exact lastQuad_three (by omega) (by omega) (by omega) (by omega)

theorem lastQuad_quadText (a b c : UInt8) : LastQuad (quadText a b c) [a, b, c] := by
  have hw := word_lt a b c
  rw [← quadBytes_word a b c]
  exact lastQuad_four (by omega) (by omega) (by omega) (by omega)

theorem quads_nil : Quads [] [] :=
  ⟨rfl, fun _ => rfl⟩

theorem Quads.cons {front done : List UInt8} (h : Quads front done) (a b c : UInt8) :
    Quads (quadText a b c ++ front) ([a, b, c] ++ done) := by
  refine ⟨?_, fun offset => ?_⟩
  · rw [List.length_append, show (quadText a b c).length = 4 from rfl, Nat.add_mod_left]
    exact h.1
  · rw [decodeQuads_quadText, h.2]
    rfl

/-- **The text of some bytes is quads and a last quad**, and each part is read as its bytes. -/
theorem exists_last_quad : ∀ bytes : List UInt8, bytes ≠ [] →
    ∃ front done last tail, textBytes bytes = front ++ last ∧ bytes = done ++ tail ∧
      Quads front done ∧ LastQuad last tail
  | [], h => absurd rfl h
  | [a], _ => ⟨[], [], _, [a], rfl, rfl, quads_nil, lastQuad_byte a⟩
  | [a, b], _ => ⟨[], [], _, [a, b], rfl, rfl, quads_nil, lastQuad_bytes a b⟩
  | [a, b, c], _ => by
      refine ⟨[], [], quadText a b c, [a, b, c], ?_, rfl, quads_nil, lastQuad_quadText a b c⟩
      rw [textBytes_cons]
      exact List.append_nil _
  | a :: b :: c :: d :: rest, _ => by
      obtain ⟨front, done, last, tail, htext, hbytes, hfront, hlast⟩ :=
        exists_last_quad (d :: rest) (List.cons_ne_nil _ _)
      refine ⟨_, _, last, tail, ?_, ?_, hfront.cons a b c, hlast⟩
      · rw [textBytes_cons, htext, List.append_assoc]
      · rw [hbytes, List.append_assoc]
        rfl

/-- **What was written is read back.** -/
theorem decode_encode (bytes : List UInt8) : decode (Utf8.encode (encode bytes)) = .ok bytes := by
  have htext : Utf8.encode (encode bytes) = textBytes bytes := by
    rw [Utf8.encode, encode, String.toList_ofList]
    rfl
  rw [htext]
  by_cases hnil : bytes = []
  · subst hnil
    rfl
  · obtain ⟨front, done, last, tail, htext, hbytes, ⟨hlength, hfront⟩, hfour, suffix, hcount,
      hlast⟩ := exists_last_quad bytes hnil
    have hsize : (front ++ last).length = front.length + 4 := by rw [List.length_append, hfour]
    have hmod : (front.length + 4) % 4 = 0 := by omega
    have hne : (front ++ last).getLast? ≠ none := by
      rw [Ne, List.getLast?_eq_none_iff, ← List.length_eq_zero_iff, hsize]
      omega
    obtain ⟨byte, hbyte⟩ := Option.ne_none_iff_exists'.mp hne
    rw [htext, hbytes, decode]
    simp only [hsize, hmod, hbyte, if_pos, Nat.add_sub_cancel, List.take_left, List.drop_left]
    rw [if_neg (by omega), hfront 0]
    show (readSuffix front.length 0 ⟨[], 0⟩ last >>= _) = _
    rw [(hlast _).1]
    show (if suffix.symbols.length < 2 then _ else suffixBytes front.length suffix >>= _) = _
    rw [if_neg (Nat.not_lt.mpr hcount), (hlast _).2]
    rfl

end LedgerScan.Base64
