import LedgerScan.Proofs.Borsh.Trailing
import LedgerScan.Proofs.Borsh.Value
import LedgerScan.Proofs.Codec.Utf8
import Mathlib.Data.List.OfFn

/-!
# The decoder inverts the encoding

Each piece of the decoder accepts what is written for it (`accepts_byte`, `accepts_items`,
`accepts_entries`, `accepts_fields`), and leaves what follows to the next one. So a decoder with
levels for all the structures of a value accepts the bytes of the value
(`Value.accepts_encode`), and the levels that it really has are enough: they do not show.
-/

namespace LedgerScan

open Decoder Fallible

/-! ## 1. Pieces -/

namespace Decoder

variable {α β : Type} {decoder : Decoder α} {front : List UInt8} {value : α} {n : Nat}

/-- What is made of a value without reading. -/
theorem Accepts.result (h : Accepts decoder front value) (f : α → β) :
    Accepts (do return f (← decoder)) front (f value) := by
  have hbind : Accepts (decoder >>= fun a => pure (f a)) (front ++ []) (f value) :=
    h.bind (accepts_pure (f value))
  rw [List.append_nil] at hbind
  exact hbind

theorem accepts_byte (b : UInt8) : Accepts byte [b] b.toNat :=
  (accepts_take [b]).result LittleEndian.decode

theorem accepts_count (fits : n < countLimit) : Accepts count (LittleEndian.encode 4 n) n := by
  have hread : n % LittleEndian.capacity 4 = n := Nat.mod_eq_of_lt fits
  have h := (accepts_take (LittleEndian.encode 4 n)).result LittleEndian.decode
  rw [LittleEndian.length_encode, LittleEndian.decode_encode, hread] at h
  exact h

/-- What is counted is read behind its count. -/
theorem accepts_counted {content : List UInt8} {next : Nat → Decoder α} (fits : n < countLimit)
    (h : Accepts (next n) content value) :
    Accepts (count >>= next) (Value.counted n content) value :=
  (accepts_count fits).bind h

theorem accepts_items {item : Decoder Json} {n : Nat} {bytes : Fin n → List UInt8}
    {json : Fin n → Json} (h : ∀ i, Accepts item (bytes i) (json i)) (done : List Json) :
    Accepts (items item n done) (List.ofFn bytes).flatten (done.reverse ++ List.ofFn json) := by
  induction n generalizing done with
  | zero =>
    rw [List.ofFn_zero, List.ofFn_zero, List.append_nil]
    exact accepts_pure done.reverse
  | succ n ih =>
    have hrest := ih (fun i => h i.succ) (json 0 :: done)
    rw [List.reverse_cons, List.append_assoc] at hrest
    rw [List.ofFn_succ, List.ofFn_succ, List.flatten_cons]
    exact ((h 0).within _).bind hrest

theorem accepts_entries {key value : Decoder Json} {n : Nat} {keyBytes bytes : Fin n → List UInt8}
    {keyJson json : Fin n → Json} (hkey : ∀ i, Accepts key (keyBytes i) (keyJson i))
    (hvalue : ∀ i, Accepts value (bytes i) (json i)) (done : Entries Json) :
    Accepts (entries key value n done) (List.ofFn fun i => keyBytes i ++ bytes i).flatten
      (Entries.merge done (List.ofFn fun i => (keyText (keyJson i), json i))) := by
  induction n generalizing done with
  | zero => exact accepts_pure done
  | succ n ih =>
    rw [List.ofFn_succ, List.ofFn_succ, List.flatten_cons, List.append_assoc]
    exact (hkey 0).bind (((hvalue 0).within _).bind
      (ih (fun i => hkey i.succ) (fun i => hvalue i.succ) _))

theorem accepts_fields {decode : FieldType → Decoder Json} {fields : List Field}
    {bytes : Fin fields.length → List UInt8} {json : Fin fields.length → Json}
    (h : ∀ i, Accepts (decode (fields.get i).type) (bytes i) (json i)) (done : Entries Json) :
    Accepts (Decoder.fields decode fields done) (List.ofFn bytes).flatten
      (Entries.merge done (List.ofFn fun i => ((fields.get i).name, json i))) := by
  induction fields generalizing done with
  | nil => exact accepts_pure done
  | cons field fields ih =>
    rw [List.ofFn_succ, List.ofFn_succ, List.flatten_cons]
    exact ((h 0).within _).bind (ih (fun i => h i.succ) _)

theorem accepts_variant {name : String} {variants : List Variant} (index : Fin variants.length)
    (fits : index.val < 256) (unit : (variants.get index).hasFields = false) :
    Accepts (variant name variants) [UInt8.ofNat index] (.text (variants.get index).name) := by
  have hbyte : (UInt8.ofNat index).toNat = index := Utf8.toNat_ofNat fits
  have hfound : variants[(UInt8.ofNat index).toNat]? = some (variants.get index) := by
    rw [hbyte]
    exact List.getElem?_eq_getElem index.isLt
  refine (accepts_byte (UInt8.ofNat index)).bind ?_
  rw [hfound]
  show Accepts (if (variants.get index).hasFields then throw _ else pure _ : Decoder Json) [] _
  rw [unit]
  exact accepts_pure _

end Decoder

/-! ## 2. Primitives -/

theorem decimalText_eq (i : Int) : decimalText i = .text (toString i) := by
  cases i with
  | ofNat n => rfl
  | negSucc n =>
    have hencode : Number.encode (.int (.negSucc n)) = ['-'] ++ Nat.toDigits 10 (n + 1) := by
      rw [Number.encode, if_pos (Int.negSucc_lt_zero n)]
      rfl
    unfold decimalText
    rw [hencode, String.ofList_append]
    rfl

namespace Primitive

variable {p : Primitive}

theorem value_unsigned (kind : p.unsigned = true) {n : Nat}
    (fits : n < LittleEndian.capacity p.width) :
    p.value (LittleEndian.encode p.width n) = p.integerJson n := by
  have hread : LittleEndian.decode (LittleEndian.encode p.width n) = n := by
    rw [LittleEndian.decode_encode, Nat.mod_eq_of_lt fits]
  cases p with
  | u8 | u16 | u32 | u64 => exact congrArg Json.nat hread
  | u128 => exact (congrArg (fun n : Nat => decimalText n) hread).trans (decimalText_eq n)
  | _ => cases kind

theorem value_signed (kind : p.signed = true) {i : Int}
    (low : -(LittleEndian.capacity p.width : Int) ≤ 2 * i)
    (high : 2 * i < LittleEndian.capacity p.width) :
    p.value (LittleEndian.encodeInt p.width i) = p.integerJson i := by
  have hread := LittleEndian.decodeInt_encodeInt low high
  cases p with
  | i8 | i16 | i32 | i64 => exact congrArg Json.int hread
  | i128 => exact (congrArg decimalText hread).trans (decimalText_eq i)
  | _ => cases kind

end Primitive

/-! ## 3. Values -/

namespace Value

variable {schema : Schema} {type : FieldType}

/-- A decoder with levels for the structures of all items has levels for those of each. -/
theorem depth_le {n levels : Nat} {depths : Fin n → Nat} (h : Finset.univ.sup depths ≤ levels)
    (i : Fin n) : depths i ≤ levels :=
  le_trans (Finset.le_sup (Finset.mem_univ i)) h

/-- **With levels for all its structures a value is read from its bytes**, whatever follows. -/
theorem accepts_encode (v : Value schema type) : ∀ levels, v.depth ≤ levels →
    Accepts (type.decodeBy (schema.decodeNamed levels)) v.encode v.json := by
  induction v with
  | unsigned p kind n fits =>
    intro levels _
    have h := (accepts_take (LittleEndian.encode p.width n)).result p.value
    rw [LittleEndian.length_encode, Primitive.value_unsigned kind fits] at h
    exact h
  | signed p kind i low high =>
    intro levels _
    have h := (accepts_take (LittleEndian.encodeInt p.width i)).result p.value
    rw [LittleEndian.encodeInt, LittleEndian.length_encode, ← LittleEndian.encodeInt,
      Primitive.value_signed kind low high] at h
    exact h
  | bool b =>
    intro levels _
    have h := (accepts_take [if b then (1 : UInt8) else 0]).result (Primitive.value .bool)
    cases b <;> exact h
  | pubkey address size =>
    intro levels _
    have h := (accepts_take address).result (Primitive.value .pubkey)
    rw [size] at h
    exact h
  | array items ih =>
    intro levels hlevels
    exact (accepts_items (fun i => ih i levels (depth_le hlevels i)) []).result Json.list
  | absent =>
    intro levels _
    exact (accepts_byte 0).bind (accepts_pure Json.null)
  | present value ih =>
    intro levels hlevels
    exact (accepts_byte 1).bind (ih levels hlevels)
  | vec count fits items ih =>
    intro levels hlevels
    exact accepts_counted fits
      ((accepts_items (fun i => ih i levels (depth_le hlevels i)) []).result Json.list)
  | string s fits =>
    intro levels _
    refine accepts_counted fits ?_
    intro rest
    refine (bind_of_ok (accepts_take (Utf8.encode s) rest)).trans ?_
    rw [Utf8.decode_encode]
    rfl
  | bytes content fits =>
    intro levels _
    exact accepts_counted fits ((accepts_take content).result _)
  | map count fits keys values ihkeys ihvalues =>
    intro levels hlevels
    have hkeys := depth_le (le_trans (le_max_left _ _) hlevels)
    have hvalues := depth_le (le_trans (le_max_right _ _) hlevels)
    exact accepts_counted fits ((accepts_entries (fun i => ihkeys i levels (hkeys i))
      (fun i => ihvalues i levels (hvalues i)) []).result Json.object)
  | struct fields found values ih =>
    intro levels hlevels
    obtain ⟨below, rfl⟩ : ∃ m, levels = m + 1 := ⟨levels - 1, by
      have : 0 < levels := lt_of_lt_of_le (Nat.succ_pos _) hlevels
      omega⟩
    show Accepts (schema.decodeNamed (below + 1) _) _ _
    unfold Schema.decodeNamed
    rw [found]
    have hdepth := depth_le (Nat.le_of_succ_le_succ hlevels)
    exact (accepts_fields (fun i => ih i below (hdepth i)) []).result Json.object
  | variant variants found index fits unit =>
    intro levels _
    show Accepts (schema.decodeNamed levels _) _ _
    unfold Schema.decodeNamed
    rw [found]
    exact accepts_variant index fits unit

/-- **The decoder inverts the encoding.** The bytes of a value are decoded as the value in front of
    any bytes, which are left. -/
theorem decodeValue_encode (v : Value schema type) (rest : List UInt8) :
    schema.decodeValue type (v.encode ++ rest) = .ok (v.json, rest) := by
  -- levels enough for the value and for the bytes
  have hdepth := Nat.le_max_left v.depth (schema.levelsFor (v.encode ++ rest))
  have hlevels := Nat.le_max_right v.depth (schema.levelsFor (v.encode ++ rest))
  have haccepts := v.accepts_encode _ hdepth
  rcases Schema.decodeBy_levels type hlevels with heq | ⟨_, hendless⟩
  · exact heq.trans (haccepts rest)
  · rw [haccepts rest] at hendless
    exact absurd hendless (not_endless_ok _)

/-- A link to another one, or to none. -/
def link (label : String) (fits : (Utf8.encode label).length < countLimit)
    (next : Value Schema.links (.option (.defined "Link"))) :
    Value Schema.links (.defined "Link") :=
  .struct [⟨"label", .string⟩, ⟨"next", .option (.defined "Link")⟩] rfl fun
    | 0 => .string label fits
    | 1 => next

example : (link "a" (by decide) (.present (link "" (by decide) .absent))).encode
    = [1, 0, 0, 0, 97, 1, 0, 0, 0, 0, 0] := by decide

end Value

end LedgerScan
