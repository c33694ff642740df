import LedgerScan.Borsh.Decode
import LedgerScan.Proofs.Layout.Lengths

/-!
# Decoding what has a length

The layout and the decoder walk over the same definitions without knowing of each other. What ties
them together is `Decoder.Fixed`: a decoder of a fixed length is decided by that many bytes at the
front. They make up a value, whatever comes after them, or they hold an index that is no variant of
its enumeration; fewer bytes are never enough.

* Each piece of the decoder has a lemma that says of what length it is (`Fixed.bind`,
  `fixed_items`, `fixed_fields`, …), so `Sized.fixed` follows a derivation of the length;
* `Sized.decodeBy_levels`: the levels that a derivation needs are enough, and more change nothing;
* `decodeValue_exact`: the decoder takes exactly the bytes that the layout reckons with.
-/

namespace LedgerScan

open Fallible

/-- The bytes hold an index that is no variant of an enumeration of the schema. -/
def Schema.OutOfRange (schema : Schema) (e : DecodeError) : Prop :=
  ∃ path index name variants, schema.find? name = some (.enum variants) ∧
    variants.length ≤ index ∧ e = .malformed path (.variantIndex index name)

theorem Schema.OutOfRange.within {schema : Schema} {e : DecodeError} (h : schema.OutOfRange e)
    (segment : String) : schema.OutOfRange (e.within segment) := by
  obtain ⟨path, index, name, variants, found, hindex, rfl⟩ := h
  exact ⟨segment :: path, index, name, variants, found, hindex, rfl⟩

/-! ## 1. Decoders of a fixed length -/

namespace Decoder

variable {α β : Type} {schema : Schema} {length : Nat} {decoder : Decoder α}

theorem split?_append (front rest : List UInt8) :
    split? front.length (front ++ rest) = some (front, rest) := by
  induction front with
  | nil => rfl
  | cons byte front ih => simp [split?, ih]

theorem split?_eq_none : ∀ {count : Nat} {bytes : List UInt8}, bytes.length < count →
    split? count bytes = none
  | 0, _, h => by simp at h
  | _ + 1, [], _ => rfl
  | count + 1, byte :: bytes, h => by
      have ih : split? count bytes = none := split?_eq_none (by simpa using h)
      simp [split?, ih]

/-- **A decoder that is decided by the first `length` bytes.** -/
structure Fixed (schema : Schema) (length : Nat) (decoder : Decoder α) : Prop where
  /-- So many bytes are a value, whatever follows, or have an index out of range. -/
  whole : ∀ front : List UInt8, front.length = length →
    (∃ value, ∀ rest, decoder (front ++ rest) = .ok (value, rest)) ∨
    ∃ e, schema.OutOfRange e ∧ ∀ rest, decoder (front ++ rest) = .error e
  /-- Fewer bytes are no value. -/
  short : ∀ bytes : List UInt8, bytes.length < length → ∃ e, decoder bytes = .error e

theorem fixed_pure (value : α) : Fixed schema 0 (pure value) where
  whole front h := by
    obtain rfl := List.eq_nil_of_length_eq_zero h
    exact .inl ⟨value, fun _ => rfl⟩
  short _ h := absurd h (Nat.not_lt_zero _)

theorem fixed_throw {e : DecodeError} (h : schema.OutOfRange e) :
    Fixed schema 0 (throw e : Decoder α) where
  whole front hf := by
    obtain rfl := List.eq_nil_of_length_eq_zero hf
    exact .inr ⟨e, h, fun _ => rfl⟩
  short _ hb := absurd hb (Nat.not_lt_zero _)

theorem fixed_take (count : Nat) : Fixed schema count (take count) where
  whole front h := by
    subst h
    exact .inl ⟨front, fun rest => by unfold take; rw [split?_append]⟩
  short bytes h := ⟨_, by unfold take; rw [split?_eq_none h]⟩

/-- The second decoder reads where the first one stopped. -/
theorem Fixed.bind {more : Nat} {next : α → Decoder β} (h : Fixed schema length decoder)
    (hnext : ∀ value, Fixed schema more (next value)) :
    Fixed schema (length + more) (decoder >>= next) where
  whole front hf := by
    have hsplit : front = front.take length ++ front.drop length :=
      (List.take_append_drop length front).symm
    have hhead : (front.take length).length = length := by rw [List.length_take]; omega
    have htail : (front.drop length).length = more := by rw [List.length_drop]; omega
    rw [hsplit]
    simp only [List.append_assoc]
    obtain ⟨value, hv⟩ | ⟨e, he, hv⟩ := h.whole _ hhead
    · refine ((hnext value).whole _ htail).imp ?_ ?_
      · exact fun ⟨value', hv'⟩ => ⟨value', fun rest => (bind_of_ok (hv _)).trans (hv' rest)⟩
      · exact fun ⟨e, he, hv'⟩ => ⟨e, he, fun rest => (bind_of_ok (hv _)).trans (hv' rest)⟩
    · exact .inr ⟨e, he, fun rest => bind_of_error (hv _)⟩
  short bytes hb := by
    by_cases hl : bytes.length < length
    · obtain ⟨e, he⟩ := h.short bytes hl
      exact ⟨e, bind_of_error he⟩
    · have hhead : (bytes.take length).length = length := by rw [List.length_take]; omega
      have hsplit := List.take_append_drop length bytes
      obtain ⟨value, hv⟩ | ⟨e, _, hv⟩ := h.whole _ hhead
      · obtain ⟨e, he⟩ := (hnext value).short (bytes.drop length) (by rw [List.length_drop]; omega)
        have := hv (bytes.drop length)
        rw [hsplit] at this
        exact ⟨e, (bind_of_ok this).trans he⟩
      · have := hv (bytes.drop length)
        rw [hsplit] at this
        exact ⟨e, bind_of_error this⟩

/-- Of exactly the right number of bytes nothing is left. -/
theorem Fixed.ok_or_error (h : Fixed schema length decoder) {front : List UInt8}
    (hf : front.length = length) :
    (∃ value, decoder front = .ok (value, [])) ∨ ∃ e, decoder front = .error e := by
  have := h.whole front hf
  rw [← List.append_nil front]
  exact this.imp (fun ⟨value, hv⟩ => ⟨value, hv []⟩) (fun ⟨e, _, he⟩ => ⟨e, he []⟩)

/-- What decodes by itself decodes in front of anything, to the same value. -/
theorem Fixed.append_of_ok (h : Fixed schema length decoder) {front s : List UInt8} {value : α}
    (hf : front.length = length) (hd : decoder front = .ok (value, s)) (rest : List UInt8) :
    decoder (front ++ rest) = .ok (value, rest) := by
  rw [← List.append_nil front] at hd
  obtain ⟨value', hv⟩ | ⟨e, _, he⟩ := h.whole front hf
  · rw [hv []] at hd
    cases hd
    exact hv rest
  · rw [he []] at hd
    cases hd

/-- What does not decode by itself does not decode in front of anything. -/
theorem Fixed.append_of_error (h : Fixed schema length decoder) {front : List UInt8}
    {e : DecodeError} (hf : front.length = length) (hd : decoder front = .error e)
    (rest : List UInt8) : decoder (front ++ rest) = .error e := by
  rw [← List.append_nil front] at hd
  obtain ⟨value, hv⟩ | ⟨e', _, he⟩ := h.whole front hf
  · rw [hv []] at hd
    cases hd
  · rw [he []] at hd
    cases hd
    exact he rest

theorem within_of_ok {segment : String} {bytes : List UInt8} {r : α × List UInt8}
    (h : decoder bytes = .ok r) : within segment decoder bytes = .ok r := by
  unfold within
  rw [h]

theorem within_of_error {segment : String} {bytes : List UInt8} {e : DecodeError}
    (h : decoder bytes = .error e) : within segment decoder bytes = .error (e.within segment) := by
  unfold within
  rw [h]

theorem ok_of_within {segment : String} {bytes : List UInt8} {r : α × List UInt8}
    (h : within segment decoder bytes = .ok r) : decoder bytes = .ok r := by
  unfold within at h
  cases hd : decoder bytes with
  | ok r' => rw [hd] at h; exact h
  | error e => rw [hd] at h; cases h

theorem Fixed.within (h : Fixed schema length decoder) (segment : String) :
    Fixed schema length (Decoder.within segment decoder) where
  whole front hf := by
    obtain ⟨value, hv⟩ | ⟨e, he, hv⟩ := h.whole front hf
    · exact .inl ⟨value, fun rest => within_of_ok (hv rest)⟩
    · exact .inr ⟨_, he.within segment, fun rest => within_of_error (hv rest)⟩
  short bytes hb := by
    obtain ⟨e, he⟩ := h.short bytes hb
    exact ⟨_, within_of_error he⟩

/-! ## 2. Pieces -/

theorem fixed_byte : Fixed schema 1 byte :=
  (fixed_take 1).bind fun _ => fixed_pure _

theorem fixed_items {item : Decoder Json} (h : Fixed schema length item) (count : Nat) :
    ∀ done : List Json, Fixed schema (length * count) (items item count done) := by
  induction count with
  | zero => exact fun done => fixed_pure _
  | succ count ih =>
    intro done
    rw [Nat.mul_succ, Nat.add_comm]
    exact (h.within _).bind fun value => ih (value :: done)

theorem fixed_fields {decode : FieldType → Decoder Json} {lengthAt : FieldType → Nat}
    {fields : List Field}
    (h : ∀ field ∈ fields, Fixed schema (lengthAt field.type) (decode field.type)) :
    ∀ done : Entries Json, Fixed schema (fields.map fun field => lengthAt field.type).sum
      (Decoder.fields decode fields done) := by
  induction fields with
  | nil => exact fun done => fixed_pure _
  | cons field fields ih =>
    intro done
    rw [List.map_cons, List.sum_cons]
    exact ((h field List.mem_cons_self).within _).bind fun value =>
      ih (fun g hg => h g (List.mem_cons_of_mem _ hg)) _

theorem fixed_variant {name : String} {variants : List Variant}
    (found : schema.find? name = some (.enum variants))
    (units : ∀ v ∈ variants, v.hasFields = false) :
    Fixed schema 1 (variant name variants) := by
  show Fixed schema (1 + 0) (variant name variants)
  unfold variant
  refine fixed_byte.bind fun index => ?_
  cases hv : variants[index]? with
  | none =>
    exact fixed_throw ⟨[], index, name, variants, found, List.getElem?_eq_none_iff.mp hv, rfl⟩
  | some v =>
    simp only [units v (List.mem_of_getElem? hv), Bool.false_eq_true, if_false]
    exact fixed_pure _

end Decoder

/-! ## 3. Types -/

namespace Schema

variable {schema : Schema} {depth length : Nat} {type : FieldType}

/-- **A derivation of a length is a decoder of that length.** -/
theorem Sized.fixed (h : schema.Sized depth type length) :
    ∀ levels, depth ≤ levels →
      Decoder.Fixed schema length (type.decodeBy (schema.decodeNamed levels)) := by
  induction h with
  | primitive p => exact fun _ _ => (Decoder.fixed_take p.width).bind fun _ => Decoder.fixed_pure _
  | array count _ _ ih =>
    intro levels hlevels
    exact (Decoder.fixed_items (ih levels hlevels) count []).bind fun _ => Decoder.fixed_pure _
  | @enum _ name _ found units =>
    intro levels _
    show Decoder.Fixed schema 1 (schema.decodeNamed levels name)
    unfold decodeNamed
    rw [found]
    exact Decoder.fixed_variant found units
  | @struct _ name fields found lengthAt _ _ ih =>
    intro levels hlevels
    obtain ⟨below, rfl⟩ : ∃ m, levels = m + 1 := ⟨levels - 1, by omega⟩
    show Decoder.Fixed schema _ (schema.decodeNamed (below + 1) name)
    unfold decodeNamed
    rw [found]
    exact (Decoder.fixed_fields (fun field hfield => ih field hfield below (by omega)) []).bind
      fun _ => Decoder.fixed_pure _

theorem fields_congr {decode other : FieldType → Decoder Json} {fields : List Field}
    (h : ∀ field ∈ fields, decode field.type = other field.type) :
    ∀ done, Decoder.fields decode fields done = Decoder.fields other fields done := by
  induction fields with
  | nil => exact fun done => rfl
  | cons field fields ih =>
    intro done
    show (Decoder.within field.name (decode field.type) >>= _) = (_ >>= _)
    rw [h field List.mem_cons_self]
    exact congrArg _ (funext fun value => ih (fun g hg => h g (List.mem_cons_of_mem _ hg)) _)

/-- Levels beyond those that a derivation needs change nothing. -/
theorem Sized.decodeBy_levels (h : schema.Sized depth type length) :
    ∀ levels more, depth ≤ levels → depth ≤ more →
      type.decodeBy (schema.decodeNamed levels) = type.decodeBy (schema.decodeNamed more) := by
  induction h with
  | primitive p => exact fun _ _ _ _ => rfl
  | array count _ _ ih =>
    intro levels more hlevels hmore
    unfold FieldType.decodeBy
    rw [ih levels more hlevels hmore]
  | @enum _ name _ found _ =>
    intro levels more _ _
    show schema.decodeNamed levels name = schema.decodeNamed more name
    unfold decodeNamed
    rw [found]
  | @struct _ name fields found _ _ _ ih =>
    intro levels more hlevels hmore
    obtain ⟨levels, rfl⟩ : ∃ m, levels = m + 1 := ⟨levels - 1, by omega⟩
    obtain ⟨more, rfl⟩ : ∃ m, more = m + 1 := ⟨more - 1, by omega⟩
    show schema.decodeNamed (levels + 1) name = schema.decodeNamed (more + 1) name
    unfold decodeNamed
    simp only [found]
    rw [fields_congr fun field hfield => ih field hfield levels more (by omega) (by omega)]

theorem length_le_levelsFor (schema : Schema) (bytes : List UInt8) :
    schema.types.length ≤ schema.levelsFor bytes := by
  calc schema.types.length ≤ schema.types.length + 1 := Nat.le_succ _
    _ ≤ (bytes.length + 1) * (schema.types.length + 1) := Nat.le_mul_of_pos_left _ (Nat.succ_pos _)

/-- The decoder of a type that has a length. -/
def decoderOf (schema : Schema) (type : FieldType) : Decoder Json :=
  type.decodeBy (schema.decodeNamed schema.types.length)

theorem fixed_decoderOf (h : schema.lengthOf type = .ok length) :
    Decoder.Fixed schema length (schema.decoderOf type) :=
  (sized_of_lengthOf h).fixed _ le_rfl

theorem decodeBy_eq_decoderOf (h : schema.lengthOf type = .ok length) {levels : Nat}
    (hlevels : schema.types.length ≤ levels) :
    type.decodeBy (schema.decodeNamed levels) = schema.decoderOf type :=
  (sized_of_lengthOf h).decodeBy_levels _ _ hlevels le_rfl

theorem decodeValue_eq_decoderOf (h : schema.lengthOf type = .ok length) (bytes : List UInt8) :
    schema.decodeValue type bytes = schema.decoderOf type bytes := by
  show type.decodeBy (schema.decodeNamed (schema.levelsFor bytes)) bytes = _
  rw [decodeBy_eq_decoderOf h (schema.length_le_levelsFor bytes)]

/-- **The layout and the decoder agree on every type.** Where the layout finds a length, that many
    bytes are decoded and exactly they are taken, or else they hold an index that is no variant of
    its enumeration; fewer bytes are never decoded. -/
theorem decodeValue_exact (h : schema.lengthOf type = .ok length) (bytes : List UInt8) :
    (length ≤ bytes.length →
      (∃ value, schema.decodeValue type bytes = .ok (value, bytes.drop length)) ∨
      ∃ path index name variants, schema.find? name = some (.enum variants) ∧
        variants.length ≤ index ∧
        schema.decodeValue type bytes = .error (.malformed path (.variantIndex index name))) ∧
    (bytes.length < length → ∃ e, schema.decodeValue type bytes = .error e) := by
  have fixed := fixed_decoderOf h
  rw [decodeValue_eq_decoderOf h]
  refine ⟨fun hle => ?_, fixed.short bytes⟩
  have hsplit := List.take_append_drop length bytes
  obtain ⟨value, hv⟩ | ⟨e, ⟨path, index, name, variants, found, hindex, rfl⟩, hv⟩ :=
    fixed.whole (bytes.take length) (by rw [List.length_take]; omega)
  · have := hv (bytes.drop length)
    rw [hsplit] at this
    exact .inl ⟨value, this⟩
  · have := hv (bytes.drop length)
    rw [hsplit] at this
    exact .inr ⟨path, index, name, variants, found, hindex, this⟩

/-- A schema of orders: a side, a price and a size behind a byte that tells their kind. -/
def orders : Schema :=
  empty |>.withEnum "Side" ["Bid", "Ask"]
    |>.withStruct "Order"
      [⟨"side", .defined "Side"⟩, ⟨"price", .primitive .u16⟩, ⟨"size", .primitive .u8⟩]
    |>.withDiscriminator "Order" [7]

/-- Two orders have eight bytes: of nine one is left, seven are too few. -/
theorem decodeValue_two_orders :
    orders.lengthOf (.array (.defined "Order") 2) = .ok 8 ∧
    (∃ value, orders.decodeValue (.array (.defined "Order") 2) [1, 5, 0, 9, 0, 6, 0, 9, 3]
      = .ok (value, [3])) ∧
    ∃ e, orders.decodeValue (.array (.defined "Order") 2) [1, 5, 0, 9, 0, 6, 0] = .error e := by
  have h : orders.lengthOf (.array (.defined "Order") 2) = .ok 8 := by decide +kernel
  have henough := (decodeValue_exact h [1, 5, 0, 9, 0, 6, 0, 9, 3]).1 (by decide)
  refine ⟨h, henough.resolve_right ?_, (decodeValue_exact h [1, 5, 0, 9, 0, 6, 0]).2 (by decide)⟩
  rintro ⟨_, _, _, _, _, _, hd⟩
  cases hd

end Schema

end LedgerScan
