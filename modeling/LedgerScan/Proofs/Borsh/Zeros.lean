import LedgerScan.Proofs.Borsh.Record

/-!
# Zeros are a value wherever anything is

Fields outside a window are decoded from zeros. That never fails where the record could be decoded
at all: every primitive has a value of zeros, and so does an enumeration that has any variant
(`Sized.blank`). Of a type without any value, such as a structure around an enumeration without
variants, no bytes are a value, and zeros are none either.
-/

namespace LedgerScan

open Fallible

/-! ## 1. Decoders that take zeros -/

namespace Decoder

variable {α β : Type} {length : Nat} {decoder : Decoder α}

/-- **A decoder that takes `length` zeros for a value**, whatever follows. -/
def Blank (length : Nat) (decoder : Decoder α) : Prop :=
  ∃ value, ∀ rest, decoder (List.replicate length 0 ++ rest) = .ok (value, rest)

theorem blank_pure (value : α) : Blank 0 (pure value) :=
  ⟨value, fun _ => rfl⟩

theorem blank_take (count : Nat) : Blank count (take count) := by
  refine ⟨List.replicate count 0, fun rest => ?_⟩
  have h := split?_append (List.replicate count 0) rest
  rw [List.length_replicate] at h
  unfold take
  rw [h]

theorem Blank.bind {more : Nat} {next : α → Decoder β} (h : Blank length decoder)
    (hnext : ∀ value, Blank more (next value)) : Blank (length + more) (decoder >>= next) := by
  obtain ⟨value, hv⟩ := h
  obtain ⟨value', hv'⟩ := hnext value
  refine ⟨value', fun rest => ?_⟩
  rw [← List.replicate_append_replicate, List.append_assoc]
  exact (bind_of_ok (hv _)).trans (hv' rest)

theorem Blank.within (h : Blank length decoder) (segment : String) :
    Blank length (Decoder.within segment decoder) :=
  h.imp fun _ hv rest => within_of_ok (hv rest)

theorem blank_items {item : Decoder Json} (h : Blank length item) (count : Nat) :
    ∀ done : List Json, Blank (length * count) (items item count done) := by
  induction count with
  | zero => exact fun done => blank_pure _
  | succ count ih =>
    intro done
    rw [Nat.mul_succ, Nat.add_comm]
    exact (h.within _).bind fun value => ih (value :: done)

theorem blank_fields {decode : FieldType → Decoder Json} {lengthAt : FieldType → Nat}
    {fields : List Field}
    (h : ∀ field ∈ fields, Blank (lengthAt field.type) (decode field.type)) :
    ∀ done : Entries Json, Blank (fields.map fun field => lengthAt field.type).sum
      (Decoder.fields decode fields done) := by
  induction fields with
  | nil => exact fun done => blank_pure _
  | cons field fields ih =>
    intro done
    rw [List.map_cons, List.sum_cons]
    exact ((h field List.mem_cons_self).within _).bind fun value =>
      ih (fun g hg => h g (List.mem_cons_of_mem _ hg)) _

theorem blank_variant {name : String} {variant : Variant} {variants : List Variant}
    (unit : variant.hasFields = false) : Blank 1 (Decoder.variant name (variant :: variants)) := by
  refine ⟨.text variant.name, fun rest => ?_⟩
  show (if variant.hasFields then throw _
    else pure (Json.text variant.name) : Decoder Json) rest = _
  rw [unit]
  rfl

/-! ## 2. What succeeded before -/

/-- Fields that were decoded were each decoded from something. -/
theorem exists_ok_of_fields {decode : FieldType → Decoder Json} {fields : List Field} :
    ∀ {done : Entries Json} {bytes : List UInt8} {r : Entries Json × List UInt8},
      Decoder.fields decode fields done bytes = .ok r →
      ∀ field ∈ fields, ∃ bytes r, decode field.type bytes = .ok r := by
  induction fields with
  | nil => exact fun _ field hfield => by cases hfield
  | cons first fields ih =>
    intro done bytes r h field hfield
    obtain ⟨value, rest, hfirst, hrest⟩ := bind_eq_ok_iff.mp h
    rcases List.mem_cons.mp hfield with rfl | hfield
    · exact ⟨bytes, _, ok_of_within hfirst⟩
    · exact ih hrest field hfield

end Decoder

/-! ## 3. Types -/

namespace Schema

variable {schema : Schema} {depth length : Nat} {type : FieldType}

/-- **What is decoded from any bytes is decoded from zeros.** -/
theorem Sized.blank (h : schema.Sized depth type length) :
    ∀ levels, depth ≤ levels →
      (∃ bytes r, type.decodeBy (schema.decodeNamed levels) bytes = .ok r) →
      Decoder.Blank length (type.decodeBy (schema.decodeNamed levels)) := by
  induction h with
  | primitive p =>
    exact fun _ _ _ => (Decoder.blank_take p.width).bind fun _ => Decoder.blank_pure _
  | @array _ length element count _ _ ih =>
    rintro levels hlevels ⟨bytes, r, hr⟩
    obtain ⟨values, rest, hvalues, _⟩ := bind_eq_ok_iff.mp hr
    have hitems : Decoder.Blank (length * count)
        (Decoder.items (element.decodeBy (schema.decodeNamed levels)) count []) := by
      cases count with
      | zero => exact Decoder.blank_pure _
      | succ count =>
        obtain ⟨_, _, hfirst, _⟩ := bind_eq_ok_iff.mp hvalues
        have hitem := ih levels hlevels ⟨bytes, _, Decoder.ok_of_within hfirst⟩
        exact Decoder.blank_items hitem _ []
    exact hitems.bind fun _ => Decoder.blank_pure _
  | @enum _ name variants found units =>
    rintro levels _ ⟨bytes, r, hr⟩
    show Decoder.Blank 1 (schema.decodeNamed levels name)
    have hr' : schema.decodeNamed levels name bytes = .ok r := hr
    unfold decodeNamed at hr' ⊢
    rw [found] at hr' ⊢
    cases variants with
    | nil =>
      obtain ⟨_, _, _, h⟩ := bind_eq_ok_iff.mp hr'
      cases h
    | cons variant variants => exact Decoder.blank_variant (units _ List.mem_cons_self)
  | @struct _ name fields found lengthAt _ _ ih =>
    rintro levels hlevels ⟨bytes, r, hr⟩
    obtain ⟨below, rfl⟩ : ∃ m, levels = m + 1 := ⟨levels - 1, by omega⟩
    show Decoder.Blank _ (schema.decodeNamed (below + 1) name)
    have hr' : schema.decodeNamed (below + 1) name bytes = .ok r := hr
    unfold decodeNamed at hr' ⊢
    rw [found] at hr' ⊢
    obtain ⟨_, _, hfields, _⟩ := bind_eq_ok_iff.mp hr'
    have hblank := Decoder.blank_fields (fun field hfield =>
      ih field hfield below (by omega) (Decoder.exists_ok_of_fields hfields field hfield)) []
    exact hblank.bind fun _ => Decoder.blank_pure _

/-- Zeros are a value of a type that has a length and any value at all. -/
theorem exists_value_of_zeros (h : schema.lengthOf type = .ok length) {bytes : List UInt8}
    {r : Json × List UInt8} (hr : schema.decodeValue type bytes = .ok r) :
    ∃ value, schema.decodeValue type (List.replicate length 0) = .ok (value, []) := by
  rw [decodeValue_eq_decoderOf h] at hr
  obtain ⟨value, hv⟩ := (sized_of_lengthOf h).blank _ le_rfl ⟨bytes, r, hr⟩
  refine ⟨value, ?_⟩
  have := hv []
  rw [List.append_nil] at this
  rw [decodeValue_eq_decoderOf h]
  exact this

end Schema

end LedgerScan
