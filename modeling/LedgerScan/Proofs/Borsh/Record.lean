import LedgerScan.Proofs.Borsh.FixedLength
import LedgerScan.Proofs.Layout.Placed

/-!
# Decoding a record place by place

A record of a fixed length is decoded exactly when the bytes at each place are a value of the type
that lies there, and then it holds these values under the names of the fields: `decodeRecord_eq_ok`.
What else the data holds, between, before or after the places, plays no part.
-/

namespace LedgerScan

open Fallible

namespace Schema

variable {schema : Schema} {record : String} {layout : RecordLayout} {fields : List Field}
  {offset total levels : Nat} {placed : List (String × Placement)} {data : List UInt8}
  {place : Placement} {value : Json}

/-! ## 1. One place -/

/-- The bytes at a place are the value. -/
def Reads (schema : Schema) (data : List UInt8) (place : Placement) (value : Json) : Prop :=
  schema.decodeValue place.type (place.slice data) = .ok (value, [])

/-- The value at a place, null if the bytes there are none. -/
def valueAt (schema : Schema) (data : List UInt8) (place : Placement) : Json :=
  match schema.decodeValue place.type (place.slice data) with
  | .ok (value, _) => value
  | .error _ => .null

theorem Reads.valueAt_eq (h : schema.Reads data place value) :
    schema.valueAt data place = value := by
  unfold valueAt
  rw [show schema.decodeValue place.type (place.slice data) = .ok (value, []) from h]

theorem drop_offset_eq_slice_append (place : Placement) (data : List UInt8) :
    data.drop place.offset = place.slice data ++ data.drop place.stop := by
  rw [Placement.slice, Placement.stop, ← List.drop_drop, List.take_append_drop]

theorem Reads.decoderOf (h : schema.Reads data place value)
    (sized : schema.lengthOf place.type = .ok place.length) (inside : place.stop ≤ data.length) :
    schema.decoderOf place.type (data.drop place.offset) = .ok (value, data.drop place.stop) := by
  unfold Reads at h
  rw [decodeValue_eq_decoderOf sized] at h
  rw [drop_offset_eq_slice_append]
  exact (fixed_decoderOf sized).append_of_ok (Placement.length_slice inside) h _

theorem exists_error_of_not_reads (h : ¬ ∃ value, schema.Reads data place value)
    (sized : schema.lengthOf place.type = .ok place.length) (inside : place.stop ≤ data.length) :
    ∃ e, schema.decoderOf place.type (data.drop place.offset) = .error e := by
  have fixed := fixed_decoderOf sized
  have hl := Placement.length_slice inside
  rw [drop_offset_eq_slice_append]
  obtain ⟨value, hv⟩ | ⟨e, he⟩ := fixed.ok_or_error hl
  · exact absurd ⟨value, (decodeValue_eq_decoderOf sized _).trans hv⟩ h
  · exact ⟨e, fixed.append_of_error hl he _⟩

/-! ## 2. All places -/

theorem fields_cons_of_ok {decode : FieldType → Decoder Json} {field : Field} {done : Entries Json}
    {bytes rest : List UInt8} (h : decode field.type bytes = .ok (value, rest)) :
    Decoder.fields decode (field :: fields) done bytes
      = Decoder.fields decode fields (Entries.insert field.name value done) rest := by
  show (Decoder.within field.name (decode field.type) >>= _) bytes = _
  exact bind_of_ok (Decoder.within_of_ok h)

theorem fields_cons_of_error {decode : FieldType → Decoder Json} {field : Field}
    {done : Entries Json} {bytes : List UInt8} {e : DecodeError}
    (h : decode field.type bytes = .error e) :
    Decoder.fields decode (field :: fields) done bytes = .error (e.within field.name) := by
  show (Decoder.within field.name (decode field.type) >>= _) bytes = _
  exact bind_of_error (Decoder.within_of_error h)

/-- Fields that are all there are decoded from the place of the first one to the end of the last. -/
theorem Placed.fields_of_reads (h : schema.Placed fields offset placed total)
    (inside : total ≤ data.length) (hlevels : schema.types.length ≤ levels)
    (hread : ∀ p ∈ placed, ∃ value, schema.Reads data p.2 value) (done : Entries Json) :
    Decoder.fields (FieldType.decodeBy (schema.decodeNamed levels)) fields done (data.drop offset)
      = .ok (Entries.merge done (placed.map fun p => (p.1, schema.valueAt data p.2)),
          data.drop total) := by
  induction h generalizing done with
  | nil => rfl
  | cons sized _ rest ih =>
    rw [List.forall_mem_cons] at hread
    obtain ⟨⟨value, hvalue⟩, hread⟩ := hread
    have hfirst := hvalue.decoderOf sized (rest.le.trans inside)
    rw [← decodeBy_eq_decoderOf sized hlevels] at hfirst
    rw [fields_cons_of_ok hfirst, List.map_cons, hvalue.valueAt_eq]
    exact ih inside hread _

/-- A field that is not there makes the whole fail. -/
theorem Placed.fields_of_not_reads (h : schema.Placed fields offset placed total)
    (inside : total ≤ data.length) (hlevels : schema.types.length ≤ levels)
    (hread : ¬ ∀ p ∈ placed, ∃ value, schema.Reads data p.2 value) (done : Entries Json) :
    ∃ e, Decoder.fields (FieldType.decodeBy (schema.decodeNamed levels)) fields done
      (data.drop offset) = .error e := by
  induction h generalizing done with
  | nil => exact absurd (fun p hp => by cases hp) hread
  | @cons field _ offset length _ _ sized _ rest ih =>
    have stop : offset + length ≤ data.length := rest.le.trans inside
    by_cases hfirst : ∃ value, schema.Reads data ⟨offset, length, field.type⟩ value
    · obtain ⟨value, hvalue⟩ := hfirst
      have hdecode := hvalue.decoderOf sized stop
      rw [← decodeBy_eq_decoderOf sized hlevels] at hdecode
      rw [fields_cons_of_ok hdecode]
      exact ih inside (fun hall => hread (List.forall_mem_cons.mpr ⟨⟨value, hvalue⟩, hall⟩)) _
    · obtain ⟨e, he⟩ := exists_error_of_not_reads hfirst sized stop
      rw [← decodeBy_eq_decoderOf sized hlevels] at he
      exact ⟨_, fields_cons_of_error he⟩

/-- **A record is decoded exactly when every field is**, each from the bytes at its own place. -/
theorem decodeRecord_eq_ok (laid : schema.layoutOf record = .ok layout)
    (inside : layout.totalLength ≤ data.length) {shown : Entries Json} :
    schema.decodeRecord record data = .ok shown ↔
      (∀ p ∈ layout.fields, ∃ value, schema.Reads data p.2 value) ∧
      shown = Entries.ofList (layout.fields.map fun p => (p.1, schema.valueAt data p.2)) := by
  obtain ⟨fields, found, _, header, placed⟩ := placed_of_layoutOf laid
  have hheader : ¬ data.length < layout.headerLength := not_lt.mpr (placed.le.trans inside)
  have hlevels := schema.length_le_levelsFor data
  unfold decodeRecord fields?
  simp only [found, ← header, if_neg hheader, StateT.run']
  by_cases hread : ∀ p ∈ layout.fields, ∃ value, schema.Reads data p.2 value
  · rw [placed.fields_of_reads inside hlevels hread]
    exact ⟨fun h => ⟨hread, by cases h; rfl⟩, fun h => by rw [h.2]; rfl⟩
  · obtain ⟨e, he⟩ := placed.fields_of_not_reads inside hlevels hread []
    rw [he]
    exact ⟨fun h => (by cases h), fun h => absurd h.1 hread⟩

/-- Data that are the same at every place are decoded alike, whatever else they hold. -/
theorem decodeRecord_congr (laid : schema.layoutOf record = .ok layout) {other : List UInt8}
    (inside : layout.totalLength ≤ data.length) (within : layout.totalLength ≤ other.length)
    (same : ∀ p ∈ layout.fields, p.2.slice other = p.2.slice data) {shown : Entries Json} :
    schema.decodeRecord record other = .ok shown ↔ schema.decodeRecord record data = .ok shown := by
  have hvalues : (layout.fields.map fun p => (p.1, schema.valueAt other p.2))
      = layout.fields.map fun p => (p.1, schema.valueAt data p.2) :=
    List.map_congr_left fun p hp => by rw [valueAt, valueAt, same p hp]
  rw [decodeRecord_eq_ok laid within, decodeRecord_eq_ok laid inside, hvalues]
  refine and_congr_left fun _ => forall₂_congr fun p hp => ?_
  unfold Reads
  rw [same p hp]

end Schema

end LedgerScan
