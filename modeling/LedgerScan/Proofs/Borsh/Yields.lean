import LedgerScan.Proofs.Borsh.Primitive
import LedgerScan.Proofs.Json.RoundTrip
import LedgerScan.Proofs.Layout.Derivation

/-!
# What decoded values are like

Whatever the bytes, a value of a type has the shape that the type gives it. `Decoder.Yields` says of
all the values of a decoder that they have a property, and each piece of the decoder has a lemma
that says what it yields.

* Objects have each key once and in order (`yields_fields`, `yields_entries`);
* a type in which there is no float yields plain values, whose text can be read back
  (`plain_of_decodeValue`);
* a type that is no option yields texts only or none at all (`textual_of_decodeValue`).
-/

namespace LedgerScan

open Relation Fallible

/-! ## 1. Decoders and their values -/

namespace Decoder

variable {α β : Type} {decoder : Decoder α} {P : α → Prop}

/-- **Every value of the decoder has the property.** -/
def Yields (P : α → Prop) (decoder : Decoder α) : Prop :=
  ∀ bytes value rest, decoder bytes = .ok (value, rest) → P value

theorem yields_pure {value : α} (h : P value) : Yields P (pure value) := by
  intro _ _ _ hd
  cases hd
  exact h

theorem yields_throw (e : DecodeError) : Yields P (throw e : Decoder α) := by
  intro _ _ _ hd
  cases hd

theorem Yields.bind {Q : β → Prop} {next : α → Decoder β} (h : Yields P decoder)
    (hnext : ∀ value, P value → Yields Q (next value)) : Yields Q (decoder >>= next) := by
  intro bytes value rest hd
  obtain ⟨first, middle, hfirst, hsecond⟩ := bind_eq_ok_iff.mp hd
  exact hnext first (h bytes first middle hfirst) middle value rest hsecond

/-- Any decoder may come first. -/
theorem Yields.after {Q : β → Prop} {next : α → Decoder β} (hnext : ∀ value, Yields Q (next value))
    (decoder : Decoder α) : Yields Q (decoder >>= next) := by
  have hany : Yields (fun _ => True) decoder := fun _ _ _ _ => trivial
  exact hany.bind fun value _ => hnext value

/-- What is made of a value has the property if it always has. -/
theorem yields_result {Q : β → Prop} (f : α → β) (h : ∀ value, Q (f value)) (decoder : Decoder α) :
    Yields Q (do return f (← decoder)) :=
  Yields.after (fun value => yields_pure (h value)) decoder

theorem Yields.mono {Q : α → Prop} (h : Yields P decoder) (himp : ∀ value, P value → Q value) :
    Yields Q decoder :=
  fun bytes value rest hd => himp value (h bytes value rest hd)

theorem Yields.within (h : Yields P decoder) (segment : String) :
    Yields P (Decoder.within segment decoder) :=
  fun bytes value rest hd => h bytes value rest (ok_of_within hd)

theorem yields_take (count : Nat) : Yields (fun front => front.length = count) (take count) :=
  fun _ _ _ hd => (take_ok hd).1

/-! ## 2. Lists and objects -/

section Parts

variable {P : Json → Prop}

theorem yields_items {item : Decoder Json} (h : Yields P item) (n : Nat) :
    ∀ done : List Json, (∀ v ∈ done, P v) → Yields (fun values => ∀ v ∈ values, P v)
      (items item n done) := by
  induction n with
  | zero => exact fun done hdone => yields_pure fun v hv => hdone v (List.mem_reverse.mp hv)
  | succ n ih =>
    exact fun done hdone => (h.within _).bind fun value hvalue =>
      ih (value :: done) (List.forall_mem_cons.mpr ⟨hvalue, hdone⟩)

/-- The entries are in order and their values have the property. -/
def Ordered (P : Json → Prop) (entries : Entries Json) : Prop :=
  Entries.Sorted entries ∧ ∀ entry ∈ entries, P entry.2

theorem ordered_nil : Ordered P [] := ⟨List.Pairwise.nil, List.forall_mem_nil _⟩

theorem Ordered.insert {entries : Entries Json} {value : Json} (h : Ordered P entries)
    (hvalue : P value) (key : String) : Ordered P (Entries.insert key value entries) := by
  refine ⟨Entries.sorted_insert h.1, fun entry hentry => ?_⟩
  rcases Entries.mem_of_mem_insert hentry with rfl | hentry
  · exact hvalue
  · exact h.2 entry hentry

theorem yields_entries {key value : Decoder Json} (h : Yields P value) (n : Nat) :
    ∀ done : Entries Json, Ordered P done → Yields (Ordered P) (entries key value n done) := by
  induction n with
  | zero => exact fun done hdone => yields_pure hdone
  | succ n ih =>
    intro done hdone
    refine Yields.after (fun name => ?_) key
    exact (h.within _).bind fun v hv => ih _ (hdone.insert hv _)

theorem yields_fields {decode : FieldType → Decoder Json} {fields : List Field}
    (h : ∀ field ∈ fields, Yields P (decode field.type)) :
    ∀ done : Entries Json, Ordered P done →
      Yields (Ordered P) (Decoder.fields decode fields done) := by
  induction fields with
  | nil => exact fun done hdone => yields_pure hdone
  | cons field fields ih =>
    intro done hdone
    rw [List.forall_mem_cons] at h
    exact (h.1.within _).bind fun v hv => ih h.2 _ (hdone.insert hv _)

end Parts

/-- A variant is shown as its name. -/
theorem yields_variant (name : String) (variants : List Variant) :
    Yields (fun v => ∃ s, v = .text s) (variant name variants) := by
  refine Yields.after (fun index => ?_) byte
  cases variants[index]? with
  | none => exact yields_throw _
  | some v =>
    show Yields _ (if v.hasFields then throw _ else pure (Json.text v.name) : Decoder Json)
    cases v.hasFields with
    | false => exact yields_pure ⟨v.name, rfl⟩
    | true => exact yields_throw _

end Decoder

open Decoder

/-! ## 3. Values without floats -/

namespace LittleEndian

/-- A signed integer is in the range of its width. -/
theorem decodeInt_bounds (bytes : List UInt8) :
    -(capacity bytes.length : Int) ≤ 2 * decodeInt bytes ∧
      2 * decodeInt bytes < capacity bytes.length := by
  have hlt := decode_lt bytes
  unfold decodeInt
  dsimp only
  split <;> omega

end LittleEndian

/-- The value of a primitive that is no float is plain: an integer of up to 64 bits fits them. -/
theorem Primitive.plain_value {p : Primitive} (h32 : p ≠ .f32) (h64 : p ≠ .f64)
    {bytes : List UInt8} (hlength : bytes.length = p.width) : (p.value bytes).Plain := by
  have hnat := LittleEndian.decode_lt bytes
  have hint := LittleEndian.decodeInt_bounds bytes
  rw [hlength] at hnat hint
  cases p with
  | u8 | u16 | u32 | u64 =>
    refine .number ⟨?_, ?_⟩
    all_goals
      simp only [width, LittleEndian.capacity] at hnat
      omega
  | i8 | i16 | i32 | i64 =>
    refine .number ⟨?_, ?_⟩
    all_goals
      simp only [width, LittleEndian.capacity] at hint
      omega
  | bool => exact .bool _
  | u128 | i128 | pubkey => exact .text _
  | f32 => exact absurd rfl h32
  | f64 => exact absurd rfl h64

namespace Schema

variable {schema : Schema} {type part : FieldType}

/-- There is no float in a type, nor in any type that it mentions. -/
def FloatFree (schema : Schema) (type : FieldType) : Prop :=
  ∀ p, ReflTransGen schema.Mentions type (.primitive p) → p ≠ .f32 ∧ p ≠ .f64

theorem FloatFree.mention (h : schema.FloatFree type) (mentions : schema.Mentions type part) :
    schema.FloatFree part := fun p reaches => h p (.head mentions reaches)

end Schema

theorem FieldType.yields_plain (schema : Schema) {named : String → Decoder Json}
    (h : ∀ name, schema.FloatFree (.defined name) → Yields Json.Plain (named name))
    (type : FieldType) (free : schema.FloatFree type) :
    Yields Json.Plain (type.decodeBy named) := by
  induction type with
  | primitive p =>
    have hfloat := free p .refl
    exact (yields_take p.width).bind fun bytes hbytes =>
      yields_pure (Primitive.plain_value hfloat.1 hfloat.2 hbytes)
  | array element length ih =>
    have hitem := ih (free.mention (.part (.element element length)))
    exact (yields_items hitem length [] (List.forall_mem_nil _)).bind fun values hvalues =>
      yields_pure (.list hvalues)
  | defined name => exact h name free
  | option inner ih =>
    refine Yields.after (fun tag => ?_) byte
    show Yields _ (if tag = 0 then pure Json.null else inner.decodeBy named)
    split
    · exact yields_pure .null
    · exact ih (free.mention (.inner inner))
  | vec element ih =>
    have hitem := ih (free.mention (.item element))
    refine Yields.after (fun n => ?_) count
    exact (yields_items hitem n [] (List.forall_mem_nil _)).bind fun values hvalues =>
      yields_pure (.list hvalues)
  | string =>
    refine Yields.after (fun n => Yields.after (fun bytes => ?_) (take n)) count
    cases Utf8.decode bytes with
    | ok s => exact yields_pure (.text s)
    | error e => exact yields_throw _
  | bytes =>
    refine Yields.after (fun n => Yields.after (fun bytes => yields_pure (.list ?_)) (take n)) count
    refine List.forall_mem_map.mpr fun byte _ => .number ⟨?_, ?_⟩
    all_goals
      have hbyte := byte.toNat_lt
      omega
  | map key value _ ihvalue =>
    have hvalue := ihvalue (free.mention (.value key value))
    refine Yields.after (fun n => ?_) count
    exact (yields_entries hvalue n [] ordered_nil).bind fun entries hentries =>
      yields_pure (.object hentries.1 hentries.2)

namespace Schema

variable {schema : Schema} {type : FieldType} {bytes rest : List UInt8} {v : Json}

theorem yields_plain_named (schema : Schema) (levels : Nat) :
    ∀ name, schema.FloatFree (.defined name) →
      Yields Json.Plain (schema.decodeNamed levels name) := by
  induction levels with
  | zero =>
    intro name _
    unfold decodeNamed
    cases schema.find? name with
    | none => exact yields_throw _
    | some definition =>
      cases definition with
      | enum variants =>
        refine (yields_variant name variants).mono fun v hv => ?_
        obtain ⟨s, rfl⟩ := hv
        exact .text s
      | struct fields => exact yields_throw _
  | succ levels ih =>
    intro name free
    unfold decodeNamed
    cases found : schema.find? name with
    | none => exact yields_throw _
    | some definition =>
      cases definition with
      | enum variants =>
        refine (yields_variant name variants).mono fun v hv => ?_
        obtain ⟨s, rfl⟩ := hv
        exact .text s
      | struct fields =>
        have hfields : ∀ field ∈ fields, Yields Json.Plain
            (field.type.decodeBy (schema.decodeNamed levels)) := fun field hfield =>
          field.type.yields_plain schema ih (free.mention (.part (.field found hfield)))
        exact (yields_fields hfields [] ordered_nil).bind fun entries hentries =>
          yields_pure (.object hentries.1 hentries.2)

/-- **A type without floats yields plain values.** -/
theorem plain_of_decodeValue (free : schema.FloatFree type)
    (h : schema.decodeValue type bytes = .ok (v, rest)) : v.Plain :=
  type.yields_plain schema (schema.yields_plain_named _) free bytes v rest h

/-- The fields of a decoded record are in order. -/
theorem sorted_of_decodeRecord {record : String} {shown : Entries Json}
    (h : schema.decodeRecord record bytes = .ok shown) : Entries.Sorted shown := by
  obtain ⟨fields, rest, _, _, hdecode⟩ := decodeRecord_ok.mp h
  have hfields : Yields (Ordered fun _ => True) (Decoder.fields
      (FieldType.decodeBy (schema.decodeNamed (schema.levelsFor bytes))) fields []) :=
    yields_fields (fun _ _ _ _ _ _ => trivial) [] ordered_nil
  exact (hfields _ _ _ hdecode).1

/-! ## 4. Texts -/

/-- Whether the values of a type are shown as texts: wide integers, addresses, strings and variants.
    Of an option this cannot be said. -/
def textual (schema : Schema) : FieldType → Bool
  | .primitive .u128 | .primitive .i128 | .primitive .pubkey | .string => true
  | .defined name =>
    match schema.find? name with
    | some (.enum _) => true
    | _ => false
  | _ => false

theorem yields_textual_named (schema : Schema) (levels : Nat) (name : String) :
    Yields (fun v => v.asText?.isSome = schema.textual (.defined name))
      (schema.decodeNamed levels name) := by
  unfold decodeNamed
  cases found : schema.find? name with
  | none => exact yields_throw _
  | some definition =>
    cases definition with
    | enum variants =>
      have htextual : schema.textual (.defined name) = true := by simp only [textual, found]
      refine (yields_variant name variants).mono fun v hv => ?_
      obtain ⟨s, rfl⟩ := hv
      exact htextual.symm
    | struct fields =>
      have htextual : schema.textual (.defined name) = false := by simp only [textual, found]
      cases levels with
      | zero => exact yields_throw _
      | succ levels => exact yields_result Json.object (fun _ => htextual.symm) _

/-- **A type that is no option yields only texts or none.** -/
theorem textual_of_decodeValue (hoption : ∀ inner, type ≠ .option inner)
    (h : schema.decodeValue type bytes = .ok (v, rest)) :
    v.asText?.isSome = schema.textual type := by
  suffices hyields : Yields (fun v => v.asText?.isSome = schema.textual type)
      (type.decodeBy (schema.decodeNamed (schema.levelsFor bytes))) from hyields bytes v rest h
  cases type with
  | primitive p =>
    refine yields_result p.value (fun bytes => ?_) (take p.width)
    cases p with
    | f32 | f64 =>
      show (Json.float _).asText?.isSome = false
      unfold Json.float
      split <;> rfl
    | _ => rfl
  | array element length => exact yields_result Json.list (fun _ => rfl) _
  | defined name => exact schema.yields_textual_named _ name
  | option inner => exact absurd rfl (hoption inner)
  | vec element => exact Yields.after (fun n => yields_result Json.list (fun _ => rfl) _) count
  | string =>
    refine Yields.after (fun n => Yields.after (fun bytes => ?_) (take n)) count
    cases Utf8.decode bytes with
    | ok s => exact yields_pure rfl
    | error e => exact yields_throw _
  | bytes =>
    let shown (bytes : List UInt8) : Json := .list (bytes.map fun b => .nat b.toNat)
    exact Yields.after (fun n => yields_result shown (fun _ => rfl) (take n)) count
  | map key value => exact Yields.after (fun n => yields_result Json.object (fun _ => rfl) _) count

end Schema

end LedgerScan
