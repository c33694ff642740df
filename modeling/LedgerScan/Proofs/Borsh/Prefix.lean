import LedgerScan.Proofs.Borsh.FixedLength

/-!
# Decoders look only at what they take

A decoder takes bytes off the front and never looks behind them. `Decoder.Accepts` says that some
bytes make up a value in front of anything, `Decoder.Local` that a decoder is decided by what it
takes: what is a value is one in front of anything, and what is wrong other than for want of bytes
is wrong in front of anything too.

Every piece of the decoder is local if its parts are, so every type is (`FieldType.local_decodeBy`),
names followed to any number of levels included (`Schema.local_decodeNamed`).
-/

namespace LedgerScan

open Fallible

/-! ## 1. Want of bytes -/

/-- The bytes end inside the value. -/
def DecodeError.IsShort (e : DecodeError) : Prop :=
  ∃ path, e = .malformed path .shortRead

theorem DecodeError.isShort_within {e : DecodeError} {segment : String} (h : e.IsShort) :
    (e.within segment).IsShort := by
  obtain ⟨path, rfl⟩ := h
  exact ⟨segment :: path, rfl⟩

namespace Decoder

variable {α β : Type} {decoder : Decoder α} {bytes front rest : List UInt8} {value : α}

theorem split?_eq_some : ∀ {count : Nat} {bytes front rest : List UInt8},
    split? count bytes = some (front, rest) → front.length = count ∧ bytes = front ++ rest
  | 0, _, _, _, h => by
      cases h
      exact ⟨rfl, rfl⟩
  | _ + 1, [], _, _, h => by cases h
  | count + 1, byte :: bytes, _, _, h => by
      unfold split? at h
      cases hs : split? count bytes with
      | none =>
        rw [hs] at h
        cases h
      | some parts =>
        obtain ⟨front', rest'⟩ := parts
        rw [hs] at h
        cases h
        obtain ⟨hlength, rfl⟩ := split?_eq_some hs
        exact ⟨congrArg (· + 1) hlength, rfl⟩

theorem take_ok {count : Nat} (h : take count bytes = .ok (front, rest)) :
    front.length = count ∧ bytes = front ++ rest := by
  unfold take at h
  cases hs : split? count bytes with
  | none =>
    rw [hs] at h
    cases h
  | some parts =>
    rw [hs] at h
    cases h
    exact split?_eq_some hs

theorem take_error {count : Nat} {e : DecodeError} (h : take count bytes = .error e) :
    e.IsShort := by
  unfold take at h
  cases hs : split? count bytes with
  | none =>
    rw [hs] at h
    cases h
    exact ⟨[], rfl⟩
  | some parts =>
    rw [hs] at h
    cases h

/-! ## 2. Bytes that make up a value -/

/-- **The bytes are taken for the value**, whatever follows them. -/
def Accepts (decoder : Decoder α) (front : List UInt8) (value : α) : Prop :=
  ∀ rest, decoder (front ++ rest) = .ok (value, rest)

theorem accepts_pure (value : α) : Accepts (pure value) [] value := fun _ => rfl

theorem accepts_take (front : List UInt8) : Accepts (take front.length) front front := by
  intro rest
  unfold take
  rw [split?_append]

theorem Accepts.bind {next : α → Decoder β} {back : List UInt8} {value' : β}
    (h : Accepts decoder front value) (hnext : Accepts (next value) back value') :
    Accepts (decoder >>= next) (front ++ back) value' := by
  intro rest
  rw [List.append_assoc]
  exact (bind_of_ok (h _)).trans (hnext rest)

theorem Accepts.within (h : Accepts decoder front value) (segment : String) :
    Accepts (Decoder.within segment decoder) front value := fun rest => within_of_ok (h rest)

/-! ## 3. Decoders that look only at what they take -/

/-- **A decoder that is decided by the bytes that it takes.** -/
structure Local (decoder : Decoder α) : Prop where
  /-- What makes up a value makes it up in front of anything. -/
  ok : ∀ {bytes value rest}, decoder bytes = .ok (value, rest) →
    ∃ front, bytes = front ++ rest ∧ Accepts decoder front value
  /-- What fails, other than for want of bytes, fails in front of anything. -/
  error : ∀ {bytes e}, decoder bytes = .error e → ¬ e.IsShort →
    ∀ more, decoder (bytes ++ more) = .error e

/-- What is left is the end of the bytes. -/
theorem Local.suffix (h : Local decoder) (hd : decoder bytes = .ok (value, rest)) :
    rest <:+ bytes := by
  obtain ⟨front, rfl, _⟩ := h.ok hd
  exact List.suffix_append front rest

theorem Local.append (h : Local decoder) (hd : decoder bytes = .ok (value, rest))
    (more : List UInt8) : decoder (bytes ++ more) = .ok (value, rest ++ more) := by
  obtain ⟨front, rfl, accepts⟩ := h.ok hd
  rw [List.append_assoc]
  exact accepts (rest ++ more)

theorem local_pure (value : α) : Local (pure value) where
  ok h := by
    cases h
    exact ⟨[], rfl, accepts_pure value⟩
  error h := by cases h

theorem local_throw (e : DecodeError) : Local (throw e : Decoder α) where
  ok h := by cases h
  error h _ _ := by
    cases h
    rfl

theorem local_take (count : Nat) : Local (take count) where
  ok h := by
    obtain ⟨hlength, rfl⟩ := take_ok h
    subst hlength
    exact ⟨_, rfl, accepts_take _⟩
  error h hshort := absurd (take_error h) hshort

theorem Local.bind {next : α → Decoder β} (h : Local decoder)
    (hnext : ∀ value, Local (next value)) : Local (decoder >>= next) where
  ok hd := by
    obtain ⟨value, middle, hfirst, hsecond⟩ := bind_eq_ok_iff.mp hd
    obtain ⟨front, rfl, haccepts⟩ := h.ok hfirst
    obtain ⟨back, rfl, haccepts'⟩ := (hnext value).ok hsecond
    exact ⟨front ++ back, (List.append_assoc _ _ _).symm, haccepts.bind haccepts'⟩
  error hd hshort more := by
    rcases bind_eq_error_iff.mp hd with hfirst | ⟨value, middle, hfirst, hsecond⟩
    · exact bind_of_error (h.error hfirst hshort more)
    · have hmore := (hnext value).error hsecond hshort more
      exact (bind_of_ok (h.append hfirst more)).trans hmore

theorem Local.within (h : Local decoder) (segment : String) :
    Local (Decoder.within segment decoder) where
  ok {bytes value rest} hd := by
    cases hr : decoder bytes with
    | error e =>
      rw [within_of_error hr] at hd
      cases hd
    | ok r =>
      rw [within_of_ok hr] at hd
      cases hd
      obtain ⟨front, hbytes, haccepts⟩ := h.ok hr
      exact ⟨front, hbytes, haccepts.within segment⟩
  error {bytes e} hd hshort more := by
    cases hr : decoder bytes with
    | ok r =>
      rw [within_of_ok hr] at hd
      cases hd
    | error cause =>
      rw [within_of_error hr] at hd
      cases hd
      have hcause : ¬ cause.IsShort := fun hc => hshort (DecodeError.isShort_within hc)
      exact within_of_error (h.error hr hcause more)

/-! ## 4. Pieces -/

theorem local_byte : Local byte :=
  (local_take 1).bind fun _ => local_pure _

theorem local_count : Local count :=
  (local_take 4).bind fun _ => local_pure _

theorem local_items {item : Decoder Json} (h : Local item) (n : Nat) :
    ∀ done : List Json, Local (items item n done) := by
  induction n with
  | zero => exact fun done => local_pure _
  | succ n ih => exact fun done => (h.within _).bind fun value => ih (value :: done)

theorem local_entries {key value : Decoder Json} (hkey : Local key) (hvalue : Local value)
    (n : Nat) : ∀ done : Entries Json, Local (entries key value n done) := by
  induction n with
  | zero => exact fun done => local_pure _
  | succ n ih =>
    exact fun done => hkey.bind fun name => (hvalue.within _).bind fun v => ih _

theorem local_fields {decode : FieldType → Decoder Json} (h : ∀ type, Local (decode type))
    (fields : List Field) : ∀ done : Entries Json, Local (Decoder.fields decode fields done) := by
  induction fields with
  | nil => exact fun done => local_pure _
  | cons field fields ih => exact fun done => ((h field.type).within _).bind fun value => ih _

theorem local_variant (name : String) (variants : List Variant) :
    Local (variant name variants) := by
  refine local_byte.bind fun index => ?_
  cases variants[index]? with
  | none => exact local_throw _
  | some v =>
    show Local (if v.hasFields then throw _ else pure (Json.text v.name) : Decoder Json)
    cases v.hasFields with
    | false => exact local_pure _
    | true => exact local_throw _

end Decoder

/-! ## 5. Types -/

/-- **Types look only at what they take**, if names do. -/
theorem FieldType.local_decodeBy {named : String → Decoder Json}
    (h : ∀ name, (named name).Local) (type : FieldType) : (type.decodeBy named).Local := by
  induction type with
  | primitive p => exact (Decoder.local_take _).bind fun _ => Decoder.local_pure _
  | array element length ih =>
    exact (Decoder.local_items ih length []).bind fun _ => Decoder.local_pure _
  | defined name => exact h name
  | option inner ih =>
    refine Decoder.local_byte.bind fun tag => ?_
    show Decoder.Local (if tag = 0 then pure Json.null else inner.decodeBy named)
    split
    · exact Decoder.local_pure _
    · exact ih
  | vec element ih =>
    exact Decoder.local_count.bind fun n =>
      (Decoder.local_items ih n []).bind fun _ => Decoder.local_pure _
  | string =>
    refine Decoder.local_count.bind fun n => (Decoder.local_take n).bind fun bytes => ?_
    cases Utf8.decode bytes with
    | ok s => exact Decoder.local_pure _
    | error e => exact Decoder.local_throw _
  | bytes =>
    exact Decoder.local_count.bind fun n =>
      (Decoder.local_take n).bind fun _ => Decoder.local_pure _
  | map key value ihkey ihvalue =>
    exact Decoder.local_count.bind fun n =>
      (Decoder.local_entries ihkey ihvalue n []).bind fun _ => Decoder.local_pure _

/-- Names look only at what they take, to whatever number of levels they are followed. -/
theorem Schema.local_decodeNamed (schema : Schema) (levels : Nat) :
    ∀ name, (schema.decodeNamed levels name).Local := by
  induction levels with
  | zero =>
    intro name
    unfold decodeNamed
    cases schema.find? name with
    | none => exact Decoder.local_throw _
    | some definition =>
      cases definition with
      | enum variants => exact Decoder.local_variant name variants
      | struct fields => exact Decoder.local_throw _
  | succ levels ih =>
    intro name
    unfold decodeNamed
    cases schema.find? name with
    | none => exact Decoder.local_throw _
    | some definition =>
      cases definition with
      | enum variants => exact Decoder.local_variant name variants
      | struct fields =>
        exact (Decoder.local_fields (FieldType.local_decodeBy ih) fields []).bind
          fun _ => Decoder.local_pure _

end LedgerScan
