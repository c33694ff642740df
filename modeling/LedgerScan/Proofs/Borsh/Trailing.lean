import LedgerScan.Proofs.Borsh.Levels

/-!
# Bytes that trail

What follows the bytes of a value has no say in it, and without all of its bytes there is no value.
So the outcomes fall in two: want of bytes, which more bytes can cure, and everything else, which
stands whatever follows (`decodeValue_append_of_ok`, `decodeValue_append_of_error`). Bytes that are
short of a value fail for want of bytes and for no other reason (`short_of_part`).

The bound on the levels grows with the bytes, but it does not show (`decodeBy_levels`), so what is
decided at one number of levels is decided for longer bytes too. Records follow from their fields
(`decodeRecord_append`); `decodeValue_local` says all of it.
-/

namespace LedgerScan

open Decoder Fallible

namespace Schema

variable {schema : Schema} {type : FieldType} {record : String} {bytes rest : List UInt8}
  {value : Json} {e : DecodeError} {shown : Entries Json}

theorem levelsFor_mono (schema : Schema) (bytes more : List UInt8) :
    schema.levelsFor bytes ≤ schema.levelsFor (bytes ++ more) := by
  unfold levelsFor
  rw [List.length_append]
  gcongr
  omega

/-- An end of the bytes needs no more levels than all of them. -/
theorem levelsFor_le_of_suffix (schema : Schema) (h : rest <:+ bytes) :
    schema.levelsFor rest ≤ schema.levelsFor bytes := by
  have hlength := h.length_le
  unfold levelsFor
  gcongr

/-- What is decoded with more levels than are needed is decoded. -/
theorem decodeValue_of_levels {levels : Nat} (hlevels : schema.levelsFor bytes ≤ levels)
    {result : Json × List UInt8}
    (h : type.decodeBy (schema.decodeNamed levels) bytes = .ok result) :
    schema.decodeValue type bytes = .ok result := by
  rcases decodeBy_levels type hlevels with heq | ⟨_, hendless⟩
  · exact heq.trans h
  · rw [h] at hendless
    exact absurd hendless (not_endless_ok _)

/-- The decoder that `decodeValue` runs on some bytes. -/
theorem local_decodeValue (schema : Schema) (type : FieldType) (bytes : List UInt8) :
    Local (type.decodeBy (schema.decodeNamed (schema.levelsFor bytes))) :=
  FieldType.local_decodeBy (schema.local_decodeNamed _) type

/-! ## 1. Values -/

/-- A value is the same value in front of more bytes, and they are left. -/
theorem decodeValue_append_of_ok (h : schema.decodeValue type bytes = .ok (value, rest))
    (more : List UInt8) :
    schema.decodeValue type (bytes ++ more) = .ok (value, rest ++ more) := by
  have hsame := decodeBy_levels type (levelsFor_mono schema bytes more)
  rw [h] at hsame
  rcases hsame with heq | ⟨hendless, _⟩
  · exact (local_decodeValue schema type (bytes ++ more)).append heq.symm more
  · exact absurd hendless (not_endless_ok _)

/-- An error that more bytes cannot cure is the same error in front of more bytes. -/
theorem decodeValue_append_of_error (h : schema.decodeValue type bytes = .error e)
    (hshort : ¬ e.IsShort) (more : List UInt8) :
    SameOutcome (schema.decodeValue type (bytes ++ more)) (.error e) := by
  have hlocal := local_decodeValue schema type (bytes ++ more)
  have hsame := decodeBy_levels type (levelsFor_mono schema bytes more)
  rw [h] at hsame
  rcases hsame with heq | ⟨hendless, path, name, heq⟩
  · exact .inl (hlocal.error heq.symm hshort more)
  · -- no more levels end it, so the longer bytes meet the bound as well
    have hnotshort : ¬ (DecodeError.endless path name).IsShort := by
      rintro ⟨_, h⟩
      cases h
    exact .inr ⟨⟨path, name, hlocal.error heq hnotshort more⟩, hendless⟩

/-- **Without all of its bytes there is no value**, and for want of bytes only. -/
theorem short_of_part {front part : List UInt8}
    (h : schema.decodeValue type (front ++ rest) = .ok (value, rest)) (hpart : part <+: front)
    (hproper : part ≠ front) : ∃ e, schema.decodeValue type part = .error e ∧ e.IsShort := by
  obtain ⟨missing, rfl⟩ := hpart
  rw [List.append_assoc] at h
  cases hd : schema.decodeValue type part with
  | ok result =>
    obtain ⟨value', rest'⟩ := result
    rw [decodeValue_append_of_ok hd] at h
    have hrest : rest' ++ (missing ++ rest) = rest := congrArg Prod.snd (Except.ok.inj h)
    have hlength := congrArg List.length hrest
    rw [List.length_append, List.length_append] at hlength
    have hnil : missing = [] := List.eq_nil_of_length_eq_zero (by omega)
    exact absurd (by rw [hnil, List.append_nil]) hproper
  | error e =>
    refine ⟨e, rfl, ?_⟩
    by_contra hshort
    have hsame := decodeValue_append_of_error hd hshort (missing ++ rest)
    rw [h] at hsame
    rcases hsame with heq | ⟨hendless, _⟩
    · cases heq
    · exact not_endless_ok _ hendless

/-! ## 2. Records -/

/-- A record is decoded when its discriminator fits into the bytes and its fields are decoded from
    what follows it. -/
theorem decodeRecord_ok : schema.decodeRecord record bytes = .ok shown ↔
    ∃ fields rest, schema.fields? record = some fields ∧
      (schema.discriminator record).length ≤ bytes.length ∧
      Decoder.fields (FieldType.decodeBy (schema.decodeNamed (schema.levelsFor bytes))) fields []
        (bytes.drop (schema.discriminator record).length) = .ok (shown, rest) := by
  unfold decodeRecord
  cases hfields : schema.fields? record with
  | none => simp
  | some fields =>
    by_cases hheader : bytes.length < (schema.discriminator record).length
    · simp [hheader, Nat.not_le.mpr hheader]
    · simp only [hheader, if_false, StateT.run', Option.some.injEq, exists_and_left,
        exists_eq_left', not_lt.mp hheader, true_and]
      cases Decoder.fields _ fields [] _ with
      | error e => simp
      | ok r =>
        obtain ⟨shown', rest⟩ := r
        simp

/-- A record is the same record in front of more bytes. -/
theorem decodeRecord_append (h : schema.decodeRecord record bytes = .ok shown)
    (more : List UInt8) : schema.decodeRecord record (bytes ++ more) = .ok shown := by
  obtain ⟨fields, rest, hfields, hheader, hdecode⟩ := decodeRecord_ok.mp h
  have hlevels : ∀ type : FieldType, Below bytes
      (type.decodeBy (schema.decodeNamed (schema.levelsFor bytes)))
      (type.decodeBy (schema.decodeNamed (schema.levelsFor (bytes ++ more)))) :=
    FieldType.below_decodeBy (schema.local_decodeNamed _)
      (decodeNamed_mono (levelsFor_mono schema bytes more))
  rcases below_fields (local_decodeValue schema · bytes) hlevels fields []
    (bytes.drop (schema.discriminator record).length) (List.drop_suffix _ _) with hendless | heq
  · rw [hdecode] at hendless
    exact absurd hendless (not_endless_ok _)
  · have hlocal := local_fields (local_decodeValue schema · (bytes ++ more)) fields []
    refine decodeRecord_ok.mpr ⟨fields, rest ++ more, hfields, ?_, ?_⟩
    · rw [List.length_append]
      omega
    · rw [List.drop_append_of_le_length hheader]
      exact hlocal.append (heq.symm.trans hdecode) more

/-! ## 3. Both -/

/-- **Decoding is local to a prefix.** Bytes that make up a value make it up in front of any bytes,
    which are left, and no proper part of them is a value: it fails for want of bytes. Bytes that
    fail otherwise fail in front of any bytes, with the same error; of a type that contains itself
    without a byte in between no end is reached with more bytes either. So a record is decoded from
    longer bytes as from these. -/
theorem decodeValue_local (schema : Schema) (type : FieldType) (bytes more : List UInt8) :
    (∀ value rest, schema.decodeValue type bytes = .ok (value, rest) →
      schema.decodeValue type (bytes ++ more) = .ok (value, rest ++ more) ∧
      ∃ front, bytes = front ++ rest ∧ ∀ part, part <+: front → part ≠ front →
        ∃ e, schema.decodeValue type part = .error e ∧ e.IsShort) ∧
    (∀ e, schema.decodeValue type bytes = .error e → ¬ e.IsShort →
      schema.decodeValue type (bytes ++ more) = .error e ∨
      (∃ path name, e = .endless path name) ∧ Endless (schema.decodeValue type (bytes ++ more))) ∧
    ∀ record shown, schema.decodeRecord record bytes = .ok shown →
      schema.decodeRecord record (bytes ++ more) = .ok shown := by
  refine ⟨fun value rest h => ⟨decodeValue_append_of_ok h more, ?_⟩, fun e h hshort => ?_,
    fun record shown h => decodeRecord_append h more⟩
  · obtain ⟨front, hbytes, _⟩ := (local_decodeValue schema type bytes).ok h
    rw [hbytes] at h
    exact ⟨front, hbytes, fun part hpart hproper => short_of_part h hpart hproper⟩
  · rcases decodeValue_append_of_error h hshort more with heq | ⟨hendless, path, name, he⟩
    · exact .inl heq
    · exact .inr ⟨⟨path, name, Except.error.inj he⟩, hendless⟩

/-- A schema of links: a label and perhaps another link. -/
def links : Schema :=
  empty.withStruct "Link" [⟨"label", .string⟩, ⟨"next", .option (.defined "Link")⟩]

/-- A link to an empty one: a byte after it is left alone, in six of its bytes there is no link, and
    a label that is no text is none whatever follows. -/
theorem decodeValue_link :
    (∃ value, links.decodeValue (.defined "Link") [1, 0, 0, 0, 97, 1, 0, 0, 0, 0, 0, 7]
        = .ok (value, [7]) ∧
      links.decodeValue (.defined "Link") [1, 0, 0, 0, 97, 1, 0, 0, 0, 0, 0, 7, 8]
        = .ok (value, [7, 8])) ∧
    (∃ e, links.decodeValue (.defined "Link") [1, 0, 0, 0, 97, 1] = .error e ∧ e.IsShort) ∧
    (links.decodeValue (.defined "Link") [1, 0, 0, 0, 255]
        = .error (.malformed ["label"] (.utf8 (.invalid 0 1))) ∧
      links.decodeValue (.defined "Link") [1, 0, 0, 0, 255, 0]
        = .error (.malformed ["label"] (.utf8 (.invalid 0 1)))) ∧
    links.decodeRecord "Link" [1, 0, 0, 0, 97, 0] = .ok [("label", .text "a"), ("next", .null)] ∧
    links.decodeRecord "Link" [1, 0, 0, 0, 97, 0, 9]
      = .ok [("label", .text "a"), ("next", .null)] := by
  have hok : links.decodeValue (.defined "Link") [1, 0, 0, 0, 97, 1, 0, 0, 0, 0, 0, 7]
      = .ok (.object [("label", .text "a"),
        ("next", .object [("label", .text ""), ("next", .null)])], [7]) := rfl
  have herror : links.decodeValue (.defined "Link") [1, 0, 0, 0, 255]
      = .error (.malformed ["label"] (.utf8 (.invalid 0 1))) := rfl
  have hrecord : links.decodeRecord "Link" [1, 0, 0, 0, 97, 0]
      = .ok [("label", .text "a"), ("next", .null)] := rfl
  obtain ⟨happend, front, hfront, hparts⟩ :=
    (decodeValue_local links (.defined "Link") _ [8]).1 _ _ hok
  have hfront' : front = [1, 0, 0, 0, 97, 1, 0, 0, 0, 0, 0] :=
    (List.append_cancel_right (hfront.symm.trans rfl))
  refine ⟨⟨_, hok, happend⟩, hparts _ ?_ ?_, ⟨herror, ?_⟩, hrecord,
    (decodeValue_local links (.defined "Link") _ [9]).2.2 _ _ hrecord⟩
  · rw [hfront']
    exact ⟨[0, 0, 0, 0, 0], rfl⟩
  · rw [hfront']
    decide
  · refine ((decodeValue_local links (.defined "Link") _ [0]).2.1 _ herror ?_).resolve_right ?_
    · rintro ⟨_, h⟩
      cases h
    · rintro ⟨⟨_, _, h⟩, _⟩
      cases h

end Schema

end LedgerScan
