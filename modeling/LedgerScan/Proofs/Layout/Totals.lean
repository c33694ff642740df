import LedgerScan.Proofs.Layout.Placed

/-!
# Layouts add up to lengths

The layout of a record and the length of its type look at the same fields. The layout starts behind
the discriminator with the record open; the length starts at zero, and opens the record when it
follows its name. Both are one sum (`Field.totalBy`), with two starts:

* `map_layoutOf`, `lengthOf_struct`: where a layout ends is the sum from the discriminator on, and
  the length is the sum from zero on;
* `Field.totalBy_raised`, `Field.totalBy_raised_error`: a sum that starts higher ends higher by as
  much, or is too great at some point;
* `Placed.offsets`: every field starts where the one before it ends.

`Schema.layoutOf_agrees` puts this together, for results and for errors.
-/

namespace LedgerScan

open Fallible

/-! ## 1. Sums with two starts -/

namespace Field

variable {named : String → Sizing Nat} {opened s : List String} {owner : String} {field : Field}
  {fields : List Field} {total raise m n : Nat} {e : LayoutError}

theorem totalBy_cons_of_error (h : field.type.lengthBy named opened = .error e) :
    Field.totalBy named owner (field :: fields) total opened
      = .error (.inField owner field.name e) :=
  totalBy_cons_error.mpr (.inl ⟨e, h, rfl⟩)

theorem totalBy_cons_of_exceeds (h : field.type.lengthBy named opened = .ok (m, s))
    (exceeds : maxLength < total + m) :
    Field.totalBy named owner (field :: fields) total opened = .error (.overflow owner) :=
  totalBy_cons_error.mpr (.inr ⟨m, s, h, .inl ⟨exceeds, rfl⟩⟩)

/-- Behind a field with a length the sum goes on from where the field ends. -/
theorem totalBy_cons_of_fits (h : field.type.lengthBy named opened = .ok (m, s))
    (fits : total + m ≤ maxLength) :
    Field.totalBy named owner (field :: fields) total opened
      = Field.totalBy named owner fields (total + m) s := by
  have hlength : Sizing.inField owner field.name (field.type.lengthBy named) opened = .ok (m, s) :=
    Sizing.inField_ok.mpr h
  have hchecked : Sizing.checked owner (total + m) s = .ok (total + m, s) :=
    Sizing.checked_ok.mpr ⟨fits, rfl⟩
  show (Sizing.inField owner field.name (field.type.lengthBy named) >>= fun m =>
    Sizing.checked owner (total + m) >>= fun t => Field.totalBy named owner fields t) opened = _
  rw [bind_of_ok hlength, bind_of_ok hchecked]

/-- Sums only grow. -/
theorem totalBy_le (h : Field.totalBy named owner fields total opened = .ok (n, s)) :
    total ≤ n := by
  induction fields generalizing total opened with
  | nil =>
    cases h
    exact le_rfl
  | cons field fields ih =>
    obtain ⟨m, s₁, _, _, hrest⟩ := totalBy_cons_ok.mp h
    have := ih hrest
    omega

/-- **A sum that starts higher ends higher by as much**, if that is not too great. -/
theorem totalBy_raised (h : Field.totalBy named owner fields total opened = .ok (n, s))
    (start : raise + total ≤ maxLength) :
    Field.totalBy named owner fields (raise + total) opened
      = Sizing.checked owner (raise + n) s := by
  induction fields generalizing total opened with
  | nil =>
    cases h
    exact (Sizing.checked_ok.mpr ⟨start, rfl⟩).symm
  | cons field fields ih =>
    obtain ⟨m, s₁, hm, _, hrest⟩ := totalBy_cons_ok.mp h
    by_cases fits : raise + total + m ≤ maxLength
    · rw [totalBy_cons_of_fits hm fits, Nat.add_assoc]
      exact ih hrest (by omega)
    · have hgrows : total + m ≤ n := totalBy_le hrest
      rw [totalBy_cons_of_exceeds hm (by omega)]
      exact (Sizing.checked_error.mpr ⟨by omega, rfl⟩).symm

/-- A sum that fails fails in the same way from a higher start, or it is too great before. -/
theorem totalBy_raised_error (h : Field.totalBy named owner fields total opened = .error e) :
    Field.totalBy named owner fields (raise + total) opened = .error e ∨
      Field.totalBy named owner fields (raise + total) opened = .error (.overflow owner) := by
  induction fields generalizing total opened with
  | nil => cases h
  | cons field fields ih =>
    cases hm : field.type.lengthBy named opened with
    | error cause =>
      rw [totalBy_cons_of_error hm] at h
      exact .inl ((totalBy_cons_of_error hm).trans h)
    | ok r =>
      obtain ⟨m, s⟩ := r
      by_cases exceeds : maxLength < raise + total + m
      · exact .inr (totalBy_cons_of_exceeds hm exceeds)
      · rw [totalBy_cons_of_fits hm (by omega)] at h
        rw [totalBy_cons_of_fits hm (by omega), Nat.add_assoc]
        exact ih h

end Field

/-! ## 2. Lengths and layouts as sums -/

namespace Schema

variable {schema : Schema} {record : String} {fields : List Field} {offset total : Nat}
  {placed : List (String × Placement)} {opened : List String} {e : LayoutError}

/-- Placing fields adds up their lengths, and fails as the sum does. -/
theorem map_place (schema : Schema) (record : String) (fields : List Field) (offset : Nat)
    (opened : List String) :
    (schema.place record fields offset opened).map (fun r => (r.1.2, r.2))
      = Field.totalBy (schema.lengthOfNamed schema.types.length) record fields offset opened := by
  induction fields generalizing offset opened with
  | nil => rfl
  | cons field fields ih =>
    show ((Sizing.inField record field.name (schema.sizing field.type) >>= fun length =>
      Sizing.checked record (offset + length) >>= fun stop =>
      schema.place record fields stop >>= fun rest =>
      pure ((field.name, (⟨offset, length, field.type⟩ : Placement)) :: rest.1, rest.2))
        opened).map _ = _
    cases hm : schema.sizing field.type opened with
    | error cause =>
      have hfield : Sizing.inField record field.name (schema.sizing field.type) opened
          = .error (.inField record field.name cause) := Sizing.inField_error.mpr ⟨_, hm, rfl⟩
      rw [bind_of_error hfield, Field.totalBy_cons_of_error hm]
      rfl
    | ok r =>
      obtain ⟨length, s⟩ := r
      have hfield : Sizing.inField record field.name (schema.sizing field.type) opened
          = .ok (length, s) := Sizing.inField_ok.mpr hm
      rw [bind_of_ok hfield]
      by_cases fits : offset + length ≤ maxLength
      · have hchecked : Sizing.checked record (offset + length) s = .ok (offset + length, s) :=
          Sizing.checked_ok.mpr ⟨fits, rfl⟩
        rw [bind_of_ok hchecked, Field.totalBy_cons_of_fits hm fits, ← ih]
        cases hrest : schema.place record fields (offset + length) s with
        | error cause =>
          rw [bind_of_error hrest]
        | ok rest =>
          rw [bind_of_ok hrest]
          rfl
      · have hchecked : Sizing.checked record (offset + length) s = .error (.overflow record) :=
          Sizing.checked_error.mpr ⟨by omega, rfl⟩
        rw [bind_of_error hchecked, Field.totalBy_cons_of_exceeds hm (by omega)]
        rfl

/-- **Where a layout ends is the sum of the lengths of the fields**, from the end of the
    discriminator on. -/
theorem map_layoutOf (found : schema.find? record = some (.struct fields)) :
    (schema.layoutOf record).map RecordLayout.totalLength
      = (Field.totalBy (schema.lengthOfNamed schema.types.length) record fields
          (schema.discriminator record).length [record]).map Prod.fst := by
  rw [← map_place]
  unfold layoutOf
  rw [found]
  simp only [StateT.run']
  cases schema.place record fields (schema.discriminator record).length [record] <;> rfl

/-- **The length of a structure is the sum of the lengths of its fields.** It does not matter that
    one level less is left for them when the name of the structure is followed. -/
theorem lengthOf_struct (found : schema.find? record = some (.struct fields)) :
    schema.lengthOf (.defined record)
      = (Field.totalBy (schema.lengthOfNamed schema.types.length) record fields 0
          [record]).map Prod.fst := by
  have hopen : (schema.unopened [record]).length < schema.types.length :=
    (unopened_cons_lt found List.not_mem_nil).trans_eq unopened_nil_length
  obtain ⟨below, hbelow⟩ : ∃ below, schema.types.length = below + 1 :=
    ⟨schema.types.length - 1, by omega⟩
  have hlevels : ∀ name, schema.lengthOfNamed below name [record]
      = schema.lengthOfNamed schema.types.length name [record] := fun name =>
    lengthOfNamed_levels below schema.types.length name [record] (by omega) (by omega)
  have hnamed : schema.lengthOfNamed schema.types.length record []
      = Sizing.opening record
          (Field.totalBy (schema.lengthOfNamed below) record fields 0) [] := by
    rw [hbelow]
    unfold lengthOfNamed
    rw [if_neg List.not_mem_nil, found]
  show (schema.lengthOfNamed schema.types.length record []).map Prod.fst = _
  rw [hnamed, Sizing.opening, Field.totalBy_congr (schema.lengthOfNamed_frames below) hlevels]
  cases Field.totalBy (schema.lengthOfNamed schema.types.length) record fields 0 [record] <;> rfl

/-- A record has no layout for just the reason for which the sum fails. -/
theorem layoutOf_eq_error (found : schema.find? record = some (.struct fields)) :
    schema.layoutOf record = .error e ↔
      Field.totalBy (schema.lengthOfNamed schema.types.length) record fields
        (schema.discriminator record).length [record] = .error e := by
  rw [← except_map_eq_error (f := Prod.fst), ← map_layoutOf found, except_map_eq_error]

/-! ## 3. Placements -/

/-- The fields of a placement are those of the definition, in their order. -/
theorem Placed.fields_eq (h : schema.Placed fields offset placed total) :
    placed.map (fun p => (⟨p.1, p.2.type⟩ : Field)) = fields := by
  induction h with
  | nil => rfl
  | cons _ _ _ ih => rw [List.map_cons, ih]

/-- **Every field starts where the one before it ends**: the offsets of the fields with the total
    behind them are the first offset with the ends of the fields behind it. -/
theorem Placed.offsets (h : schema.Placed fields offset placed total) :
    placed.map (·.2.offset) ++ [total] = offset :: placed.map (·.2.stop) := by
  induction h with
  | nil => rfl
  | cons _ _ _ ih =>
    rw [List.map_cons, List.cons_append, ih]
    rfl

/-! ## 4. Agreement -/

/-- **Layouts and lengths agree, errors included.** Without a discriminator a record has a layout
    exactly if its type has a length; the layout ends there, and the errors are the same. Behind a
    discriminator the layout ends higher by the length of the discriminator, or the record is too
    long; if there is no length, the layout fails for the same reason or because the record is too
    long before. A layout has the fields of the definition in their order, each with the length of
    its type. They follow each other without gaps from the discriminator to the end. (That the
    discriminator alone is not too long holds of all bytes that can be kept; of a list it has to be
    said, as only lengths that are added are checked.) -/
theorem layoutOf_agrees (schema : Schema) {record : String} {fields : List Field}
    (found : schema.find? record = some (.struct fields)) :
    let header := (schema.discriminator record).length
    (header = 0 → (schema.layoutOf record).map RecordLayout.totalLength
      = schema.lengthOf (.defined record)) ∧
    (∀ n, schema.lengthOf (.defined record) = .ok n →
      (header + n ≤ maxLength → ∃ layout, schema.layoutOf record = .ok layout ∧
        layout.totalLength = header + n) ∧
      (header ≤ maxLength → maxLength < header + n →
        schema.layoutOf record = .error (.overflow record))) ∧
    (∀ e, schema.lengthOf (.defined record) = .error e →
      schema.layoutOf record = .error e ∨ schema.layoutOf record = .error (.overflow record)) ∧
    ∀ layout, schema.layoutOf record = .ok layout →
      layout.headerLength = header ∧
      layout.fields.map (fun p => (⟨p.1, p.2.type⟩ : Field)) = fields ∧
      layout.fields.map (·.2.offset) ++ [layout.totalLength]
        = header :: layout.fields.map (·.2.stop) ∧
      ∀ p ∈ layout.fields, schema.lengthOf p.2.type = .ok p.2.length := by
  intro header
  have hlayout := map_layoutOf found
  have hlength := lengthOf_struct found
  refine ⟨fun hzero => ?_, fun n hn => ?_, fun e he => ?_, fun layout laid => ?_⟩
  · rw [hlayout, hlength]
    exact congrArg (fun start => (Field.totalBy (schema.lengthOfNamed schema.types.length) record
      fields start [record]).map Prod.fst) hzero
  · rw [hlength] at hn
    obtain ⟨⟨n, s⟩, hsum, rfl⟩ := except_map_eq_ok.mp hn
    constructor
    · intro fits
      have hraised := Field.totalBy_raised hsum (show header + 0 ≤ maxLength by omega)
      have hchecked : Sizing.checked record (header + n) s = .ok (header + n, s) :=
        Sizing.checked_ok.mpr ⟨fits, rfl⟩
      have htotal := hlayout.trans (congrArg (Except.map Prod.fst) (hraised.trans hchecked))
      exact except_map_eq_ok.mp htotal
    · intro start exceeds
      have hraised := Field.totalBy_raised hsum (show header + 0 ≤ maxLength from start)
      have hchecked : Sizing.checked record (header + n) s = .error (.overflow record) :=
        Sizing.checked_error.mpr ⟨exceeds, rfl⟩
      exact (layoutOf_eq_error found).mpr (hraised.trans hchecked)
  · rw [hlength] at he
    have hsum := except_map_eq_error.mp he
    rw [layoutOf_eq_error found, layoutOf_eq_error found]
    exact Field.totalBy_raised_error hsum
  · obtain ⟨_, found', _, hheader, placed⟩ := placed_of_layoutOf laid
    rw [found] at found'
    cases found'
    have hoffsets := placed.offsets
    rw [hheader] at hoffsets
    exact ⟨hheader, placed.fields_eq, hoffsets, fun p hp => (placed.bounds p hp).2.2.2⟩

/-- A line ends behind its discriminator and its two points; a hen has no layout for the reason for
    which it has no length. -/
theorem layoutOf_lines :
    (∃ layout, (lines.withDiscriminator "Line" [1, 2, 3]).layoutOf "Line" = .ok layout ∧
      layout.totalLength = 19) ∧
    (lines.layoutOf "Hen").map RecordLayout.totalLength = lines.lengthOf (.defined "Hen") := by
  have line : (lines.withDiscriminator "Line" [1, 2, 3]).find? "Line"
      = some (.struct [⟨"from", .defined "Point"⟩, ⟨"to", .defined "Point"⟩]) := by
    decide +kernel
  have hen : lines.find? "Hen" = some (.struct [⟨"egg", .defined "Egg"⟩]) := by decide +kernel
  have length : (lines.withDiscriminator "Line" [1, 2, 3]).lengthOf (.defined "Line")
      = .ok 16 := by
    decide +kernel
  exact ⟨((layoutOf_agrees _ line).2.1 16 length).1 (by decide +kernel),
    (layoutOf_agrees lines hen).1 (by decide +kernel)⟩

end Schema

end LedgerScan
