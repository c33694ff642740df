import LedgerScan.Proofs.Layout.Lengths

/-!
# Where the fields of a record lie

A layout places the fields one after the other behind the discriminator: `Schema.Placed` is that
walk, and `placed_of_layoutOf` makes one of every layout. Two fields never overlap
(`Placed.apart`), and no field lies outside the record (`Placed.bounds`). The bytes of a field are
the `slice` of its place.
-/

namespace LedgerScan

open Fallible

/-- The bytes at a place. -/
def Placement.slice (place : Placement) (data : List UInt8) : List UInt8 :=
  (data.drop place.offset).take place.length

theorem Placement.length_slice {place : Placement} {data : List UInt8}
    (h : place.stop ≤ data.length) : (place.slice data).length = place.length := by
  have : place.offset + place.length ≤ data.length := h
  rw [slice, List.length_take, List.length_drop]
  omega

theorem Placement.slice_take {place : Placement} {data : List UInt8} {total : Nat}
    (inside : place.stop ≤ total) : place.slice (data.take total) = place.slice data := by
  unfold Placement.stop at inside
  rw [slice, List.drop_take, List.take_take, Nat.min_eq_left (by omega), slice]

namespace Schema

/-- **Fields placed one after the other** from an offset on, each with the length of its type;
    `total` is where the last one ends. -/
inductive Placed (schema : Schema) :
    List Field → (offset : Nat) → List (String × Placement) → (total : Nat) → Prop where
  | nil (offset : Nat) : Placed schema [] offset [] offset
  | cons {field : Field} {fields : List Field} {offset length total : Nat}
      {placed : List (String × Placement)} (sized : schema.lengthOf field.type = .ok length)
      (fits : offset + length ≤ maxLength)
      (rest : Placed schema fields (offset + length) placed total) :
      Placed schema (field :: fields) offset
        ((field.name, ⟨offset, length, field.type⟩) :: placed) total

variable {schema : Schema} {record : String} {fields : List Field} {offset total : Nat}
  {placed : List (String × Placement)} {opened s : List String}

/-! ## 1. Layouts are placements -/

theorem place_cons_ok {field : Field} {r : List (String × Placement) × Nat} :
    schema.place record (field :: fields) offset opened = .ok (r, s) ↔
      ∃ length s₁ placed, schema.sizing field.type opened = .ok (length, s₁) ∧
        offset + length ≤ maxLength ∧
        schema.place record fields (offset + length) s₁ = .ok ((placed, r.2), s) ∧
        r.1 = (field.name, ⟨offset, length, field.type⟩) :: placed := by
  show (Sizing.inField record field.name (schema.sizing field.type) >>= fun length =>
    Sizing.checked record (offset + length) >>= fun stop =>
    schema.place record fields stop >>= fun rest =>
    pure ((field.name, (⟨offset, length, field.type⟩ : Placement)) :: rest.1, rest.2)) opened = _
      ↔ _
  obtain ⟨rows, total⟩ := r
  simp only [bind_eq_ok_iff, Sizing.inField_ok, Sizing.checked_ok, pure_apply, Except.ok.injEq,
    Prod.mk.injEq]
  constructor
  · rintro ⟨length, _, hlength, _, s₁, ⟨fits, rfl, rfl⟩, ⟨rest, _⟩, _, hrest, ⟨hrows, rfl⟩, rfl⟩
    exact ⟨length, s₁, rest, hlength, fits, hrest, hrows.symm⟩
  · rintro ⟨length, s₁, rest, hlength, fits, hrest, hrows⟩
    exact ⟨length, s₁, hlength, _, _, ⟨fits, rfl, rfl⟩, (rest, total), s, hrest, ⟨hrows.symm, rfl⟩,
      rfl⟩

theorem placed_of_place :
    ∀ (fields : List Field) {offset total : Nat} {placed : List (String × Placement)}
      {opened s : List String},
      schema.place record fields offset opened = .ok ((placed, total), s) →
      schema.Placed fields offset placed total
  | [], _, _, _, _, _, h => by cases h; exact .nil _
  | field :: fields, _, _, _, _, _, h => by
      obtain ⟨length, s₁, placed, hlength, fits, hrest, rfl⟩ := place_cons_ok.mp h
      exact .cons (lengthOf_of_sized (lengthBy_sized hlength)) fits (placed_of_place fields hrest)

/-- **A layout places the fields of its record** behind the discriminator. -/
theorem placed_of_layoutOf {layout : RecordLayout} (h : schema.layoutOf record = .ok layout) :
    ∃ fields, schema.find? record = some (.struct fields) ∧ layout.record = record ∧
      layout.headerLength = (schema.discriminator record).length ∧
      schema.Placed fields layout.headerLength layout.fields layout.totalLength := by
  unfold layoutOf at h
  cases found : schema.find? record with
  | none => rw [found] at h; cases h
  | some definition =>
    rw [found] at h
    cases definition with
    | enum variants => cases h
    | struct fields =>
      cases hp : schema.place record fields (schema.discriminator record).length [record] with
      | error e =>
        simp only [StateT.run', hp] at h
        cases h
      | ok r =>
        obtain ⟨⟨placed, total⟩, s⟩ := r
        simp only [StateT.run', hp] at h
        cases h
        exact ⟨fields, rfl, rfl, rfl, placed_of_place fields hp⟩

/-! ## 2. What a placement keeps -/

theorem Placed.names (h : schema.Placed fields offset placed total) :
    placed.map (·.1) = fields.map (·.name) := by
  induction h with
  | nil => rfl
  | cons _ _ _ ih => simp [ih]

/-- Every field has a place of its type. -/
theorem Placed.exists_place (h : schema.Placed fields offset placed total) :
    ∀ field ∈ fields, ∃ place, (field.name, place) ∈ placed ∧ place.type = field.type := by
  induction h with
  | nil => exact nofun
  | cons _ _ _ ih =>
    intro field hfield
    rcases List.mem_cons.mp hfield with rfl | hfield
    · exact ⟨_, List.mem_cons_self, rfl⟩
    · obtain ⟨place, hplace, htype⟩ := ih field hfield
      exact ⟨place, List.mem_cons_of_mem _ hplace, htype⟩

theorem Placed.le (h : schema.Placed fields offset placed total) : offset ≤ total := by
  induction h with
  | nil => exact le_rfl
  | cons _ _ _ ih => omega

/-- Every field lies inside the record, has the length of its type and ends within 64 bits. -/
theorem Placed.bounds (h : schema.Placed fields offset placed total) :
    ∀ p ∈ placed, offset ≤ p.2.offset ∧ p.2.stop ≤ total ∧ p.2.stop ≤ maxLength ∧
      schema.lengthOf p.2.type = .ok p.2.length := by
  induction h with
  | nil => exact fun p hp => by cases hp
  | cons sized fits rest ih =>
    intro p hp
    rcases List.mem_cons.mp hp with rfl | hp
    · exact ⟨le_rfl, rest.le, fits, sized⟩
    · obtain ⟨hfrom, hto⟩ := ih p hp
      exact ⟨by omega, hto⟩

/-- The last field is the one that the record ends with, so the record ends within 64 bits. -/
theorem Placed.total_le (h : schema.Placed fields offset placed total) (nonempty : placed ≠ []) :
    total ≤ maxLength := by
  induction h with
  | nil => exact absurd rfl nonempty
  | cons _ fits rest ih =>
    cases rest with
    | nil => exact fits
    | cons => exact ih (List.cons_ne_nil _ _)

/-- **Two fields are the same or apart.** -/
theorem Placed.apart (h : schema.Placed fields offset placed total) :
    ∀ p ∈ placed, ∀ q ∈ placed, p = q ∨ p.2.stop ≤ q.2.offset ∨ q.2.stop ≤ p.2.offset := by
  induction h with
  | nil => exact fun p hp => by cases hp
  | cons _ _ rest ih =>
    -- the head stops where the bounds of the others start
    intro p hp q hq
    rcases List.mem_cons.mp hp with rfl | hp <;> rcases List.mem_cons.mp hq with rfl | hq
    · exact .inl rfl
    · exact .inr (.inl (rest.bounds q hq).1)
    · exact .inr (.inr (rest.bounds p hp).1)
    · exact ih p hp q hq

end Schema

end LedgerScan
