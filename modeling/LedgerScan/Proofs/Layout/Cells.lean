import LedgerScan.Proofs.Layout.Totals

/-!
# The cells of a record

A value of a fixed length is made of cells, the primitives and the enumerations in it. They have no
parts of their own. The cells come in the order in which they are declared, those of a field or of
an element all together, and each has a path: the names of the fields and the indices of the
elements that lead to it.

* `Schema.cells` are the cells of a type that lies at some offset, `RecordLayout.cells` those of a
  record. Where they lie is reckoned from the lengths of types alone, not from any bytes;
* `Cell.Tiled`: nothing is left out and nothing overlaps. Each cell starts where the one before it
  ends (`Sized.tiled`), in a record from the discriminator to the end (`tiled_cells_of_layoutOf`);
* `Schema.Named`: no field of a structure inside a type has an empty name, so no path has an empty
  segment (`namedPath_of_mem_cells`).
-/

namespace LedgerScan

open Relation

/-! ## 1. Cells -/

/-- What a cell holds: a primitive, or the index of a variant of an enumeration. -/
inductive Cell.Content where
  | primitive (p : Primitive)
  | enum (name : String) (variants : List Variant)
  deriving DecidableEq, Repr

/-- The bytes that a cell takes. -/
def Cell.Content.width : Cell.Content → Nat
  | .primitive p => p.width
  | .enum _ _ => 1

/-- A part of a value that has no parts of its own. -/
structure Cell where
  /-- The names and indices that lead to it, the outermost first. -/
  path : List String
  offset : Nat
  content : Cell.Content
  deriving DecidableEq, Repr

namespace Cell

/-- Where a cell ends. -/
def stop (cell : Cell) : Nat :=
  cell.offset + cell.content.width

/-- The cell seen from one step further out. -/
def within (segment : String) (cell : Cell) : Cell :=
  { cell with path := segment :: cell.path }

@[simp] theorem offset_within (segment : String) (cell : Cell) :
    (cell.within segment).offset = cell.offset := rfl

@[simp] theorem stop_within (segment : String) (cell : Cell) :
    (cell.within segment).stop = cell.stop := rfl

end Cell

/-- The length of a type, zero if it has none. -/
def Schema.lengthAt (schema : Schema) (type : FieldType) : Nat :=
  match schema.lengthOf type with
  | .ok length => length
  | .error _ => 0

/-- The cells of a type that lies at an offset, given those of names. A type whose values differ in
    length has none. -/
def FieldType.cellsBy (schema : Schema) (named : String → Nat → List Cell) :
    FieldType → Nat → List Cell
  | .primitive p, offset => [⟨[], offset, .primitive p⟩]
  | .array element count, offset =>
    (List.range count).flatMap fun i =>
      (element.cellsBy schema named (offset + schema.lengthAt element * i)).map
        (Cell.within (toString i))
  | .defined name, offset => named name offset
  | .option _, _ | .vec _, _ | .string, _ | .bytes, _ | .map _ _, _ => []

/-- The cells of the fields of a structure, the first of which lies at an offset. -/
def Field.cellsBy (schema : Schema) (cells : FieldType → Nat → List Cell) :
    List Field → Nat → List Cell
  | [], _ => []
  | field :: fields, offset =>
    (cells field.type offset).map (Cell.within field.name)
      ++ cellsBy schema cells fields (offset + schema.lengthAt field.type)

namespace Schema

/-- The cells of a name, following names to a bounded number of levels. -/
def cellsNamed (schema : Schema) (levels : Nat) (name : String) (offset : Nat) : List Cell :=
  match schema.find? name with
  | none => []
  | some (.enum variants) => [⟨[], offset, .enum name variants⟩]
  | some (.struct fields) =>
    match levels with
    | 0 => []
    | levels + 1 =>
      Field.cellsBy schema (FieldType.cellsBy schema (schema.cellsNamed levels)) fields offset

/-- **The cells of a type** that lies at an offset. -/
def cells (schema : Schema) (type : FieldType) (offset : Nat) : List Cell :=
  type.cellsBy schema (schema.cellsNamed schema.types.length) offset

end Schema

/-- **The cells of a record**, those of each field at the place of the field. -/
def RecordLayout.cells (layout : RecordLayout) (schema : Schema) : List Cell :=
  layout.fields.flatMap fun field =>
    (schema.cells field.2.type field.2.offset).map (Cell.within field.1)

/-! ## 2. Nothing between them -/

namespace Cell

variable {start middle stop : Nat} {cells more : List Cell}

/-- **Cells that follow each other** from one offset to another: each starts where the one before it
    ends. -/
def Tiled (start : Nat) (cells : List Cell) (stop : Nat) : Prop :=
  cells.map Cell.offset ++ [stop] = start :: cells.map Cell.stop

theorem tiled_nil (offset : Nat) : Tiled offset [] offset := rfl

theorem tiled_singleton (cell : Cell) : Tiled cell.offset [cell] cell.stop := rfl

theorem Tiled.append (h : Tiled start cells middle) (h' : Tiled middle more stop) :
    Tiled start (cells ++ more) stop := by
  unfold Tiled at h h' ⊢
  calc (cells ++ more).map Cell.offset ++ [stop]
      = cells.map Cell.offset ++ (more.map Cell.offset ++ [stop]) := by
        rw [List.map_append, List.append_assoc]
    _ = (cells.map Cell.offset ++ [middle]) ++ more.map Cell.stop := by
        rw [h', List.append_assoc, List.singleton_append]
    _ = start :: (cells ++ more).map Cell.stop := by
        rw [h, List.map_append, List.cons_append]

/-- The first cell starts where all of them do, and the others follow it. -/
theorem tiled_cons {cell : Cell} :
    Tiled start (cell :: cells) stop ↔ cell.offset = start ∧ Tiled cell.stop cells stop :=
  List.cons_eq_cons

/-- None of them lies before the start or beyond the end. -/
theorem Tiled.bounds (h : Tiled start cells stop) :
    start ≤ stop ∧ ∀ cell ∈ cells, start ≤ cell.offset ∧ cell.stop ≤ stop := by
  induction cells generalizing start with
  | nil => exact ⟨(List.cons.inj h).1.ge, nofun⟩
  | cons cell cells ih =>
    obtain ⟨rfl, hrest⟩ := tiled_cons.mp h
    have hwidth : cell.offset ≤ cell.stop := Nat.le_add_right _ _
    obtain ⟨hstop, hcells⟩ := ih hrest
    refine ⟨hwidth.trans hstop, List.forall_mem_cons.mpr ⟨⟨le_rfl, hstop⟩, fun other hother => ?_⟩⟩
    exact ⟨hwidth.trans (hcells other hother).1, (hcells other hother).2⟩

theorem Tiled.within (h : Tiled start cells stop) (segment : String) :
    Tiled start (cells.map (Cell.within segment)) stop := by
  unfold Tiled at h ⊢
  simpa [Function.comp_def] using h

/-- No segment of the path is empty. -/
def NamedPath (cell : Cell) : Prop :=
  ∀ segment ∈ cell.path, segment ≠ ""

end Cell

namespace Schema

open Cell

variable {schema : Schema} {depth length total : Nat} {type : FieldType} {record : String}
  {layout : RecordLayout} {fields : List Field} {rows : List (String × Placement)}

theorem lengthAt_of_lengthOf (h : schema.lengthOf type = .ok length) :
    schema.lengthAt type = length := by
  unfold lengthAt
  rw [h]

theorem Sized.lengthAt_eq (h : schema.Sized depth type length) : schema.lengthAt type = length :=
  lengthAt_of_lengthOf (lengthOf_of_sized h)

theorem tiled_array {cells : Nat → List Cell}
    (h : ∀ offset, Tiled offset (cells offset) (offset + length)) (offset count : Nat) :
    Tiled offset ((List.range count).flatMap fun i =>
      (cells (offset + length * i)).map (Cell.within (toString i))) (offset + length * count) := by
  induction count with
  | zero => exact tiled_nil offset
  | succ count ih =>
    have hlast := (h (offset + length * count)).within (toString count)
    rw [List.range_succ, List.flatMap_append, List.flatMap_singleton, Nat.mul_succ, ← Nat.add_assoc]
    exact ih.append hlast

theorem tiled_fields {cells : FieldType → Nat → List Cell}
    (h : ∀ field ∈ fields, ∀ offset,
      Tiled offset (cells field.type offset) (offset + schema.lengthAt field.type)) :
    ∀ offset, Tiled offset (Field.cellsBy schema cells fields offset)
      (offset + (fields.map fun field => schema.lengthAt field.type).sum) := by
  induction fields with
  | nil => exact tiled_nil
  | cons field fields ih =>
    intro offset
    rw [List.forall_mem_cons] at h
    have hfirst := (h.1 offset).within field.name
    rw [List.map_cons, List.sum_cons, ← Nat.add_assoc]
    exact hfirst.append (ih h.2 _)

/-- The lengths of the fields in a derivation are those that are found. -/
theorem sum_lengthAt {lengthAt : FieldType → Nat}
    (h : ∀ field ∈ fields, schema.Sized depth field.type (lengthAt field.type)) :
    (fields.map fun field => schema.lengthAt field.type).sum
      = (fields.map fun field => lengthAt field.type).sum :=
  congrArg List.sum (List.map_congr_left fun field hfield => (h field hfield).lengthAt_eq)

/-- **The cells of a type take up its length**, by induction on the derivation of the length. -/
theorem Sized.tiled (h : schema.Sized depth type length) :
    ∀ levels, depth ≤ levels → ∀ offset,
      Tiled offset (type.cellsBy schema (schema.cellsNamed levels) offset) (offset + length) := by
  induction h with
  | primitive p => exact fun _ _ offset => tiled_singleton ⟨[], offset, .primitive p⟩
  | array count sized _ ih =>
    intro levels hlevels offset
    unfold FieldType.cellsBy
    rw [sized.lengthAt_eq]
    exact tiled_array (ih levels hlevels) offset count
  | @enum _ name variants found _ =>
    intro levels _ offset
    show Tiled offset (schema.cellsNamed levels name offset) (offset + 1)
    unfold cellsNamed
    rw [found]
    exact tiled_singleton ⟨[], offset, .enum name variants⟩
  | @struct _ name fields found lengthAt sized _ ih =>
    intro levels hlevels offset
    obtain ⟨below, rfl⟩ : ∃ m, levels = m + 1 := ⟨levels - 1, by omega⟩
    show Tiled offset (schema.cellsNamed (below + 1) name offset) _
    unfold cellsNamed
    rw [found, ← sum_lengthAt sized]
    refine tiled_fields (fun field hfield start => ?_) offset
    rw [(sized field hfield).lengthAt_eq]
    exact ih field hfield below (by omega) start

theorem tiled_cells (h : schema.lengthOf type = .ok length) (offset : Nat) :
    Tiled offset (schema.cells type offset) (offset + length) :=
  (sized_of_lengthOf h).tiled schema.types.length le_rfl offset

theorem Placed.tiled {offset : Nat} (placed : schema.Placed fields offset rows total) :
    Tiled offset
      (rows.flatMap fun field =>
        (schema.cells field.2.type field.2.offset).map (Cell.within field.1)) total := by
  induction placed with
  | nil offset => exact tiled_nil offset
  | cons sized _ _ ih => exact ((tiled_cells sized _).within _).append ih

/-- **The cells of a record follow each other** from the discriminator to the end. -/
theorem tiled_cells_of_layoutOf (laid : schema.layoutOf record = .ok layout) :
    Tiled layout.headerLength (layout.cells schema) layout.totalLength := by
  obtain ⟨_, _, _, _, placed⟩ := placed_of_layoutOf laid
  exact placed.tiled

/-! ## 3. Names -/

/-- No field of a structure that lies inside a type has an empty name. -/
def Named (schema : Schema) (type : FieldType) : Prop :=
  ∀ name fields, ReflTransGen schema.Embeds type (.defined name) →
    schema.find? name = some (.struct fields) → ∀ field ∈ fields, field.name ≠ ""

theorem Named.part {part : FieldType} (h : schema.Named type) (embeds : schema.Embeds type part) :
    schema.Named part :=
  fun name fields reaches => h name fields (.head embeds reaches)

theorem namedPath_within {cell : Cell} {segment : String} (h : cell.NamedPath)
    (hsegment : segment ≠ "") : (cell.within segment).NamedPath :=
  List.forall_mem_cons.mpr ⟨hsegment, h⟩

theorem namedPath_fields {cells : FieldType → Nat → List Cell}
    (h : ∀ field ∈ fields, field.name ≠ "" ∧
      ∀ offset, ∀ cell ∈ cells field.type offset, cell.NamedPath) :
    ∀ offset, ∀ cell ∈ Field.cellsBy schema cells fields offset, cell.NamedPath := by
  induction fields with
  | nil => exact fun _ cell hcell => by cases hcell
  | cons field fields ih =>
    intro offset cell hcell
    rw [List.forall_mem_cons] at h
    rcases List.mem_append.mp hcell with hfirst | hrest
    · obtain ⟨inner, hinner, rfl⟩ := List.mem_map.mp hfirst
      exact namedPath_within (h.1.2 offset inner hinner) h.1.1
    · exact ih h.2 _ cell hrest

/-- **No path in a type has an empty segment** if no field inside the type has an empty name. -/
theorem Sized.namedPath (h : schema.Sized depth type length) :
    ∀ levels, depth ≤ levels → schema.Named type →
      ∀ offset, ∀ cell ∈ type.cellsBy schema (schema.cellsNamed levels) offset,
        cell.NamedPath := by
  induction h with
  | primitive p =>
    intro levels _ _ offset cell hcell
    rw [List.mem_singleton.mp hcell]
    exact List.forall_mem_nil _
  | @array _ _ element count _ _ ih =>
    intro levels hlevels named offset cell hcell
    obtain ⟨i, _, hcell⟩ := List.mem_flatMap.mp hcell
    obtain ⟨inner, hinner, rfl⟩ := List.mem_map.mp hcell
    exact namedPath_within (ih levels hlevels (named.part (.element element count)) _ inner hinner)
      Nat.repr_ne_empty
  | @enum _ name variants found _ =>
    intro levels _ _ offset cell hcell
    have hcell' : cell ∈ schema.cellsNamed levels name offset := hcell
    unfold cellsNamed at hcell'
    rw [found] at hcell'
    rw [List.mem_singleton.mp hcell']
    exact List.forall_mem_nil _
  | @struct _ name fields found _ _ _ ih =>
    intro levels hlevels named offset cell hcell
    obtain ⟨below, rfl⟩ : ∃ m, levels = m + 1 := ⟨levels - 1, by omega⟩
    have hcell' : cell ∈ schema.cellsNamed (below + 1) name offset := hcell
    unfold cellsNamed at hcell'
    rw [found] at hcell'
    refine namedPath_fields (fun field hfield => ⟨?_, ?_⟩) offset cell hcell'
    · exact named name fields .refl found field hfield
    · exact ih field hfield below (by omega) (named.part (.field found hfield))

/-- So no path in a record has one. -/
theorem namedPath_of_mem_cells (laid : schema.layoutOf record = .ok layout)
    (named : schema.Named (.defined record)) : ∀ cell ∈ layout.cells schema, cell.NamedPath := by
  obtain ⟨fields, found, _, _, placed⟩ := placed_of_layoutOf laid
  intro cell hcell
  obtain ⟨row, hrow, hcell⟩ := List.mem_flatMap.mp hcell
  obtain ⟨inner, hinner, rfl⟩ := List.mem_map.mp hcell
  -- the row is that of a field of the record
  have hfield : (⟨row.1, row.2.type⟩ : Field) ∈ fields :=
    placed.fields_eq ▸ List.mem_map_of_mem hrow
  have sized := sized_of_lengthOf (placed.bounds row hrow).2.2.2
  have part := named.part (.field found hfield)
  exact namedPath_within (sized.namedPath schema.types.length le_rfl part _ inner hinner)
    (named record fields .refl found _ hfield)

end Schema

end LedgerScan
