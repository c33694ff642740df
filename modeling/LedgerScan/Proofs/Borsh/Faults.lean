import LedgerScan.Proofs.Borsh.Record
import LedgerScan.Proofs.Layout.Cells

/-!
# The first cell that is at fault

Of a cell two things can be wrong: the bytes end inside it, or it holds the index of no variant
(`Cell.Fails`). The decoder knows nothing of offsets. It takes bytes off the front, and an error is
given its path on the way out, one segment for each field and each element. The cells are laid out
without the bytes. That the two agree is `Decoder.Finds`: a decoder comes from one offset to another
with all its cells in order, or it fails as the first of them that is not.

* Each piece of the decoder has a lemma that says which cells it finds (`Finds.bind`,
  `finds_items`, `finds_fields`, …), so `Sized.finds` follows a derivation of the length;
* `Placed.finds` goes on along the places of a record;
* `decodeRecord_faults`: which data is no record, and what is said of it.
-/

namespace LedgerScan

open Fallible

/-! ## 1. Faults -/

/-- The byte in a cell of an enumeration is the index of none of its variants. -/
def Cell.OutOfRange (data : List UInt8) (cell : Cell) (name : String) (tag : UInt8) : Prop :=
  ∃ variants, cell.content = .enum name variants ∧ data[cell.offset]? = some tag ∧
    variants.length ≤ tag.toNat

/-- **What is wrong with a cell of some data**, with the error that says so. -/
inductive Cell.Fails (data : List UInt8) (cell : Cell) : DecodeError → Prop where
  /-- The bytes end inside it. -/
  | short (past : data.length < cell.stop) : Cell.Fails data cell (.malformed cell.path .shortRead)
  /-- It holds the index of no variant. -/
  | index {name : String} {tag : UInt8} (outside : cell.OutOfRange data name tag) :
      Cell.Fails data cell (.malformed cell.path (.variantIndex tag.toNat name))

namespace Cell

variable {data : List UInt8} {cell : Cell} {e : DecodeError} {name segment : String} {tag : UInt8}

theorem exists_fails_iff : (∃ e, cell.Fails data e) ↔
    data.length < cell.stop ∨ ∃ name tag, cell.OutOfRange data name tag := by
  constructor
  · rintro ⟨_, past | outside⟩
    · exact .inl past
    · exact .inr ⟨_, _, outside⟩
  · rintro (past | ⟨name, tag, outside⟩)
    · exact ⟨_, .short past⟩
    · exact ⟨_, .index outside⟩

theorem Fails.within (h : cell.Fails data e) (segment : String) :
    (cell.within segment).Fails data (e.within segment) := by
  cases h with
  | short past => exact short past
  | index outside => exact index outside

theorem exists_fails_of_within (h : (cell.within segment).Fails data e) :
    ∃ e, cell.Fails data e := by
  cases h with
  | short past => exact ⟨_, .short past⟩
  | index outside => exact ⟨_, .index outside⟩

/-- Nothing is wrong with a primitive but want of bytes. -/
theorem not_fails_primitive {path : List String} {offset : Nat} {p : Primitive}
    (inside : offset + p.width ≤ data.length) :
    ¬ ∃ e, Cell.Fails data ⟨path, offset, .primitive p⟩ e := by
  rw [exists_fails_iff]
  rintro (past | ⟨_, _, _, enum, _⟩)
  · exact absurd inside (not_le.mpr past)
  · cases enum

/-- Nothing is wrong with an index that is one of a variant. -/
theorem not_fails_enum {path : List String} {offset : Nat} {name : String}
    {variants : List Variant} {tag : UInt8} (found : data[offset]? = some tag)
    (inside : tag.toNat < variants.length) :
    ¬ ∃ e, Cell.Fails data ⟨path, offset, .enum name variants⟩ e := by
  rw [exists_fails_iff]
  rintro (past | ⟨_, _, _, enum, found', outside⟩)
  · have hlt : offset + 1 ≤ data.length := (List.getElem?_eq_some_iff.mp found).1
    exact absurd hlt (not_le.mpr past)
  · cases enum
    rw [show data[offset]? = _ from found'] at found
    cases found
    exact absurd inside (not_lt.mpr outside)

end Cell

namespace DecodeError

variable {path : List String}

theorem pathText_ne_empty (h : ∀ segment ∈ path, segment ≠ "") (hpath : path ≠ []) :
    pathText path ≠ "" := by
  obtain ⟨segment, rest, rfl⟩ := List.exists_cons_of_ne_nil hpath
  have hsegment : segment ≠ "" := h segment List.mem_cons_self
  unfold pathText
  dsimp only
  split
  · exact hsegment
  · simp [hsegment]

/-- **The text of a path without empty segments** is its segments with dots between them. -/
theorem pathText_of_named (h : ∀ segment ∈ path, segment ≠ "") :
    pathText path = ".".intercalate path := by
  induction path with
  | nil => rfl
  | cons segment rest ih =>
    rw [List.forall_mem_cons] at h
    unfold pathText
    cases rest with
    | nil => rfl
    | cons next rest =>
      have hrest := pathText_ne_empty h.2 (List.cons_ne_nil next rest)
      dsimp only
      rw [if_neg hrest, ih h.2, String.intercalate_cons_cons]

end DecodeError

/-- **What is said of a cell**: its path, and which of the two things is wrong with it. -/
theorem Cell.Fails.said {data : List UInt8} {cell : Cell} {e : DecodeError}
    (h : cell.Fails data e) (named : cell.NamedPath) :
    ∃ problem, e = .malformed cell.path problem ∧
      DecodeError.pathText cell.path = ".".intercalate cell.path ∧
      (data.length < cell.stop ∧ problem.message = "Unexpected length of input" ∨
        ∃ name tag, cell.OutOfRange data name tag ∧ problem.message
          = "variant index " ++ toString tag.toNat ++ " out of range for " ++ name) := by
  have htext := DecodeError.pathText_of_named named
  cases h with
  | short past => exact ⟨_, rfl, htext, .inl ⟨past, rfl⟩⟩
  | index outside => exact ⟨_, rfl, htext, .inr ⟨_, _, outside, rfl⟩⟩

/-! ## 2. Decoders that find the fault -/

namespace Decoder

variable {α β : Type} {decoder : Decoder α} {cells more : List Cell} {start middle stop : Nat}

/-- **A decoder that reads cells**: from the one offset on it gets to the other with nothing wrong
    with any of them, or else its error is that of the first with which something is. -/
def Finds (cells : List Cell) (start stop : Nat) (decoder : Decoder α) : Prop :=
  ∀ data : List UInt8, start ≤ data.length →
    (∃ value, decoder (data.drop start) = .ok (value, data.drop stop) ∧ stop ≤ data.length ∧
      ∀ cell ∈ cells, ¬ ∃ e, cell.Fails data e) ∨
    ∃ e, decoder (data.drop start) = .error e ∧ FirstFails (Cell.Fails data) cells e

theorem finds_pure (start : Nat) (value : α) : Finds [] start start (pure value) :=
  fun _ hstart => .inl ⟨value, rfl, hstart, fun _ hcell => by cases hcell⟩

/-- The second decoder reads the cells behind those of the first. -/
theorem Finds.bind {next : α → Decoder β} (h : Finds cells start middle decoder)
    (hnext : ∀ value, Finds more middle stop (next value)) :
    Finds (cells ++ more) start stop (decoder >>= next) := by
  intro data hstart
  rcases h data hstart with ⟨value, hdecode, hmiddle, good⟩ | ⟨e, hdecode, first⟩
  · rw [bind_of_ok hdecode]
    rcases hnext value data hmiddle with ⟨value', hdecode', hstop, good'⟩ | ⟨e, hdecode', first⟩
    · exact .inl ⟨value', hdecode', hstop, List.forall_mem_append.mpr ⟨good, good'⟩⟩
    · exact .inr ⟨e, hdecode', first.behind good⟩
  · exact .inr ⟨e, bind_of_error hdecode, first.append more⟩

theorem Finds.result (h : Finds cells start stop decoder) (f : α → β) :
    Finds cells start stop (do return f (← decoder)) := by
  have hbind := h.bind fun value => finds_pure stop (f value)
  rwa [List.append_nil] at hbind

theorem Finds.within (h : Finds cells start stop decoder) (segment : String) :
    Finds (cells.map (Cell.within segment)) start stop (Decoder.within segment decoder) := by
  intro data hstart
  rcases h data hstart with ⟨value, hdecode, hstop, good⟩ | ⟨e, hdecode, first⟩
  · refine .inl ⟨value, within_of_ok hdecode, hstop, List.forall_mem_map.mpr fun cell hcell => ?_⟩
    rintro ⟨_, hfails⟩
    exact good cell hcell (Cell.exists_fails_of_within hfails)
  · refine .inr ⟨e.within segment, within_of_error hdecode, ?_⟩
    exact first.map (fun _ _ h => h.within segment) fun _ _ => Cell.exists_fails_of_within

theorem take_drop_of_le {data : List UInt8} {count : Nat} (h : start + count ≤ data.length) :
    take count (data.drop start)
      = .ok ((data.drop start).take count, data.drop (start + count)) := by
  have hlength : ((data.drop start).take count).length = count := by
    rw [List.length_take, List.length_drop]
    omega
  have hsplit := split?_append ((data.drop start).take count) (data.drop (start + count))
  rw [← List.drop_drop, List.take_append_drop, hlength] at hsplit
  unfold take
  rw [hsplit, List.drop_drop]

theorem take_drop_of_lt {data : List UInt8} {count : Nat} (h : data.length < start + count)
    (hstart : start ≤ data.length) :
    take count (data.drop start) = .error (.malformed [] .shortRead) := by
  unfold take
  rw [split?_eq_none (by rw [List.length_drop]; omega)]

theorem finds_primitive (p : Primitive) (start : Nat) :
    Finds [⟨[], start, .primitive p⟩] start (start + p.width)
      (do return p.value (← take p.width)) := by
  intro data hstart
  by_cases hinside : start + p.width ≤ data.length
  · refine .inl ⟨_, bind_of_ok (take_drop_of_le hinside), hinside, ?_⟩
    exact List.forall_mem_singleton.mpr (Cell.not_fails_primitive hinside)
  · have hpast : data.length < start + p.width := not_le.mp hinside
    exact .inr ⟨_, bind_of_error (take_drop_of_lt hpast hstart), .singleton (.short hpast)⟩

theorem finds_variant {name : String} {variants : List Variant}
    (units : ∀ v ∈ variants, v.hasFields = false) (start : Nat) :
    Finds [⟨[], start, .enum name variants⟩] start (start + 1) (variant name variants) := by
  intro data hstart
  by_cases hinside : start < data.length
  · -- the byte that is taken is the one at the offset of the cell
    have hbyte : byte (data.drop start) = .ok (data[start].toNat, data.drop (start + 1)) := by
      have htake : take 1 (data.drop start) = .ok (_, data.drop (start + 1)) :=
        take_drop_of_le (Nat.succ_le_of_lt hinside)
      rw [List.drop_eq_getElem_cons hinside, List.take_succ_cons, List.take_zero,
        ← List.drop_eq_getElem_cons hinside] at htake
      exact bind_of_ok htake
    have hfound : data[start]? = some data[start] := List.getElem?_eq_getElem hinside
    unfold variant
    rw [bind_of_ok hbyte]
    cases hv : variants[data[start].toNat]? with
    | none =>
      have outside : variants.length ≤ data[start].toNat := List.getElem?_eq_none_iff.mp hv
      exact .inr ⟨_, rfl, .singleton (.index ⟨_, rfl, hfound, outside⟩)⟩
    | some v =>
      simp only [units v (List.mem_of_getElem? hv), Bool.false_eq_true, if_false]
      refine .inl ⟨_, rfl, hinside, List.forall_mem_singleton.mpr ?_⟩
      exact Cell.not_fails_enum hfound (List.getElem?_eq_some_iff.mp hv).1
  · have hpast : data.length < start + 1 := by omega
    have hbyte : byte (data.drop start) = .error (.malformed [] .shortRead) :=
      bind_of_error (take_drop_of_lt hpast hstart)
    exact .inr ⟨_, bind_of_error hbyte, .singleton (.short hpast)⟩

/-- Items find the cells of the elements that are left, from the index on that is reached. -/
theorem finds_items {item : Decoder Json} {cells : Nat → List Cell} {length : Nat}
    (h : ∀ start, Finds (cells start) start (start + length) item) (offset n : Nat) :
    ∀ done : List Json,
      Finds ((List.range' done.length n).flatMap fun i =>
          (cells (offset + length * i)).map (Cell.within (toString i)))
        (offset + length * done.length) (offset + length * (done.length + n))
        (items item n done) := by
  induction n with
  | zero => exact fun done => finds_pure _ _
  | succ n ih =>
    intro done
    rw [List.range'_succ, List.flatMap_cons, ← Nat.add_assoc done.length n 1,
      Nat.add_right_comm done.length n 1]
    refine ((h _).within (toString done.length)).bind fun value => ?_
    rw [Nat.add_assoc offset, ← Nat.mul_succ]
    exact ih (value :: done)

theorem finds_fields {schema : Schema} {decode : FieldType → Decoder Json}
    {cells : FieldType → Nat → List Cell} {fields : List Field}
    (h : ∀ field ∈ fields, ∀ start,
      Finds (cells field.type start) start (start + schema.lengthAt field.type)
        (decode field.type)) :
    ∀ (start : Nat) (done : Entries Json),
      Finds (Field.cellsBy schema cells fields start) start
        (start + (fields.map fun field => schema.lengthAt field.type).sum)
        (Decoder.fields decode fields done) := by
  induction fields with
  | nil => exact fun start done => finds_pure start done
  | cons field fields ih =>
    intro start done
    rw [List.forall_mem_cons] at h
    rw [List.map_cons, List.sum_cons, ← Nat.add_assoc]
    exact ((h.1 start).within field.name).bind fun value => ih h.2 _ _

end Decoder

/-! ## 3. Types -/

namespace Schema

open Decoder

variable {schema : Schema} {depth length total : Nat} {type : FieldType} {record : String}
  {layout : RecordLayout} {fields : List Field} {rows : List (String × Placement)}

/-- **A type is read cell by cell**, by induction on the derivation of its length. -/
theorem Sized.finds (h : schema.Sized depth type length) :
    ∀ levels more, depth ≤ levels → depth ≤ more → ∀ start,
      Finds (type.cellsBy schema (schema.cellsNamed levels) start) start (start + length)
        (type.decodeBy (schema.decodeNamed more)) := by
  induction h with
  | primitive p => exact fun _ _ _ _ start => finds_primitive p start
  | array count sized _ ih =>
    intro levels more hlevels hmore start
    unfold FieldType.cellsBy
    rw [sized.lengthAt_eq, List.range_eq_range']
    have hitems := finds_items (ih levels more hlevels hmore) start count []
    simp only [List.length_nil, Nat.mul_zero, Nat.add_zero, Nat.zero_add] at hitems
    exact hitems.result Json.list
  | @enum _ name variants found units =>
    intro levels more _ _ start
    show Finds (schema.cellsNamed levels name start) _ _ (schema.decodeNamed more name)
    unfold cellsNamed decodeNamed
    rw [found]
    exact finds_variant units start
  | @struct _ name fields found lengthAt sized _ ih =>
    intro levels more hlevels hmore start
    obtain ⟨levels, rfl⟩ : ∃ m, levels = m + 1 := ⟨levels - 1, by omega⟩
    obtain ⟨more, rfl⟩ : ∃ m, more = m + 1 := ⟨more - 1, by omega⟩
    show Finds (schema.cellsNamed (levels + 1) name start) _ _ (schema.decodeNamed (more + 1) name)
    unfold cellsNamed decodeNamed
    rw [found, ← sum_lengthAt sized]
    refine (finds_fields (fun field hfield start => ?_) start []).result Json.object
    rw [(sized field hfield).lengthAt_eq]
    exact ih field hfield levels more (by omega) (by omega) start

/-! ## 4. Records -/

/-- The fields of a record are read cell by cell, each at its place. -/
theorem Placed.finds {offset levels : Nat} (placed : schema.Placed fields offset rows total)
    (hlevels : schema.types.length ≤ levels) : ∀ done : Entries Json,
      Finds (rows.flatMap fun field =>
          (schema.cells field.2.type field.2.offset).map (Cell.within field.1)) offset total
        (Decoder.fields (FieldType.decodeBy (schema.decodeNamed levels)) fields done) := by
  induction placed with
  | nil offset => exact fun done => finds_pure offset done
  | @cons field _ offset _ _ _ sized _ _ ih =>
    intro done
    have hfirst := (sized_of_lengthOf sized).finds schema.types.length levels le_rfl hlevels offset
    exact (hfirst.within field.name).bind fun value => ih _

/-- A record is decoded with nothing wrong with any of its cells, or it fails as the first of them
    with which something is. -/
theorem decodeRecord_finds (laid : schema.layoutOf record = .ok layout)
    {data : List UInt8} (hheader : layout.headerLength ≤ data.length) :
    (∃ shown, schema.decodeRecord record data = .ok shown) ∧ layout.totalLength ≤ data.length ∧
      (∀ cell ∈ layout.cells schema, ¬ ∃ e, cell.Fails data e) ∨
    ∃ e, schema.decodeRecord record data = .error e ∧
      FirstFails (Cell.Fails data) (layout.cells schema) e := by
  obtain ⟨fields, found, _, header, placed⟩ := placed_of_layoutOf laid
  unfold decodeRecord fields?
  simp only [found, ← header, if_neg (not_lt.mpr hheader), StateT.run']
  rcases placed.finds (schema.length_le_levelsFor data) [] data hheader with
    ⟨shown, hdecode, inside, good⟩ | ⟨e, hdecode, first⟩
  · rw [hdecode]
    exact .inl ⟨⟨shown, rfl⟩, inside, good⟩
  · rw [hdecode]
    exact .inr ⟨e, rfl, first⟩

/-- Without all of its discriminator a record is not looked into. -/
theorem decodeRecord_of_short_header (laid : schema.layoutOf record = .ok layout)
    {data : List UInt8} (hheader : data.length < layout.headerLength) :
    schema.decodeRecord record data
      = .error (.malformed ["$discriminator"] (.shortHeader layout.headerLength data.length)) := by
  obtain ⟨fields, found, _, header, _⟩ := placed_of_layoutOf laid
  unfold decodeRecord fields?
  simp only [found, ← header, if_pos hheader]

/-- **Data that is no record is blamed on the first cell at fault.** Of all data that is long
    enough, that fails to be a record in which some enumeration has an index out of range; no
    shorter data is a record. If not even the discriminator is there, this is what is said.
    Otherwise the path is that of the first cell that the bytes end in or that has an index out of
    range, its segments with dots between them, and the text says which. -/
theorem decodeRecord_faults (laid : schema.layoutOf record = .ok layout)
    (named : schema.Named (.defined record)) (data : List UInt8) :
    (data.length < layout.totalLength → ∃ e, schema.decodeRecord record data = .error e) ∧
    (layout.totalLength ≤ data.length →
      ((∃ e, schema.decodeRecord record data = .error e) ↔
        ∃ cell ∈ layout.cells schema, ∃ name tag, cell.OutOfRange data name tag)) ∧
    ∀ e, schema.decodeRecord record data = .error e →
      (data.length < layout.headerLength →
        e = .malformed ["$discriminator"] (.shortHeader layout.headerLength data.length) ∧
          DecodeError.pathText ["$discriminator"] = "$discriminator") ∧
      (layout.headerLength ≤ data.length →
        ∃ before cell after problem, layout.cells schema = before ++ cell :: after ∧
          (∀ earlier ∈ before, earlier.stop ≤ data.length ∧
            ¬ ∃ name tag, earlier.OutOfRange data name tag) ∧
          e = .malformed cell.path problem ∧
          DecodeError.pathText cell.path = ".".intercalate cell.path ∧
          (data.length < cell.stop ∧ problem.message = "Unexpected length of input" ∨
            ∃ name tag, cell.OutOfRange data name tag ∧ problem.message
              = "variant index " ++ toString tag.toNat ++ " out of range for " ++ name)) := by
  have tiled := (tiled_cells_of_layoutOf laid).bounds
  refine ⟨fun hshort => ?_, fun hlong => ?_, fun e he => ⟨fun hheader => ?_, fun hheader => ?_⟩⟩
  · by_cases hheader : data.length < layout.headerLength
    · exact ⟨_, decodeRecord_of_short_header laid hheader⟩
    · rcases decodeRecord_finds laid (not_lt.mp hheader) with ⟨_, hlong, _⟩ | ⟨e, he, _⟩
      · exact absurd hlong (not_le.mpr hshort)
      · exact ⟨e, he⟩
  · rcases decodeRecord_finds laid (tiled.1.trans hlong) with ⟨⟨_, hok⟩, _, good⟩ | ⟨e, he, first⟩
    · -- a record has no index out of range
      rw [hok]
      refine ⟨fun ⟨_, h⟩ => (by cases h), fun ⟨cell, hcell, hout⟩ => ?_⟩
      exact absurd (Cell.exists_fails_iff.mpr (.inr hout)) (good cell hcell)
    · obtain ⟨cell, hcell, hfails⟩ := exists_firstFails_iff.mp ⟨e, first⟩
      refine ⟨fun _ => ⟨cell, hcell, ?_⟩, fun _ => ⟨e, he⟩⟩
      have inside : cell.stop ≤ data.length := (tiled.2 cell hcell).2.trans hlong
      exact (Cell.exists_fails_iff.mp hfails).resolve_left (not_lt.mpr inside)
  · rw [decodeRecord_of_short_header laid hheader] at he
    exact ⟨(Except.error.inj he).symm, rfl⟩
  · rcases decodeRecord_finds laid hheader with ⟨⟨_, hok⟩, _, _⟩ | ⟨e', he', first⟩
    · rw [hok] at he
      cases he
    rw [he'] at he
    cases he
    obtain ⟨before, cell, after, hcells, good, hfails⟩ := first
    have hmem : cell ∈ layout.cells schema := by
      rw [hcells]
      exact List.mem_append_right _ List.mem_cons_self
    obtain ⟨problem, hsaid⟩ := hfails.said (namedPath_of_mem_cells laid named cell hmem)
    refine ⟨before, cell, after, problem, hcells, fun earlier hearlier => ?_, hsaid⟩
    have hgood := good earlier hearlier
    rw [Cell.exists_fails_iff, not_or, not_lt] at hgood
    exact hgood

/-- A schema of pairs of orders, behind two bytes that tell their kind and a count. -/
def crosses : Schema :=
  orders.withStruct "Cross" [⟨"lots", .primitive .u8⟩, ⟨"orders", .array (.defined "Order") 2⟩]
    |>.withDiscriminator "Cross" [7, 7]

/-- No field in it has an empty name. -/
theorem named_crosses (type : FieldType) : crosses.Named type := by
  intro name fields _ found
  have hmem : (name, TypeDef.struct fields) ∈ crosses.types := Entries.mem_of_get? found
  have htypes : crosses.types =
      [("Cross", .struct
        [⟨"lots", .primitive .u8⟩, ⟨"orders", .array (.defined "Order") 2⟩]),
      ("Order", .struct
        [⟨"side", .defined "Side"⟩, ⟨"price", .primitive .u16⟩, ⟨"size", .primitive .u8⟩]),
      ("Side", .enum [⟨"Bid", false⟩, ⟨"Ask", false⟩])] := by decide +kernel
  rw [htypes] at hmem
  simp only [List.mem_cons, List.not_mem_nil, Prod.mk.injEq, TypeDef.struct.injEq, reduceCtorEq,
    and_false, or_false] at hmem
  rcases hmem with ⟨_, rfl⟩ | ⟨_, rfl⟩ <;> decide

/-- The side of the second order is no variant, and is blamed although its size is missing. Bytes
    that end in the price of the first one are no record either, and of a single byte it is said
    that the discriminator is too short. -/
theorem decodeRecord_crosses : ∃ layout, crosses.layoutOf "Cross" = .ok layout ∧
    crosses.Named (.defined "Cross") ∧
    (∃ before cell after, layout.cells crosses = before ++ cell :: after ∧
      cell.path = ["orders", "1", "side"] ∧ ".".intercalate cell.path = "orders.1.side" ∧
      ∃ name tag, cell.OutOfRange [7, 7, 1, 0, 5, 0, 9, 9, 6, 0] name tag) ∧
    (∃ e, crosses.decodeRecord "Cross" [7, 7, 1, 0, 5] = .error e) ∧
    (∃ cell ∈ layout.cells crosses,
      ∃ name tag, cell.OutOfRange [7, 7, 1, 0, 5, 0, 9, 9, 6, 0, 3] name tag) ∧
    ∀ e, crosses.decodeRecord "Cross" [7] = .error e →
      e = .malformed ["$discriminator"] (.shortHeader 2 1) := by
  have laid : crosses.layoutOf "Cross" = .ok ⟨"Cross", 2, 11,
      [("lots", ⟨2, 1, .primitive .u8⟩), ("orders", ⟨3, 8, .array (.defined "Order") 2⟩)]⟩ := rfl
  have faults := decodeRecord_faults laid (named_crosses _)
  have hside : crosses.decodeRecord "Cross" [7, 7, 1, 0, 5, 0, 9, 9, 6, 0]
      = .error (.malformed ["orders", "1", "side"] (.variantIndex 9 "Side")) := rfl
  refine ⟨_, laid, named_crosses _, ?_, (faults _).1 (by decide),
    ((faults _).2.1 (by decide)).mp ⟨_, rfl⟩, fun e he => (((faults _).2.2 e he).1 (by decide)).1⟩
  obtain ⟨before, cell, after, problem, hcells, _, hsaid, htext, hproblem⟩ :=
    ((faults _).2.2 _ hside).2 (by decide)
  obtain ⟨hpath, rfl⟩ := DecodeError.malformed.inj hsaid
  rw [← hpath] at htext
  refine ⟨before, cell, after, hcells, hpath.symm, hpath ▸ htext.symm, ?_⟩
  rcases hproblem with ⟨_, hmessage⟩ | ⟨name, tag, outside, _⟩
  · exact absurd hmessage (by decide)
  · exact ⟨name, tag, outside⟩

end Schema

end LedgerScan
