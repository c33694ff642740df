import LedgerScan.Layout.Error
import LedgerScan.Log
import LedgerScan.Schema.Basic

/-!
# Record layouts

A type has a fixed length if it is a primitive, an array of a type of fixed length, an enumeration
whose variants carry no data, or a structure whose fields have fixed lengths. The layout of a
record gives each field the offset at which the fields before it end; the first field follows the
discriminator.

Following names could go on forever, so the sizes are computed with the names of the structures
that are open at the moment (`Sizing`); a name that is open already contains itself. Each level of
nesting opens one more name of the schema, so there are never more levels than names.

* `Schema.lengthOf` is the length of a type;
* `Schema.layoutOf` is the layout of a record;
* `RecordLayout.find?` is the place of a field by name, the first one if names repeat.
-/

namespace LedgerScan

/-! ## 1. Lengths of types -/

/-- The greatest length there is. -/
def maxLength : Nat := 0xFFFFFFFFFFFFFFFF

/-- A computation of lengths: it knows which structures are open, the innermost first. -/
abbrev Sizing (α : Type) := StateT (List String) (Except LayoutError) α

namespace Sizing

/-- Says of an error in which field it arose. -/
def inField {α : Type} (record field : String) (sizing : Sizing α) : Sizing α := fun opened =>
  match sizing opened with
  | .ok result => .ok result
  | .error e => .error (.inField record field e)

/-- A length, unless it is beyond the greatest one. -/
def checked (type : String) (length : Nat) : Sizing Nat :=
  if length ≤ maxLength then pure length else throw (.overflow type)

/-- Opens a structure for the time of a computation. -/
def opening {α : Type} (name : String) (sizing : Sizing α) : Sizing α := fun opened =>
  match sizing (name :: opened) with
  | .ok (result, opened) => .ok (result, opened.tail)
  | .error e => .error e

end Sizing

/-- The length of a type, given the lengths of names. -/
def FieldType.lengthBy (named : String → Sizing Nat) : FieldType → Sizing Nat
  | .primitive p => pure p.width
  | .array element count => do
    let length ← element.lengthBy named
    Sizing.checked (FieldType.array element count).text (length * count)
  | .defined name => named name
  | .option inner => throw (.unsized (FieldType.option inner).text)
  | .vec element => throw (.unsized (FieldType.vec element).text)
  | .string => throw (.unsized FieldType.string.text)
  | .bytes => throw (.unsized FieldType.bytes.text)
  | .map key value => throw (.unsized (FieldType.map key value).text)

/-- The sum of a start and the lengths of the fields of a structure. -/
def Field.totalBy (named : String → Sizing Nat) (owner : String) :
    List Field → Nat → Sizing Nat
  | [], total => pure total
  | field :: fields, total => do
    let length ← Sizing.inField owner field.name (field.type.lengthBy named)
    let total ← Sizing.checked owner (total + length)
    totalBy named owner fields total

namespace Schema

/-- The length of a name, following names to a bounded number of levels. -/
def lengthOfNamed (schema : Schema) (levels : Nat) (name : String) : Sizing Nat := fun opened =>
  if name ∈ opened then .error (.recursive name)
  else
    match schema.find? name, levels with
    | none, _ => .error (.unknownType name)
    | some (.enum variants), _ =>
      if variants.any (·.hasFields) then .error (.unsized name) else .ok (1, opened)
    | some (.struct _), 0 => .error (.recursive name)
    | some (.struct fields), levels + 1 =>
      Sizing.opening name (Field.totalBy (schema.lengthOfNamed levels) name fields 0) opened

/-- The length of a type inside the structures that are open. -/
def sizing (schema : Schema) (type : FieldType) : Sizing Nat :=
  type.lengthBy (schema.lengthOfNamed schema.types.length)

/-- The length of a type. -/
def lengthOf (schema : Schema) (type : FieldType) : Except LayoutError Nat :=
  (schema.sizing type).run' []

end Schema

/-! ## 2. Layouts of records -/

/-- Where a field lies. -/
structure Placement where
  offset : Nat
  length : Nat
  type : FieldType
  deriving DecidableEq, Repr

/-- Where a field ends. -/
def Placement.stop (p : Placement) : Nat :=
  p.offset + p.length

/-- Where every field of a record lies, in the order of the definition. -/
structure RecordLayout where
  record : String
  /-- The length of the discriminator; the first field starts here. -/
  headerLength : Nat
  totalLength : Nat
  fields : List (String × Placement)
  deriving DecidableEq, Repr

namespace RecordLayout

/-- The place of a field, the first one with that name. -/
def find? (layout : RecordLayout) (name : String) : Option Placement :=
  (layout.fields.find? (·.1 == name)).map (·.2)

/-- The names of the fields. -/
def names (layout : RecordLayout) : List String :=
  layout.fields.map (·.1)

end RecordLayout

namespace Schema

/-- Places fields one after the other and returns where the last one ends. -/
def place (schema : Schema) (record : String) :
    List Field → Nat → Sizing (List (String × Placement) × Nat)
  | [], offset => pure ([], offset)
  | field :: fields, offset => do
    let length ← Sizing.inField record field.name (schema.sizing field.type)
    let stop ← Sizing.checked record (offset + length)
    let (placed, total) ← schema.place record fields stop
    pure ((field.name, ⟨offset, length, field.type⟩) :: placed, total)

/-- The layout of a record. -/
def layoutOf (schema : Schema) (record : String) : Except LayoutError RecordLayout :=
  match schema.find? record with
  | none => .error (.unknownType record)
  | some (.enum _) => .error (.notAStruct record)
  | some (.struct fields) => do
    let header := (schema.discriminator record).length
    let (placed, total) ← (schema.place record fields header).run' [record]
    return ⟨record, header, total, placed⟩

end Schema

/-- What is logged about a layout: the field that could not be sized. -/
def layoutEvents : Except LayoutError RecordLayout → List Event
  | .error (.inField record field cause) =>
    [.debug ("Cannot size " ++ record ++ "." ++ field ++ ": " ++ cause.message)]
  | _ => []

end LedgerScan
