import LedgerScan.Entries
import LedgerScan.Schema.Primitive

/-!
# Schemas

A schema gives names to types: structures with named fields, and enumerations, which are stored as
the one-byte index of a variant. A record is a structure that whole accounts hold; in front of its
fields an account may carry a discriminator, a fixed byte string that tells its kind.

Names refer to definitions through the schema (`FieldType.defined`), so a schema may name types it
does not define, and definitions may refer to each other in a circle. What can be done with such a
schema is for the layout and the decoder to say.
-/

namespace LedgerScan

/-- The type of a field. -/
inductive FieldType where
  | primitive (p : Primitive)
  | array (element : FieldType) (length : Nat)
  | defined (name : String)
  | option (inner : FieldType)
  | vec (element : FieldType)
  | string
  | bytes
  | map (key value : FieldType)
  deriving DecidableEq, Repr, Inhabited

/-- The text of a type in messages. -/
def FieldType.text : FieldType → String
  | .primitive p => p.name
  | .array element length => "[" ++ element.text ++ "; " ++ toString length ++ "]"
  | .defined name => name
  | .option inner => "Option<" ++ inner.text ++ ">"
  | .vec element => "Vec<" ++ element.text ++ ">"
  | .string => "string"
  | .bytes => "bytes"
  | .map key value => "Map<" ++ key.text ++ ", " ++ value.text ++ ">"

/-- A named part of a structure. -/
structure Field where
  name : String
  type : FieldType
  deriving DecidableEq, Repr

/-- An alternative of an enumeration. One that carries data has no fixed length. -/
structure Variant where
  name : String
  hasFields : Bool
  deriving DecidableEq, Repr

/-- What a name is defined as. -/
inductive TypeDef where
  | struct (fields : List Field)
  | enum (variants : List Variant)
  deriving DecidableEq, Repr

/-- Type definitions and account discriminators by name. -/
structure Schema where
  types : Entries TypeDef
  discriminators : Entries (List UInt8)
  deriving DecidableEq, Repr

namespace Schema

/-! ## 1. Building -/

/-- A schema that defines nothing. -/
def empty : Schema := ⟨[], []⟩

/-- Defines a name, in place of any earlier definition. -/
def define (schema : Schema) (name : String) (definition : TypeDef) : Schema :=
  { schema with types := Entries.insert name definition schema.types }

/-- Defines a structure. -/
def withStruct (schema : Schema) (name : String) (fields : List Field) : Schema :=
  schema.define name (.struct fields)

/-- Defines an enumeration whose variants carry no data. -/
def withEnum (schema : Schema) (name : String) (variants : List String) : Schema :=
  schema.define name (.enum (variants.map fun v => ⟨v, false⟩))

/-- Sets the discriminator of a record, in place of any earlier one. -/
def withDiscriminator (schema : Schema) (record : String) (bytes : List UInt8) : Schema :=
  { schema with discriminators := Entries.insert record bytes schema.discriminators }

/-! ## 2. Looking up -/

/-- The definition of a name. -/
def find? (schema : Schema) (name : String) : Option TypeDef :=
  Entries.get? name schema.types

/-- The fields of a record. -/
def fields? (schema : Schema) (record : String) : Option (List Field) :=
  match schema.find? record with
  | some (.struct fields) => some fields
  | _ => none

/-- The discriminator of a record, empty when it has none. -/
def discriminator (schema : Schema) (record : String) : List UInt8 :=
  (Entries.get? record schema.discriminators).getD []

end Schema

end LedgerScan
