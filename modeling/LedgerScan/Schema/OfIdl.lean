import LedgerScan.Idl.Reader
import LedgerScan.Idl.Shape
import LedgerScan.Log
import LedgerScan.Schema.Basic

/-!
# Schemas from interface descriptions

Every type declaration and every structure defined on an account becomes a definition, in the order
of the document, so the last one with a name stays. An account without a structure of its own needs
one among the types or on an account before it. Every account gives its name a discriminator.

The first thing that cannot be converted decides the error. A simple type must be a primitive, a
string or bytes; an array must have the form `[type, length]`.
-/

namespace LedgerScan

/-- Why a file cannot be read. -/
inductive FileError where
  | notFound
  | notText
  deriving DecidableEq, Repr

/-- The text of a file error. -/
def FileError.message : FileError → String
  | .notFound => "No such file or directory (os error 2)"
  | .notText => "stream did not contain valid UTF-8"

/-- Why there is no schema. -/
inductive SchemaError where
  /-- The file cannot be read. -/
  | unreadable (error : FileError)
  /-- The text is no interface description. -/
  | notAnIdl
  /-- A type that a schema does not know. -/
  | unsupportedType (owner type : String)
  /-- An account that is nowhere defined. -/
  | missingDefinition (account : String)
  deriving DecidableEq, Repr

/-- The text of an error. -/
def SchemaError.message : SchemaError → String
  | .unreadable error => error.message
  | .notAnIdl => "Failed to parse IDL JSON"
  | .unsupportedType owner type => "Unsupported type " ++ type ++ " in " ++ owner
  | .missingDefinition account => "Account " ++ account ++ " has no type definition"

namespace Idl

/-! ## 1. Types and definitions -/

/-- The type that a simple name stands for. -/
def simpleType (owner name : String) : Except SchemaError FieldType :=
  if name = "string" then .ok .string
  else if name = "bytes" then .ok .bytes
  else
    match Primitive.parse? name with
    | some p => .ok (.primitive p)
    | none => .error (.unsupportedType owner name)

/-- The type that an expression stands for inside the definition of `owner`. -/
def TypeExpr.toFieldType (owner : String) : TypeExpr → Except SchemaError FieldType
  | .simple name => simpleType owner name
  | .array [.nested element, .size length] => do
    return .array (← element.toFieldType owner) length
  | .array extents => .error (.unsupportedType owner ("[" ++ Extent.shapes extents ++ "]"))
  | .option inner => do return .option (← inner.toFieldType owner)
  | .vec element => do return .vec (← element.toFieldType owner)
  | .map key value => do return .map (← key.toFieldType owner) (← value.toFieldType owner)
  | .defined target => .ok (.defined target.name)

/-- Fields without names are named by their positions. -/
def tupleFields (owner : String) : Nat → List TypeExpr → Except SchemaError (List Field)
  | _, [] => .ok []
  | position, type :: types => do
    let type ← type.toFieldType owner
    let fields ← tupleFields owner (position + 1) types
    return ⟨toString position, type⟩ :: fields

/-- The definition that a body stands for. -/
def Body.toTypeDef (owner : String) : Body → Except SchemaError TypeDef
  | .struct _ members => do
    return .struct (← members.mapM fun m => do return ⟨m.name, ← m.type.toFieldType owner⟩)
  | .tuple _ types => do return .struct (← tupleFields owner 0 types)
  | .enum _ variants => .ok (.enum (variants.map fun v => ⟨v.name, v.fields.isSome⟩))

end Idl

/-! ## 2. Schemas -/

namespace Schema

/-- Adds a type declaration. -/
def addDeclaration (schema : Schema) (d : Idl.Declaration) : Except SchemaError Schema := do
  return schema.define d.name (← d.body.toTypeDef d.name)

/-- Adds an account: its definition, if it has one, and its discriminator. -/
def addAccount (schema : Schema) (a : Idl.Account) : Except SchemaError Schema := do
  let schema ← match a.body with
    | some body => do pure (schema.define a.name (← body.toTypeDef a.name))
    | none =>
      if Entries.contains a.name schema.types then pure schema
      else throw (.missingDefinition a.name)
  return schema.withDiscriminator a.name a.header

/-- The schema of a description. -/
def ofIdl (idl : Idl) : Except SchemaError Schema := do
  let schema ← idl.types.foldlM addDeclaration empty
  idl.accounts.foldlM addAccount schema

/-- The schema of a text. -/
def ofText (text : String) : Except SchemaError Schema :=
  match Idl.parse? text with
  | some idl => ofIdl idl
  | none => .error .notAnIdl

/-- The text of a file, given its content if there is such a file. -/
def fileText : Option (List UInt8) → Except SchemaError String
  | none => .error (.unreadable .notFound)
  | some bytes =>
    match Utf8.decode bytes with
    | .ok text => .ok text
    | .error _ => .error (.unreadable .notText)

/-- The schema of a file, given its content if there is such a file. -/
def ofFile (content : Option (List UInt8)) : Except SchemaError Schema := do
  ofText (← fileText content)

/-! ## 3. What is logged -/

/-- A declaration whose padding the schema does not know. -/
def zeroCopyEvents (d : Idl.Declaration) : List Event :=
  if d.serialization.any (·.isZeroCopy) then
    [.warn ("Type " ++ d.name
      ++ " uses zero-copy serialization; alignment padding is not modeled")]
  else []

/-- The events of the declarations up to the first one that cannot be converted. -/
def declarationEvents : List Idl.Declaration → List Event
  | [] => []
  | d :: rest =>
    zeroCopyEvents d ++
      match d.body.toTypeDef d.name with
      | .ok _ => declarationEvents rest
      | .error _ => []

/-- The events of building a schema. -/
def loadEvents (idl : Idl) : List Event :=
  declarationEvents idl.types ++
    match ofIdl idl with
    | .ok schema =>
      [.debug ("Loaded schema for " ++ idl.programName ++ " with " ++ toString schema.types.length
        ++ " types")]
    | .error _ => []

/-- The events of building a schema from a text. -/
def loadTextEvents (text : String) : List Event :=
  match Idl.parse? text with
  | some idl => loadEvents idl
  | none => []

end Schema

end LedgerScan
