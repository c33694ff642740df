import LedgerScan.Json.Printer
import LedgerScan.Log
import LedgerScan.Record.Basic
import LedgerScan.Text.Quoted

/-!
# Typed records

The fields of a record can be read into a type of the caller's. A `Reader` of the type takes the
fields or says what does not fit; a record that does not fit is kept as it is.

The readers here are those of a map with values of one kind, and of a structure whose members are
read by name while other fields are passed over.
-/

namespace LedgerScan

/-- Why fields do not fit a type. -/
inductive Misfit where
  /-- A value of another kind. -/
  | wrongType (found : Json) (expected : String)
  /-- An integer that is out of range. -/
  | outOfRange (found : Int) (expected : String)
  /-- A member that is not among the fields. -/
  | missing (field : String)

namespace Misfit

/-- How a value is named in messages. -/
def describe : Json → String
  | .null => "null"
  | .bool b => "boolean `" ++ (if b then "true" else "false") ++ "`"
  | .number (.int i) => "integer `" ++ String.ofList (Number.encode (.int i)) ++ "`"
  | .number (.float bits) => "floating point `" ++ String.ofList (Binary64.text bits) ++ "`"
  | .text s => "string " ++ Quoted.encode s
  | .list _ => "sequence"
  | .object _ => "map"

/-- The text of a misfit. -/
def message : Misfit → String
  | .wrongType found expected => "invalid type: " ++ describe found ++ ", expected " ++ expected
  | .outOfRange found expected =>
    "invalid value: " ++ describe (.int found) ++ ", expected " ++ expected
  | .missing field => "missing field `" ++ field ++ "`"

end Misfit

/-! ## 1. Readers -/

/-- Reads fields into a type. -/
abbrev Reader (α : Type) := Entries Json → Except Misfit α

namespace Reader

/-- An unsigned integer of some bits. -/
def unsigned (bits : Nat) (value : Json) : Except Misfit Nat :=
  let expected := "u" ++ toString bits
  match value with
  | .number (.int i) =>
    if 0 ≤ i ∧ i.toNat < 1 <<< bits then .ok i.toNat else .error (.outOfRange i expected)
  | other => .error (.wrongType other expected)

/-- A text. -/
def text : Json → Except Misfit String
  | .text s => .ok s
  | other => .error (.wrongType other "a string")

/-- A truth value that may be null. -/
def optionalBool : Json → Except Misfit (Option Bool)
  | .null => .ok none
  | .bool b => .ok (some b)
  | other => .error (.wrongType other "a boolean")

/-- A map whose values are all of one kind. -/
def mapOf {α : Type} (value : Json → Except Misfit α) : Reader (Entries α)
  | [] => .ok []
  | (key, v) :: rest => do
    let a ← value v
    let entries ← mapOf value rest
    return (key, a) :: entries

end Reader

/-- The role of an account in an instruction. -/
structure AccountFlags where
  isSigner : Nat
  isWritable : Option Bool
  deriving DecidableEq, Repr

/-- Reads the flags of an account. The fields are met in the order of their names. -/
def AccountFlags.read : Reader AccountFlags := fun fields => do
  let signer ← match Entries.get? "isSigner" fields with
    | some value => some <$> Reader.unsigned 8 value
    | none => pure none
  let writable ← match Entries.get? "isWritable" fields with
    | some value => Reader.optionalBool value
    | none => pure none
  match signer with
  | some isSigner => return ⟨isSigner, writable⟩
  | none => throw (.missing "isSigner")

/-! ## 2. Typed records -/

/-- A record read into a type, or the record itself. -/
inductive TypedRecord (α : Type) where
  | typed (value : α) (metadata : Option Metadata)
  | raw (record : Record)

/-- Reads a record into a type if it fits. -/
def Record.typed {α : Type} (record : Record) (reader : Reader α) : TypedRecord α :=
  match reader record.fields with
  | .ok value => .typed value record.metadata
  | .error _ => .raw record

/-- What is logged when a record is read into a type. -/
def Record.typedEvents {α : Type} (record : Record) (reader : Reader α) : List Event :=
  match reader record.fields with
  | .ok _ => []
  | .error misfit =>
    [.debug ("Record does not deserialize into target type: " ++ misfit.message)]

namespace TypedRecord

/-- The value, if the record fits the type. -/
def value? {α : Type} : TypedRecord α → Option α
  | .typed value _ => some value
  | .raw _ => none

/-- The metadata of the record. -/
def metadata? {α : Type} : TypedRecord α → Option Metadata
  | .typed _ metadata => metadata
  | .raw record => record.metadata

end TypedRecord

end LedgerScan
