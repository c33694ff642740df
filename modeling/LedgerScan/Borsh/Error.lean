import LedgerScan.Codec.Utf8

/-!
# Decoding errors

Why bytes are not a value of a type. The path leads from the record to the place of the error,
outermost first: names of fields, indices of arrays and vectors, keys of maps.
-/

namespace LedgerScan

/-- What is wrong with the bytes. -/
inductive Malformed where
  /-- Fewer bytes than the value takes. -/
  | shortRead
  /-- A text that is not UTF-8. -/
  | utf8 (error : Utf8.Error)
  /-- An index that is no variant of the enumeration. -/
  | variantIndex (index : Nat) (type : String)
  /-- Fewer bytes than the discriminator takes. -/
  | shortHeader (expected found : Nat)
  deriving DecidableEq, Repr

/-- The text of what is wrong. -/
def Malformed.message : Malformed → String
  | .shortRead => "Unexpected length of input"
  | .utf8 error => error.message
  | .variantIndex index type =>
    "variant index " ++ toString index ++ " out of range for " ++ type
  | .shortHeader expected found =>
    "expected " ++ toString expected ++ " bytes, found " ++ toString found

/-- Why a record or a value cannot be decoded. -/
inductive DecodeError where
  /-- The name is not that of a record. -/
  | unknownRecord (name : String)
  /-- The bytes do not fit the type. -/
  | malformed (path : List String) (problem : Malformed)
  /-- The type has no values that can be decoded. -/
  | unsupported (path : List String) (type : String)
  /-- The type contains itself without a byte in between. -/
  | endless (path : List String) (type : String)
  deriving DecidableEq, Repr

namespace DecodeError

/-- The error seen from one step further out. -/
def within (segment : String) : DecodeError → DecodeError
  | .unknownRecord name => .unknownRecord name
  | .malformed path problem => .malformed (segment :: path) problem
  | .unsupported path type => .unsupported (segment :: path) type
  | .endless path type => .endless (segment :: path) type

/-- The text of a path: its segments with dots between them, where an empty rest adds no dot. -/
def pathText : List String → String
  | [] => ""
  | segment :: path =>
    let rest := pathText path
    if rest = "" then segment else segment ++ "." ++ rest

/-- The text of an error. -/
def message : DecodeError → String
  | .unknownRecord name => "unknown record '" ++ name ++ "'"
  | .malformed path problem =>
    "failed to decode '" ++ pathText path ++ "': " ++ problem.message
  | .unsupported path type =>
    "cannot decode '" ++ pathText path ++ "' of type '" ++ type ++ "'"
  | .endless path type =>
    "cannot decode '" ++ pathText path ++ "': type '" ++ type ++ "' contains itself"

end DecodeError

end LedgerScan
