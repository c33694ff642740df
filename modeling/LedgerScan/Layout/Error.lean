/-!
# Layout errors

Why a type has no fixed length or a record no layout. An error that arises inside a field of a
structure is wrapped with the names of both, so the message leads from the record down to the type
that is to blame, the `root`.
-/

namespace LedgerScan

/-- Why something cannot be laid out. -/
inductive LayoutError where
  /-- A name that the schema does not define. -/
  | unknownType (name : String)
  /-- A record that is defined as an enumeration. -/
  | notAStruct (name : String)
  /-- A type whose values differ in length. -/
  | unsized (type : String)
  /-- A structure that contains itself. -/
  | recursive (name : String)
  /-- A length beyond 64 bits. -/
  | overflow (type : String)
  /-- An error inside a field. -/
  | inField (record field : String) (cause : LayoutError)
  deriving DecidableEq, Repr

namespace LayoutError

/-- The text of an error. -/
def message : LayoutError → String
  | .unknownType name => "unknown type '" ++ name ++ "'"
  | .notAStruct name => "type '" ++ name ++ "' is not a struct"
  | .unsized type => "type '" ++ type ++ "' has no fixed byte length"
  | .recursive name => "type '" ++ name ++ "' contains itself"
  | .overflow type => "length of '" ++ type ++ "' overflows"
  | .inField record field cause => record ++ "." ++ field ++ ": " ++ cause.message

/-- The innermost error. -/
def root : LayoutError → LayoutError
  | .inField _ _ cause => cause.root
  | error => error

/-- The errors that led to this one, the nearest first. -/
def causes : LayoutError → List LayoutError
  | .inField _ _ cause => cause :: cause.causes
  | _ => []

end LayoutError

end LedgerScan
