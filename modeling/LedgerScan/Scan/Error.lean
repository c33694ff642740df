import LedgerScan.Layout.Error

/-!
# Errors of a scan

Why a scan cannot be carried out. All of them arise before anything is sent.
-/

namespace LedgerScan

/-- Why a scan cannot be carried out. -/
inductive ScanError where
  /-- A leaf without a program address. -/
  | missingAddress
  /-- The record has no layout. -/
  | layout (error : LayoutError)
  /-- A condition or a selection on a field that the record does not have. -/
  | unknownField (record field : String)
  /-- A literal that is not as long as the field it is compared with. -/
  | lengthMismatch (field : String) (expected actual : Nat)
  /-- A text that is no account address. -/
  | invalidAddress (text : String)
  /-- A word that is no commitment. -/
  | unknownCommitment (word : String)
  deriving DecidableEq, Repr

namespace ScanError

/-- The text of an error. -/
def message : ScanError → String
  | .missingAddress => "Configuration error: missing program address - use `at()`"
  | .layout error => "Layout error: " ++ error.message
  | .unknownField record field => "Unknown field '" ++ field ++ "' on " ++ record
  | .lengthMismatch field expected actual =>
    "Filter on '" ++ field ++ "' encodes to " ++ toString actual ++ " bytes, field is "
      ++ toString expected ++ " bytes"
  | .invalidAddress text => "Invalid address '" ++ text ++ "'"
  | .unknownCommitment word => "Unknown commitment '" ++ word ++ "'"

/-- The errors that led to this one, the nearest first. -/
def causes : ScanError → List LayoutError
  | .layout error => error :: error.causes
  | _ => []

end ScanError

end LedgerScan
