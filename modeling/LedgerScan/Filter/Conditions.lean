import LedgerScan.Filter.Literal
import LedgerScan.Json.Basic
import LedgerScan.Text.Quoted

/-!
# Conditions

What the accounts of a leaf must satisfy, field by field. A field has at most one condition: setting
a second one replaces the first, in the first one's place. So conditions stand in the order in which
their fields were first mentioned.

A field equals a literal or is null (all its bytes are zero); both are tests of bytes. Any other
test is a predicate over the decoded value of the field and the record it belongs to.
-/

namespace LedgerScan

/-- A test of the value of a field in a record; the value is null when the field is not there. -/
abbrev Predicate := Json → Entries Json → Bool

/-- What a field must satisfy. -/
inductive Condition where
  | eq (literal : Literal)
  | isNull
  | satisfies (predicate : Predicate)

/-- The text of a condition in diagnostics. -/
def Condition.display : Condition → String
  | .eq literal => "Eq(" ++ literal.display ++ ")"
  | .isNull => "IsNull"
  | .satisfies _ => "Matches(<fn>)"

/-- Conditions by field, in the order of first mention. -/
structure Conditions where
  entries : List (String × Condition)

namespace Conditions

/-- No conditions: every account satisfies them. -/
def empty : Conditions := ⟨[]⟩

/-- Replaces the condition of a field where it stands, or appends one. -/
def put (field : String) (condition : Condition) :
    List (String × Condition) → List (String × Condition)
  | [] => [(field, condition)]
  | (name, earlier) :: rest =>
    if name = field then (name, condition) :: rest
    else (name, earlier) :: put field condition rest

/-- Sets the condition of a field. -/
def set (conditions : Conditions) (field : String) (condition : Condition) : Conditions :=
  ⟨put field condition conditions.entries⟩

/-- The bytes of the field equal the literal. -/
def eq (conditions : Conditions) (field : String) (literal : Literal) : Conditions :=
  conditions.set field (.eq literal)

/-- The bytes of the field are zero. -/
def isNull (conditions : Conditions) (field : String) : Conditions :=
  conditions.set field .isNull

/-- The predicate accepts the decoded field. -/
def satisfies (conditions : Conditions) (field : String) (predicate : Predicate) : Conditions :=
  conditions.set field (.satisfies predicate)

/-- The number of conditions. -/
def size (conditions : Conditions) : Nat := conditions.entries.length

/-- The fields that have a condition. -/
def fields (conditions : Conditions) : List String := conditions.entries.map (·.1)

/-- The condition of a field. -/
def find? (conditions : Conditions) (field : String) : Option Condition :=
  Entries.get? field conditions.entries

/-- The text of conditions in diagnostics. -/
def display (conditions : Conditions) : String :=
  let entry (e : String × Condition) : String :=
    "(" ++ Quoted.encode e.1 ++ ", " ++ e.2.display ++ ")"
  "Where \x7b conditions: [" ++ String.intercalate ", " (conditions.entries.map entry) ++ "] \x7d"

end Conditions

end LedgerScan
