import LedgerScan.Filter.Conditions
import LedgerScan.Filter.Window

/-!
# Pushing conditions down to the node

The node that holds the accounts can compare bytes at an offset, check the size of the data and
answer a window of it. A layout turns conditions and a selection into just that: every literal and
every null becomes bytes at the offset of its field, and the discriminator comes first; predicates
cannot be pushed down and stay here. A literal must be as long as its field.

The first condition that does not fit the layout decides the error, and only if all of them do the
first unknown field of the selection.
-/

namespace LedgerScan

/-- A test that accounts must pass: bytes at an offset, or a predicate on a field. -/
inductive Filter where
  | bytes (offset : Nat) (data : List UInt8)
  | predicate (field : String) (test : Predicate)

/-- What is asked of the node and what remains to be tested. -/
structure Pushdown where
  /-- Bytes in ascending order of their offsets, then predicates in the order of the conditions. -/
  filters : List Filter
  window : Option Window
  totalLength : Nat

namespace Pushdown

/-! ## 1. Parts -/

/-- The bytes to compare, each with its offset. -/
def literals (pushdown : Pushdown) : List (Nat × List UInt8) :=
  pushdown.filters.filterMap fun
    | .bytes offset data => some (offset, data)
    | .predicate _ _ => none

/-- The predicates, each with its field. -/
def predicates (pushdown : Pushdown) : List (String × Predicate) :=
  pushdown.filters.filterMap fun
    | .predicate field test => some (field, test)
    | .bytes _ _ => none

/-- The size that the data must have. A record without any bytes leaves it open. -/
def dataSize? (pushdown : Pushdown) : Option Nat :=
  if 0 < pushdown.totalLength then some pushdown.totalLength else none

/-- The text of the filters in diagnostics. -/
def display (pushdown : Pushdown) : String :=
  let entry : Filter → String
    | .bytes offset data =>
      "ByteLiteral \x7b offset: " ++ toString offset ++ ", bytes: "
        ++ Quoted.encode (Base58.encode data) ++ " \x7d"
    | .predicate field _ => "ClientPredicate \x7b field: " ++ Quoted.encode field ++ ", .. \x7d"
  "[" ++ String.intercalate ", " (pushdown.filters.map entry) ++ "]"

end Pushdown

/-! ## 2. Building -/

/-- Bytes to compare with the field at a place: they must be as long as the field. -/
def Placement.literal (place : Placement) (field : String) (data : List UInt8) :
    Except ScanError (Nat × List UInt8) :=
  if data.length = place.length then .ok (place.offset, data)
  else .error (.lengthMismatch field place.length data.length)

namespace RecordLayout

/-- The place of a field, or the error that there is none. -/
def place (layout : RecordLayout) (field : String) : Except ScanError Placement :=
  match layout.find? field with
  | some place => .ok place
  | none => .error (.unknownField layout.record field)

/-- The test that a condition on a field becomes. -/
def test (layout : RecordLayout) (field : String) (condition : Condition) :
    Except ScanError ((Nat × List UInt8) ⊕ (String × Predicate)) := do
  let place ← layout.place field
  match condition with
  | .eq literal => return .inl (← place.literal field literal.encode)
  | .isNull => return .inl (place.offset, List.replicate place.length 0)
  | .satisfies predicate => return .inr (field, predicate)

/-- Puts bytes before the first ones that do not have a smaller offset. -/
def insertByOffset (entry : Nat × List UInt8) :
    List (Nat × List UInt8) → List (Nat × List UInt8)
  | [] => [entry]
  | other :: rest =>
    if entry.1 ≤ other.1 then entry :: other :: rest
    else other :: insertByOffset entry rest

/-- Bytes in ascending order of their offsets; those at one offset keep their order. -/
def sortByOffset (entries : List (Nat × List UInt8)) : List (Nat × List UInt8) :=
  entries.foldr insertByOffset []

/-- The window that a selection asks for. -/
def window (layout : RecordLayout) : Selection → Except ScanError (Option Window)
  | .all => .ok none
  | .nothing => .ok (some ⟨0, 0⟩)
  | .fields names => do
    match ← names.mapM layout.place with
    | [] => return none
    | place :: places => return some (Window.cover place.offset place.stop places)

/-- Turns conditions and a selection into filters and a window. The discriminator, if there is one,
    is compared at the start of the data. -/
def pushDown (layout : RecordLayout) (conditions : Conditions) (selection : Selection)
    (discriminator : List UInt8) : Except ScanError Pushdown := do
  let tests ← conditions.entries.mapM fun entry => layout.test entry.1 entry.2
  let header := if discriminator.isEmpty then [] else [(0, discriminator)]
  let literals := header ++ tests.filterMap Sum.getLeft?
  let predicates := tests.filterMap Sum.getRight?
  let window ← layout.window selection
  return {
    filters := (sortByOffset literals).map (fun e => Filter.bytes e.1 e.2)
      ++ predicates.map (fun e => Filter.predicate e.1 e.2)
    window
    totalLength := layout.totalLength }

end RecordLayout

end LedgerScan
