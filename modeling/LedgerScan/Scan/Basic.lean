import LedgerScan.Filter.Conditions
import LedgerScan.Filter.Window
import LedgerScan.Json.Printer
import LedgerScan.Log
import LedgerScan.Settings

/-!
# Scans

A scan asks for the accounts of one record type. It is a tree of two levels: the root, and below it
one leaf for each program whose accounts are wanted. Nodes are numbered in the order in which they
were added, the root is node zero. A leaf can be changed at any time by its number, and a change to
one leaf touches no other.
-/

namespace LedgerScan

/-- What is wanted of the accounts of one program. -/
structure Leaf where
  address : String
  selection : Selection
  conditions : Conditions
  /-- What is attached to every record. -/
  metadata : Entries Json
  requestId : Option Json

namespace Leaf

/-- A leaf that wants everything. -/
def ofAddress (address : String) : Leaf := ⟨address, .all, .empty, [], none⟩

/-- Wants only the named fields. -/
def select (leaf : Leaf) (names : List String) : Leaf :=
  { leaf with selection := .fields names }

/-- Wants to know which accounts there are and nothing else. -/
def selectNothing (leaf : Leaf) : Leaf :=
  { leaf with selection := .nothing }

/-- Replaces the conditions. -/
def filtered (leaf : Leaf) (conditions : Conditions) : Leaf :=
  { leaf with conditions }

/-- Attaches the entries of an object; anything else attaches nothing. -/
def withMetadata (leaf : Leaf) (value : Json) : Leaf :=
  match value with
  | .object entries => { leaf with metadata := Entries.merge leaf.metadata entries }
  | _ => leaf

/-- What is logged when something is attached. -/
def metadataEvents : Json → List Event
  | .object _ => []
  | other => [.warn ("Ignoring non-object metadata: " ++ other.render)]

/-- Sets the request that records say they answer. -/
def withRequestId (leaf : Leaf) (requestId : Json) : Leaf :=
  { leaf with requestId := some requestId }

end Leaf

/-- A scan over one record type of a schema. -/
structure Scan where
  schema : Schema
  record : String
  config : Config
  leaves : List Leaf

/-- A node as it is seen from outside. -/
structure Node where
  address : Option String
  parent : Option Nat
  children : List Nat
  selection : Selection
  deriving DecidableEq, Repr

namespace Scan

/-- A scan without leaves. -/
def ofRecord (schema : Schema) (record : String) : Scan := ⟨schema, record, .standard, []⟩

/-- Changes what the scan uses when nothing else is said. -/
def withConfig (scan : Scan) (config : Config) : Scan := { scan with config }

/-- The number of nodes. -/
def size (scan : Scan) : Nat := scan.leaves.length + 1

/-- Adds a leaf for a program. Its number is the number of nodes before. -/
def add (scan : Scan) (address : String) : Scan :=
  { scan with leaves := scan.leaves ++ [Leaf.ofAddress address] }

/-- The leaf with a number. The root is no leaf. -/
def leaf? (scan : Scan) : Nat → Option Leaf
  | 0 => none
  | n + 1 => scan.leaves[n]?

/-- Changes the leaf with a number; if there is none nothing changes. -/
def change (scan : Scan) (number : Nat) (f : Leaf → Leaf) : Scan :=
  match number with
  | 0 => scan
  | n + 1 => { scan with leaves := scan.leaves.modify n f }

/-- The numbers of the leaves. -/
def leafNumbers (scan : Scan) : List Nat :=
  List.range' 1 scan.leaves.length

/-- The node with a number. -/
def node? (scan : Scan) (number : Nat) : Option Node :=
  match number with
  | 0 => some ⟨none, none, scan.leafNumbers, .all⟩
  | n + 1 => scan.leaves[n]?.map fun leaf => ⟨some leaf.address, some 0, [], leaf.selection⟩

end Scan

end LedgerScan
