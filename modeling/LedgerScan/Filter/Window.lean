import LedgerScan.Layout.Basic

/-!
# Selections and windows

A selection says which fields of a record are wanted. Of a selection of some fields only the window
of the account data is asked for that reaches from the first of them to the last; what lies between
them comes along. An empty list of fields asks for whole accounts and keeps no field of them.

The bytes of a window are put back at their place by `Window.pad`, with zeros before and after
them, so that a record decodes from them at its usual offsets.
-/

namespace LedgerScan

/-- Which fields are wanted. -/
inductive Selection where
  /-- Every field. -/
  | all
  /-- No field, only whether there is such an account. -/
  | nothing
  /-- The fields with these names. -/
  | fields (names : List String)
  deriving DecidableEq, Repr

/-- Whether a field is wanted. -/
def Selection.wants (selection : Selection) (name : String) : Bool :=
  match selection with
  | .all => true
  | .nothing => false
  | .fields names => names.contains name

/-- A window of the account data. -/
structure Window where
  offset : Nat
  length : Nat
  deriving DecidableEq, Repr

namespace Window

/-- Where a window ends, counted in 64 bits. -/
def stop (window : Window) : Nat :=
  (window.offset + window.length) % 0x10000000000000000

/-- The least window that covers a range and all the given places. -/
def cover (start stop : Nat) : List Placement → Window
  | [] => ⟨start, stop - start⟩
  | place :: places => cover (min start place.offset) (max stop place.stop) places

/-- Cuts bytes off at a size, or appends zeros up to it. -/
def resize (size : Nat) (bytes : List UInt8) : List UInt8 :=
  bytes.take size ++ List.replicate (size - bytes.length) 0

/-- The bytes of a window in the place they came from, in data of a given length. The size that is
    reached is counted in 64 bits as well. -/
def pad (window : Window) (total : Nat) (slice : List UInt8) : List UInt8 :=
  let front := List.replicate window.offset 0 ++ slice
  resize ((front.length + (total - window.stop)) % 0x10000000000000000) front

end Window

end LedgerScan
