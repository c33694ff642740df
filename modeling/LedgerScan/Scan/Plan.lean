import LedgerScan.Record.Rebuild
import LedgerScan.Rpc.Request
import LedgerScan.Scan.Basic

/-!
# Plans

The plan of a scan is one request for each leaf, in the order of the leaves, with what is needed to
rebuild records from the answers. A scan without leaves has an empty plan, even if its record has no
layout. Otherwise the layout comes first, and then the first leaf that does not fit it decides the
error.
-/

namespace LedgerScan

/-- The request that records say they answer when the leaf names none. -/
def standardRequestId : Json := .int 1

namespace Scan

/-- The plan of one leaf. -/
def planLeaf (scan : Scan) (layout : RecordLayout) (commitment : Commitment)
    (leaf : Leaf) (number : Nat) : Except ScanError LeafPlan := do
  if leaf.address.isEmpty then throw .missingAddress
  let pushdown ←
    layout.pushDown leaf.conditions leaf.selection (scan.schema.discriminator scan.record)
  return {
    node := number
    record := scan.record
    address := leaf.address
    selection := leaf.selection
    pushdown
    metadata := leaf.metadata
    requestId := leaf.requestId.getD standardRequestId
    request := pushdown.request leaf.address commitment }

/-- The plans of leaves numbered from `number` on. -/
def planLeaves (scan : Scan) (layout : RecordLayout) (commitment : Commitment) :
    List Leaf → Nat → Except ScanError (List LeafPlan)
  | [], _ => .ok []
  | leaf :: leaves, number => do
    let plan ← scan.planLeaf layout commitment leaf number
    let plans ← scan.planLeaves layout commitment leaves (number + 1)
    return plan :: plans

/-- The plan of a scan at a commitment. -/
def plan (scan : Scan) (commitment : Commitment) : Except ScanError (List LeafPlan) :=
  if scan.leaves.isEmpty then .ok []
  else
    match scan.schema.layoutOf scan.record with
    | .error e => .error (.layout e)
    | .ok layout => scan.planLeaves layout commitment scan.leaves 1

/-- What is logged about planning. -/
def planEvents (scan : Scan) : List Event :=
  if scan.leaves.isEmpty then []
  else
    let layout := scan.schema.layoutOf scan.record
    layoutEvents layout ++
      match layout with
      | .error e => [.warn ("Cannot lay out " ++ scan.record ++ ": " ++ e.message)]
      | .ok _ => []

end Scan

end LedgerScan
