import LedgerScan.Filter.Pushdown
import LedgerScan.Settings

/-!
# Requests

The request of one leaf asks a node for the accounts of a program. Byte filters become `memcmp`
entries with base58 text, the size becomes a `dataSize` entry after them, and the window becomes
the `dataSlice`. A record without any bytes asks for no size and no window, and a request without
filters has no list of them.
-/

namespace LedgerScan

namespace Window

/-- A window as the node reads it. -/
def toJson (window : Window) : Json :=
  .ofPairs [("offset", .nat window.offset), ("length", .nat window.length)]

end Window

namespace Pushdown

/-- The filter entries of a request. -/
def filterEntries (pushdown : Pushdown) : List Json :=
  (pushdown.literals.map fun literal =>
    .ofPairs [("memcmp",
      .ofPairs [("offset", .nat literal.1), ("bytes", .text (Base58.encode literal.2))])])
  ++ (pushdown.dataSize?.toList.map fun size => .ofPairs [("dataSize", .nat size)])

/-- The options of a request. -/
def requestOptions (pushdown : Pushdown) (commitment : Commitment) : Json :=
  let filters := pushdown.filterEntries
  let slice := match pushdown.window, pushdown.dataSize? with
    | some window, some _ => [("dataSlice", window.toJson)]
    | _, _ => []
  .ofPairs ([("commitment", .text commitment.word), ("encoding", .text "base64")]
    ++ (if filters.isEmpty then [] else [("filters", .list filters)])
    ++ slice)

/-- The request for the accounts of a program. -/
def request (pushdown : Pushdown) (address : String) (commitment : Commitment) : Json :=
  .ofPairs [("jsonrpc", .text "2.0"), ("method", .text "getProgramAccounts"), ("id", .nat 1),
    ("params", .list [.text address, pushdown.requestOptions commitment])]

end Pushdown

end LedgerScan
