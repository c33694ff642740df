import LedgerScan.Borsh.Decode
import LedgerScan.Idl.Writer
import LedgerScan.Layout.Basic
import LedgerScan.Proofs.Borsh.Trailing
import LedgerScan.Proofs.Borsh.Value
import LedgerScan.Proofs.Codec.Utf8
import LedgerScan.Proofs.Scan.Fetch
import LedgerScan.Record.Typed
import LedgerScan.Scan.Fetch
import LedgerScan.Schema.OfIdl
import LedgerScan.Proofs.Borsh.RoundTrip
import LedgerScan.Proofs.Rpc.Batches
import LedgerScan.Proofs.Scan.Leaves
import LedgerScan.Proofs.Filter.Conditions
import LedgerScan.Proofs.Scan.Literals
import LedgerScan.Proofs.Borsh.Primitive
import LedgerScan.Proofs.Scan.Predicates
import LedgerScan.Proofs.Scan.Failure
import LedgerScan.Proofs.Record.Names
import LedgerScan.Proofs.Scan.Truncated
import LedgerScan.Scan.Tree
import LedgerScan.Proofs.Scan.Tree
import LedgerScan.Proofs.Schema.Meaning
import LedgerScan.Proofs.Schema.OfIdl
import LedgerScan.Proofs.Json.Number
import LedgerScan.Proofs.Json.Quoted
import LedgerScan.Proofs.Json.RoundTrip
import LedgerScan.Proofs.Json.Shows
import LedgerScan.Proofs.Json.Plain
import LedgerScan.Proofs.Idl.Parts
import LedgerScan.Proofs.Idl.Regular
import LedgerScan.Proofs.Idl.RoundTrip
import LedgerScan.Proofs.Layout.Totals
import LedgerScan.Proofs.Layout.Blame
import LedgerScan.Proofs.Scan.Filters
import LedgerScan.Proofs.Scan.Undecodable
import LedgerScan.Proofs.Rpc.Lossless
import LedgerScan.Proofs.Scan.Selections
import LedgerScan.Proofs.Scan.Reordered
import LedgerScan.Proofs.Scan.Addresses
import LedgerScan.Proofs.Layout.Cells
import LedgerScan.Proofs.Borsh.Faults
import LedgerScan.Proofs.Borsh.Guarded
import LedgerScan.Proofs.Borsh.MapKeys
import LedgerScan.Proofs.Record.Metadata
import LedgerScan.Proofs.Layout.Opened
import LedgerScan.Proofs.Scan.Calls
import LedgerScan.Proofs.Rpc.Accounts
