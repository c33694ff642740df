import LedgerScan.Rpc.Batch
import LedgerScan.Scan.Plan

/-!
# Fetching

Fetching plans a scan, sends its requests and rebuilds the records of every leaf, in the order of
the leaves and, within a leaf, in the order of the node. Only planning can fail; what goes wrong
afterwards leaves out records and is logged. A scan with an empty plan sends nothing and logs
nothing about sending.

`Scan.carryOut` does all this over a wire, which keeps what was sent also if there are no records.
`Fetch` holds a run from which all else is read: the records, the posts, the time at its end, the
questions put to predicates and the events.
-/

namespace LedgerScan

/-- A run of a scan that has been planned. -/
structure Fetch where
  scan : Scan
  options : FetchOptions
  plans : List LeafPlan
  endpoint : String
  transport : Rpc.Transport

namespace Fetch

/-- The requests in the order of the leaves. -/
def requests (run : Fetch) : List Json :=
  run.plans.map (·.request)

/-- The batches that are sent, with their replies. -/
def exchanges (run : Fetch) : List Rpc.Exchange :=
  Rpc.exchanges run.requests run.endpoint run.options run.transport

/-- Each account that came back, with the plan of its leaf. -/
def returned (run : Fetch) : List (LeafPlan × RawAccount) :=
  (run.plans.zip (run.exchanges.flatMap Rpc.Exchange.accounts)).flatMap
    fun (plan, accounts) => accounts.map fun account => (plan, account)

/-- The records of all leaves. -/
def records (run : Fetch) : List Record :=
  run.returned.filterMap fun (plan, account) =>
    plan.rebuild? run.scan.schema run.options account

/-- What was posted. -/
def posts (run : Fetch) : List Rpc.Post :=
  run.exchanges.map (·.post)

/-- When the run ends. -/
def elapsed (run : Fetch) : Nat :=
  Rpc.elapsed run.requests run.options run.transport.timer

/-- The questions that were put to predicates. -/
def consultations (run : Fetch) : List Consultation :=
  run.returned.flatMap fun (plan, account) =>
    plan.rebuildConsultations run.scan.schema run.options account

/-- What is logged after planning. -/
def events (run : Fetch) : List Event :=
  if run.plans.isEmpty then []
  else
    Rpc.executeEvents run.requests run.endpoint run.options run.transport
    ++ run.returned.flatMap (fun (plan, account) =>
      plan.rebuildEvents run.scan.schema run.options account)
    ++ [.info ("Fetched " ++ toString run.records.length ++ " " ++ run.scan.record
      ++ " records from " ++ toString run.returned.length ++ " accounts across "
      ++ toString run.plans.length ++ " queries")]

end Fetch

namespace Scan

/-- Plans a run with a connection, options and a transport of its own. -/
def fetchWith (scan : Scan) (connection : Connection) (options : FetchOptions)
    (transport : Rpc.Transport) : Except ScanError Fetch :=
  let (commitment, endpoint) := connection.resolve
  (scan.plan commitment).map fun plans => ⟨scan, options, plans, endpoint, transport⟩

/-- Plans a run with what the scan's configuration says. -/
def fetch (scan : Scan) (transport : Rpc.Transport) : Except ScanError Fetch :=
  scan.fetchWith scan.config.connection scan.config.options transport

/-- Carries a scan out over a wire. -/
def carryOut (scan : Scan) (connection : Connection) (options : FetchOptions)
    (transport : Rpc.Transport) : ExceptT ScanError (StateM Rpc.Wire) (List Record) := do
  let (commitment, endpoint) := connection.resolve
  let plans ← MonadExcept.ofExcept (scan.plan commitment)
  if plans.isEmpty then
    return []
  let answers ← Rpc.send (plans.map (·.request)) endpoint options transport
  return (plans.zip answers).flatMap fun (plan, accounts) =>
    accounts.filterMap (plan.rebuild? scan.schema options)

/-- All that is posted when a scan is carried out, be it with records or with an error. -/
def posted (scan : Scan) (connection : Connection) (options : FetchOptions)
    (transport : Rpc.Transport) : List Rpc.Post :=
  ((scan.carryOut connection options transport).run .fresh).2.exchanges.map (·.post)

end Scan

end LedgerScan
