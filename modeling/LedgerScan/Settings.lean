import LedgerScan.Scan.Error

/-!
# Settings

Where and how a scan runs. A connection may leave open the commitment, the endpoint or both;
`Connection.resolve` fills the gaps with `confirmed` and the public endpoint.
-/

namespace LedgerScan

/-- How settled the state of the ledger must be. -/
inductive Commitment where
  | processed
  | confirmed
  | finalized
  deriving DecidableEq, Repr

namespace Commitment

/-- The commitment when none is given. -/
def standard : Commitment := .confirmed

/-- The word for a commitment. -/
def word : Commitment → String
  | .processed => "processed"
  | .confirmed => "confirmed"
  | .finalized => "finalized"

/-- The commitment a word stands for. -/
def ofWord : String → Except ScanError Commitment
  | "processed" => .ok .processed
  | "confirmed" => .ok .confirmed
  | "finalized" => .ok .finalized
  | other => .error (.unknownCommitment other)

end Commitment

/-- Where a scan runs and at what commitment. -/
inductive Connection where
  /-- The public endpoint at a commitment. -/
  | commitment (c : Commitment)
  /-- An endpoint that may have a commitment of its own. -/
  | handle (endpoint : String) (commitment : Option Commitment)
  /-- Either part as it is given. -/
  | explicit (commitment : Option Commitment) (endpoint : Option String)
  deriving DecidableEq, Repr

namespace Connection

/-- The endpoint when none is given. -/
def publicEndpoint : String := "https://api.mainnet-beta.solana.com"

/-- The connection when none is given. -/
def standard : Connection := .commitment .standard

/-- The commitment and the endpoint of a connection. -/
def resolve : Connection → Commitment × String
  | .commitment c => (c, publicEndpoint)
  | .handle endpoint c => (c.getD .standard, endpoint)
  | .explicit c endpoint => (c.getD .standard, endpoint.getD publicEndpoint)

end Connection

/-- A span of time. -/
structure Duration where
  nanoseconds : Nat
  deriving DecidableEq, Repr

/-- So many milliseconds. -/
def Duration.ofMilliseconds (n : Nat) : Duration := ⟨n * 1000000⟩

/-- How many whole milliseconds there are in a span. -/
def Duration.milliseconds (span : Duration) : Nat := span.nanoseconds / 1000000

/-- How requests are sent and what becomes of the answers. -/
structure FetchOptions where
  /-- Log the full bodies of requests and answers. -/
  debug : Bool
  /-- Keep accounts that cannot be decoded, without fields. -/
  keepUndecodable : Bool
  /-- Attach metadata to records. -/
  metadata : Bool
  /-- The most requests in one batch; zero counts as one. -/
  batchSize : Nat
  /-- The pause that is asked for between batches. -/
  delay : Duration
  deriving DecidableEq, Repr

/-- The options when none are given. -/
def FetchOptions.standard : FetchOptions where
  debug := false
  keepUndecodable := false
  metadata := true
  batchSize := 100
  delay := .ofMilliseconds 1000

/-- What a scan uses when nothing else is said. -/
structure Config where
  connection : Connection
  options : FetchOptions
  httpTimeout : Duration
  deriving DecidableEq, Repr

/-- The configuration when none is given. -/
def Config.standard : Config where
  connection := .standard
  options := .standard
  httpTimeout := .ofMilliseconds 30000

/-- How a program prints the log. -/
structure LogSettings where
  /-- Which events are printed when the environment does not say. -/
  filter : String
  /-- Whether each event is printed as a JSON object. -/
  json : Bool
  deriving DecidableEq, Repr

/-- The log settings when none are given. -/
def LogSettings.standard : LogSettings where
  filter := "info"
  json := false

end LedgerScan
