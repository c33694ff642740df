import LedgerScan.Rpc.Account
import LedgerScan.Settings

/-!
# Batches

Requests are sent in batches, one after the other, with a pause between two of them. A batch is
posted as a list, and item `i` of the answer belongs to request `i`. A batch that fails, an answer
that is no list and a list that is too short leave the requests concerned without accounts; they
are no error.

What is outside of a run is its `Transport`: the replies of the endpoint, and the timer that says
how long a pause really lasts. An `Exchange` is one batch with what came back. `send` makes the
exchanges over a `Wire`, which knows what time it is. All else is read off the exchanges: the
accounts of each request, the posts with their times, and what is logged.
-/

namespace LedgerScan.Rpc

/-! ## 1. Timers -/

/-- A timer: when a sleep ends that starts at some time and is asked to last so long. Times are in
    nanoseconds from the start of a run. -/
structure Timer where
  wake : Nat → Duration → Nat

namespace Timer

/-- The first tick that is not before a time. -/
def roundUp (tick time : Nat) : Nat :=
  (time + (tick - 1)) / tick * tick

/-- A timer that ticks: a sleep ends at the first tick at which it has lasted as long as it was
    asked to, or at least `longest`. -/
def ticking (tick longest : Duration) : Timer where
  wake now asked := roundUp tick.nanoseconds (now + min asked.nanoseconds longest.nanoseconds)

/-- A timer that ticks every millisecond and lets nobody sleep for more than thirty years of 365
    days. -/
def standard : Timer := ticking (.ofMilliseconds 1) (.ofMilliseconds 946080000000)

/-- The time after so many sleeps that follow each other from the start. To sleep for no time is not
    to sleep. -/
def after (timer : Timer) (asked : Duration) : Nat → Nat
  | 0 => 0
  | n + 1 =>
    if asked.nanoseconds = 0 then timer.after asked n
    else timer.wake (timer.after asked n) asked

end Timer

/-! ## 2. Transports -/

/-- Why a post brings no answer. -/
inductive TransportError where
  | http (reason : String)
  | rejected (reason : String)
  deriving DecidableEq, Repr

/-- The text of a transport error. -/
def TransportError.message : TransportError → String
  | .http reason => "HTTP error: " ++ reason
  | .rejected reason => "Request rejected: " ++ reason

/-- What is sent: to where, what, and when, in nanoseconds from the start. -/
structure Post where
  endpoint : String
  body : Json
  time : Nat

/-- What comes back. -/
abbrev Reply := Except TransportError Json

/-- What is outside of a run: the reply of the endpoint to each post, counted from zero, and the
    timer of the pauses. -/
structure Transport where
  reply : Nat → Post → Reply
  timer : Timer := .standard

instance : CoeFun Transport fun _ => Nat → Post → Reply := ⟨Transport.reply⟩

/-- A transport that gives prepared replies in order and empty lists when they have run out. -/
def Transport.ofReplies (replies : List Reply) : Transport where
  reply index _ := (replies[index]?).getD (.ok (.list []))

/-- A transport for an endpoint that is no URL. -/
def Transport.unreachable : Transport where
  reply _ _ := .error (.http "builder error")

/-! ## 3. Exchanges -/

/-- Cuts a list into pieces of a positive size; only the last one may be shorter. The first
    argument bounds the number of pieces. -/
def chunks {α : Type} (size : Nat) : Nat → List α → List (List α)
  | _, [] => []
  | 0, _ => []
  | fuel + 1, xs => xs.take size :: chunks size fuel (xs.drop size)

/-- The batches of a list of requests. -/
def batches (batchSize : Nat) (requests : List Json) : List (List Json) :=
  chunks (max batchSize 1) requests.length requests

/-- One batch and what came back. -/
structure Exchange where
  /-- The number of the batch, counted from zero. -/
  index : Nat
  requests : List Json
  post : Post
  reply : Reply

/-- The exchanges of a run. -/
def exchanges (requests : List Json) (endpoint : String) (options : FetchOptions)
    (transport : Transport) : List Exchange :=
  (batches options.batchSize requests).zipIdx.map fun (batch, index) =>
    let post : Post := ⟨endpoint, .list batch, transport.timer.after options.delay index⟩
    ⟨index, batch, post, transport index post⟩

/-- The accounts of the request at a position of a batch. -/
def Reply.accountsAt (reply : Reply) (position : Nat) : List RawAccount :=
  match reply with
  | .ok (.list items) =>
    match items[position]? with
    | some item => accounts item
    | none => []
  | _ => []

/-- The accounts of each request of a batch. -/
def Exchange.accounts (exchange : Exchange) : List (List RawAccount) :=
  (List.range exchange.requests.length).map (Reply.accountsAt exchange.reply)

/-- The accounts of each request, in the order of the requests. -/
def execute (requests : List Json) (endpoint : String) (options : FetchOptions)
    (transport : Transport) : List (List RawAccount) :=
  (exchanges requests endpoint options transport).flatMap Exchange.accounts

/-- When a run ends: pauses lie between batches only. -/
def elapsed (requests : List Json) (options : FetchOptions) (timer : Timer) : Nat :=
  timer.after options.delay ((batches options.batchSize requests).length - 1)

/-! ## 4. Sending -/

/-- What has gone over the wire since the start, and what time it is. -/
structure Wire where
  clock : Nat
  exchanges : List Exchange

/-- A wire that nothing has gone over. -/
def Wire.fresh : Wire := ⟨0, []⟩

/-- Posts a batch and takes the reply. -/
def Wire.post (endpoint : String) (transport : Transport) (batch : List Json) (index : Nat) :
    StateM Wire Exchange := fun wire =>
  let post : Post := ⟨endpoint, .list batch, wire.clock⟩
  let exchange : Exchange := ⟨index, batch, post, transport index post⟩
  (exchange, { wire with exchanges := wire.exchanges ++ [exchange] })

/-- Sleeps. -/
def Wire.sleep (timer : Timer) (asked : Duration) : StateM Wire Unit := fun wire =>
  ((), { wire with clock := timer.wake wire.clock asked })

/-- One of `count` turns: a batch with its number is posted and its answer shared out, and then
    there is a pause, unless none is asked for or no batch follows. -/
def Wire.turn (endpoint : String) (options : FetchOptions) (transport : Transport) (count : Nat) :
    List Json × Nat → StateM Wire (List (List RawAccount)) := fun (batch, index) => do
  let exchange ← Wire.post endpoint transport batch index
  if options.delay.nanoseconds ≠ 0 ∧ index + 1 < count then
    Wire.sleep transport.timer options.delay
  return exchange.accounts

/-- Sends requests batch by batch and gathers the accounts of each request. -/
def send (requests : List Json) (endpoint : String) (options : FetchOptions)
    (transport : Transport) : StateM Wire (List (List RawAccount)) := do
  let cut := batches options.batchSize requests
  return (← cut.zipIdx.mapM (Wire.turn endpoint options transport cut.length)).flatten

/-! ## 5. What is logged -/

/-- The events of a reply to a batch. -/
def Exchange.replyEvents (exchange : Exchange) (options : FetchOptions) : List Event :=
  let number := toString (exchange.index + 1)
  match exchange.reply with
  | .ok (.list items) =>
    (if options.debug then
      [⟨.debug, "getProgramAccounts batch response",
        [("response", (Json.list items).render)]⟩]
    else [])
    ++ (if items.length ≠ exchange.requests.length then
      [.warn ("Batch " ++ number ++ " returned " ++ toString items.length ++ " responses for "
        ++ toString exchange.requests.length ++ " requests")]
    else [])
    ++ (items.take exchange.requests.length).flatMap answerEvents
  | .ok other => [.warn ("Batch " ++ number ++ " returned a non-array response: " ++ other.render)]
  | .error e => [.warn ("Batch " ++ number ++ " failed: " ++ e.message)]

/-- The events of one of `count` batches. -/
def Exchange.events (exchange : Exchange) (options : FetchOptions) (count : Nat) : List Event :=
  (if options.debug then
    [⟨.debug, "getProgramAccounts batch", [("request", exchange.post.body.render)]⟩]
  else [])
  ++ [.debug ("Sending batch " ++ toString (exchange.index + 1) ++ "/" ++ toString count ++ " ("
    ++ toString exchange.requests.length ++ " requests) to " ++ exchange.post.endpoint)]
  ++ exchange.replyEvents options

/-- The events of a run. -/
def executeEvents (requests : List Json) (endpoint : String) (options : FetchOptions)
    (transport : Transport) : List Event :=
  let run := exchanges requests endpoint options transport
  run.flatMap fun exchange => exchange.events options run.length

end LedgerScan.Rpc
