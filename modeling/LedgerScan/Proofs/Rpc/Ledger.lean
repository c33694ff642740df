import LedgerScan.Codec.Base64
import LedgerScan.Proofs.Codec.Base58
import LedgerScan.Proofs.Filter.Window
import LedgerScan.Rpc.Batch
import LedgerScan.Rpc.Request

/-!
# An honest node

A node holds the accounts of every program in some order. Asked for the accounts of one, it goes
through them in that order, keeps those whose data pass every test of the request and answers the
base64 of the window that the request names, or of the whole data. `Ledger.transport` is such a
node behind an endpoint.

The node knows nothing of how requests are built: it reads them as they come
(`NodeQuery.ofJson?`). What it reads from the request of a leaf are the bytes, the size and the
window of its plan (`ofJson?_request`), and what is read from its answer are the accounts that it
keeps (`accounts_answer`).
-/

namespace LedgerScan

open Fallible

/-- An account as the node holds it. -/
structure StoredAccount where
  pubkey : String
  data : List UInt8

/-- The accounts of every program by its address, in the order of the node. -/
abbrev Ledger := String → List StoredAccount

/-! ## 1. Reading a request -/

/-- The number that a value is. -/
def Json.asNat? : Json → Option Nat
  | .number (.int i) => i.toNat?
  | _ => none

/-- A test of the data of an account. -/
inductive NodeTest where
  | memcmp (offset : Nat) (bytes : List UInt8)
  | dataSize (size : Nat)

namespace NodeTest

/-- Whether data pass a test. Bytes that reach beyond the data are not there. -/
def admits (data : List UInt8) : NodeTest → Bool
  | .memcmp offset bytes =>
    decide (offset + bytes.length ≤ data.length) && (data.drop offset).take bytes.length == bytes
  | .dataSize size => data.length == size

/-- The test that a filter entry asks for. -/
def ofJson? (entry : Json) : Option NodeTest :=
  match entry.get? "memcmp" with
  | some comparison => do
    let offset ← (← comparison.get? "offset").asNat?
    let bytes ← Base58.decode? (← (← comparison.get? "bytes").asText?)
    return .memcmp offset bytes
  | none => do
    let size ← (← entry.get? "dataSize").asNat?
    return .dataSize size

end NodeTest

/-- The window that a request names. -/
def Window.ofJson? (value : Json) : Option Window := do
  let offset ← (← value.get? "offset").asNat?
  let length ← (← value.get? "length").asNat?
  return ⟨offset, length⟩

/-- A request as the node understands it. -/
structure NodeQuery where
  address : String
  tests : List NodeTest
  window : Option Window

namespace NodeQuery

/-- The tests that the options of a request name, none if they name no filters. -/
def tests? (options : Json) : Option (List NodeTest) :=
  match options.get? "filters" with
  | none => some []
  | some filters => do (← filters.asList?).mapM NodeTest.ofJson?

/-- The window that the options of a request name, if they name one. -/
def window? (options : Json) : Option (Option Window) :=
  match options.get? "dataSlice" with
  | none => some none
  | some value => (Window.ofJson? value).map some

/-- Reads a request: the address of a program and options. -/
def ofJson? (request : Json) : Option NodeQuery :=
  match request.get? "params" with
  | some (.list [.text address, options]) => do
    return ⟨address, ← tests? options, ← window? options⟩
  | _ => none

/-- Whether an account is kept. -/
def admits (query : NodeQuery) (data : List UInt8) : Bool :=
  query.tests.all (NodeTest.admits data)

/-- What is answered of the data of an account. -/
def cut (query : NodeQuery) (data : List UInt8) : List UInt8 :=
  match query.window with
  | some window => window.cut data
  | none => data

end NodeQuery

/-! ## 2. Answering -/

namespace Ledger

/-- An account in an answer. -/
def item (pubkey : String) (bytes : List UInt8) : Json :=
  .ofPairs [("pubkey", .text pubkey),
    ("account", .ofPairs [("data", .list [.text (Base64.encode bytes), .text "base64"])])]

/-- The accounts that a query keeps, in the order of the node. -/
def kept (ledger : Ledger) (query : NodeQuery) : List StoredAccount :=
  (ledger query.address).filter fun account => query.admits account.data

/-- The answer to a request. -/
def answer (ledger : Ledger) (request : Json) : Json :=
  match NodeQuery.ofJson? request with
  | some query => .ofPairs [("jsonrpc", .text "2.0"),
      ("result", .list ((ledger.kept query).map fun account =>
        item account.pubkey (query.cut account.data)))]
  | none => .ofPairs [("jsonrpc", .text "2.0"), ("error", .text "Invalid params")]

/-- The reply to a post: of a batch every request is answered, in the order of the batch. -/
def reply (ledger : Ledger) (post : Rpc.Post) : Rpc.Reply :=
  match post.body with
  | .list requests => .ok (.list (requests.map ledger.answer))
  | _ => .error (.rejected "not a batch")

/-- **An honest node** behind an endpoint: it replies to every post. -/
def transport (ledger : Ledger) : Rpc.Transport where
  reply _ post := ledger.reply post

end Ledger

/-! ## 3. What the node reads -/

@[simp] theorem Json.asNat?_nat (n : Nat) : (Json.nat n).asNat? = some n := rfl

/-- Of pairs with one key the last one is found. -/
theorem Json.get?_ofPairs (key : String) (pairs : List (String × Json)) :
    (Json.ofPairs pairs).get? key
      = pairs.foldl (fun found pair => if pair.1 = key then some pair.2 else found) none := by
  have step : ∀ (pairs : List (String × Json)) (entries : Entries Json),
      Entries.get? key (Entries.merge entries pairs) = pairs.foldl
        (fun found pair => if pair.1 = key then some pair.2 else found)
        (Entries.get? key entries) := by
    intro pairs
    induction pairs with
    | nil => exact fun entries => rfl
    | cons pair pairs ih =>
      intro entries
      rw [List.foldl_cons, ← Entries.get?_insert]
      exact ih _
  exact step pairs []

theorem NodeTest.ofJson?_memcmp (literal : Nat × List UInt8) :
    NodeTest.ofJson? (.ofPairs [("memcmp", .ofPairs [("offset", .nat literal.1),
      ("bytes", .text (Base58.encode literal.2))])]) = some (.memcmp literal.1 literal.2) := by
  simp [NodeTest.ofJson?, Json.get?_ofPairs, Json.asText?, Base58.decode?_encode]

theorem NodeTest.ofJson?_dataSize (size : Nat) :
    NodeTest.ofJson? (.ofPairs [("dataSize", .nat size)]) = some (.dataSize size) := by
  simp [NodeTest.ofJson?, Json.get?_ofPairs]

theorem Window.ofJson?_toJson (window : Window) :
    Window.ofJson? window.toJson = some window := by
  simp [Window.ofJson?, Window.toJson, Json.get?_ofPairs]

/-- The tests that a plan asks for. -/
def Pushdown.tests (pushdown : Pushdown) : List NodeTest :=
  pushdown.literals.map (fun literal => .memcmp literal.1 literal.2)
    ++ pushdown.dataSize?.toList.map .dataSize

/-- The window that a plan asks for: none if the record has no bytes. -/
def Pushdown.asked (pushdown : Pushdown) : Option Window :=
  if 0 < pushdown.totalLength then pushdown.window else none

theorem mapM_filterEntries (pushdown : Pushdown) :
    pushdown.filterEntries.mapM NodeTest.ofJson? = some pushdown.tests := by
  rw [Pushdown.filterEntries, List.mapM_append,
    mapM_map_eq_some fun literal _ => NodeTest.ofJson?_memcmp literal,
    mapM_map_eq_some fun size _ => NodeTest.ofJson?_dataSize size]
  rfl

theorem get?_filters_requestOptions (pushdown : Pushdown) (commitment : Commitment) :
    (pushdown.requestOptions commitment).get? "filters"
      = if pushdown.filterEntries.isEmpty then none else some (.list pushdown.filterEntries) := by
  unfold Pushdown.requestOptions
  split <;> cases h : pushdown.filterEntries.isEmpty <;> simp [Json.get?_ofPairs, h]

theorem get?_dataSlice_requestOptions (pushdown : Pushdown) (commitment : Commitment) :
    (pushdown.requestOptions commitment).get? "dataSlice" = pushdown.asked.map Window.toJson := by
  unfold Pushdown.requestOptions Pushdown.asked Pushdown.dataSize?
  cases pushdown.window <;> cases h : pushdown.filterEntries.isEmpty <;>
    by_cases hsize : 0 < pushdown.totalLength <;> simp [Json.get?_ofPairs, h, hsize]

theorem tests?_requestOptions (pushdown : Pushdown) (commitment : Commitment) :
    NodeQuery.tests? (pushdown.requestOptions commitment) = some pushdown.tests := by
  have hread := mapM_filterEntries pushdown
  unfold NodeQuery.tests?
  rw [get?_filters_requestOptions]
  cases hentries : pushdown.filterEntries with
  | nil =>
    rw [hentries] at hread
    exact hread
  | cons entry entries =>
    rw [hentries] at hread
    exact hread

theorem window?_requestOptions (pushdown : Pushdown) (commitment : Commitment) :
    NodeQuery.window? (pushdown.requestOptions commitment) = some pushdown.asked := by
  unfold NodeQuery.window?
  rw [get?_dataSlice_requestOptions]
  cases pushdown.asked with
  | none => rfl
  | some window => exact congrArg (Option.map some) (Window.ofJson?_toJson window)

theorem get?_params_request (pushdown : Pushdown) (address : String) (commitment : Commitment) :
    (pushdown.request address commitment).get? "params"
      = some (.list [.text address, pushdown.requestOptions commitment]) := by
  simp [Pushdown.request, Json.get?_ofPairs]

/-- **The node reads from a request what was planned.** -/
theorem ofJson?_request (pushdown : Pushdown) (address : String) (commitment : Commitment) :
    NodeQuery.ofJson? (pushdown.request address commitment)
      = some ⟨address, pushdown.tests, pushdown.asked⟩ := by
  unfold NodeQuery.ofJson?
  rw [get?_params_request]
  simp only [tests?_requestOptions, window?_requestOptions]
  rfl

/-! ## 4. What comes back -/

theorem ofJson?_item (pubkey : String) (bytes : List UInt8) :
    RawAccount.ofJson? (Ledger.item pubkey bytes) = some ⟨pubkey, Base64.encode bytes⟩ := by
  simp [RawAccount.ofJson?, Ledger.item, Json.get?_ofPairs, Json.asText?, RawAccount.dataText?]

/-- **What is read from an answer are the accounts that the node keeps.** -/
theorem accounts_answer {ledger : Ledger} {request : Json} {query : NodeQuery}
    (h : NodeQuery.ofJson? request = some query) :
    Rpc.accounts (ledger.answer request) = (ledger.kept query).map fun account =>
      ⟨account.pubkey, Base64.encode (query.cut account.data)⟩ := by
  have hanswer : Rpc.Answer.ofJson (ledger.answer request) = .accounts
      ((ledger.kept query).map fun account =>
        Ledger.item account.pubkey (query.cut account.data)) := by
    unfold Ledger.answer
    rw [h]
    simp [Rpc.Answer.ofJson, Json.get?_ofPairs]
  unfold Rpc.accounts
  rw [hanswer]
  simp only [List.filterMap_map, Function.comp_def, ofJson?_item]
  exact congrFun List.filterMap_eq_map _

end LedgerScan
