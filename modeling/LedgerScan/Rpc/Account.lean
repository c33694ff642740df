import LedgerScan.Json.Printer
import LedgerScan.Log

/-!
# Accounts in an answer

The answer to one request holds a list of accounts as its result, or as the value of its result. An
account has the text of its address and its data in base64, either as a text or as the first item
of a list. Whatever does not have this form is passed over: an account alone, or the whole answer.
-/

namespace LedgerScan

/-- An account as the node sends it. -/
structure RawAccount where
  pubkey : String
  /-- Base64 of the data or of a window of it. -/
  data : String
  deriving DecidableEq, Repr

namespace RawAccount

/-- The base64 text of account data: a text, or the first item of a list. -/
def dataText? : Json → Option String
  | .text blob => some blob
  | .list (first :: _) => first.asText?
  | _ => none

/-- The account that a value describes. -/
def ofJson? (value : Json) : Option RawAccount := do
  let pubkey ← (← value.get? "pubkey").asText?
  let data ← dataText? (← (← value.get? "account").get? "data")
  return ⟨pubkey, data⟩

end RawAccount

namespace Rpc

/-- What an answer turns out to be. -/
inductive Answer where
  /-- The node reports an error. -/
  | failed (error : Json)
  /-- A list of account values. -/
  | accounts (values : List Json)
  /-- A result without a list in it. -/
  | empty
  /-- No result at all. -/
  | noResult

/-- Tells the forms of an answer apart; an error goes before a result. -/
def Answer.ofJson (answer : Json) : Answer :=
  match answer.get? "error" with
  | some error => .failed error
  | none =>
    match answer.get? "result" with
    | some (.list values) => .accounts values
    | some (.object entries) =>
      match Entries.get? "value" entries with
      | some (.list values) => .accounts values
      | _ => .empty
    | _ => .noResult

/-- The accounts in an answer. -/
def accounts (answer : Json) : List RawAccount :=
  match Answer.ofJson answer with
  | .accounts values => values.filterMap RawAccount.ofJson?
  | _ => []

/-- What is logged about an answer. -/
def answerEvents (answer : Json) : List Event :=
  match Answer.ofJson answer with
  | .failed error => [.warn ("getProgramAccounts error: " ++ error.render)]
  | .noResult => [.warn "getProgramAccounts response missing result"]
  | .accounts _ | .empty => []

end Rpc

end LedgerScan
