import LedgerScan.Borsh.Decode
import LedgerScan.Codec.Base64
import LedgerScan.Filter.Pushdown
import LedgerScan.Record.Basic
import LedgerScan.Rpc.Account
import LedgerScan.Settings

/-!
# Rebuilding records

An account comes back as base64 of its data or of a window of it. A window is put back in its place,
the record is decoded from the whole, and only the wanted fields are kept; what was padded with
zeros is never among them. If no field is wanted the data is not even looked at.

Then the predicates that could not be pushed down are asked in order, each for its field in the kept
fields, null if it is not there, until one rejects.
-/

namespace LedgerScan

/-- Everything needed to send the request of one leaf and to rebuild its records. -/
structure LeafPlan where
  /-- The number of the leaf. -/
  node : Nat
  record : String
  address : String
  selection : Selection
  pushdown : Pushdown
  metadata : Entries Json
  requestId : Json
  request : Json

/-- Why an account is no record. -/
inductive RebuildError where
  | base64 (error : Base64.Error)
  | decode (error : DecodeError)
  deriving DecidableEq, Repr

/-- The text of an error. -/
def RebuildError.message : RebuildError → String
  | .base64 error => "base64 decode failed: " ++ error.message
  | .decode error => error.message

/-- A question put to a predicate: its field, the value of the field, and how many fields there
    were in all. -/
structure Consultation where
  field : String
  value : Json
  size : Nat

namespace LeafPlan

/-! ## 1. Fields -/

/-- The data that a record is decoded from. -/
def wholeData (plan : LeafPlan) (bytes : List UInt8) : List UInt8 :=
  match plan.selection, plan.pushdown.window with
  | .fields (_ :: _), some window => window.pad plan.pushdown.totalLength bytes
  | _, _ => bytes

/-- The wanted fields of an account. -/
def fields (plan : LeafPlan) (schema : Schema) (account : RawAccount) :
    Except RebuildError (Entries Json) :=
  if plan.selection = .nothing then .ok []
  else
    match Base64.decode (Utf8.encode account.data) with
    | .error e => .error (.base64 e)
    | .ok bytes =>
      match schema.decodeRecord plan.record (plan.wholeData bytes) with
      | .error e => .error (.decode e)
      | .ok decoded => .ok (decoded.filter fun entry => plan.selection.wants entry.1)

/-- The fields that predicates see: none for an account that is kept undecoded, and nothing at all
    for one that is dropped. -/
def shown? (plan : LeafPlan) (schema : Schema) (options : FetchOptions) (account : RawAccount) :
    Option (Entries Json) :=
  match plan.fields schema account with
  | .ok fields => some fields
  | .error _ => if options.keepUndecodable then some [] else none

/-! ## 2. Predicates -/

/-- Whether all predicates accept the fields. -/
def accepts (predicates : List (String × Predicate)) (fields : Entries Json) : Bool :=
  predicates.all fun p => p.2 ((Entries.get? p.1 fields).getD .null) fields

/-- The questions that are put until a predicate rejects. -/
def consultations (fields : Entries Json) : List (String × Predicate) → List Consultation
  | [] => []
  | (field, test) :: rest =>
    let value := (Entries.get? field fields).getD .null
    ⟨field, value, fields.length⟩ ::
      (if test value fields then consultations fields rest else [])

/-! ## 3. Records -/

/-- The metadata of a record of this leaf. -/
def metadataFor (plan : LeafPlan) (account : RawAccount) : Metadata where
  extra := Entries.erase Metadata.requestKey (Entries.erase Metadata.pubkeyKey plan.metadata)
  pubkey := account.pubkey
  requestId := plan.requestId

/-- The record that an account becomes, if it is not left out. -/
def rebuild? (plan : LeafPlan) (schema : Schema) (options : FetchOptions)
    (account : RawAccount) : Option Record :=
  match plan.shown? schema options account with
  | none => none
  | some fields =>
    if accepts plan.pushdown.predicates fields then
      some ⟨fields, if options.metadata then some (plan.metadataFor account) else none⟩
    else none

/-- The questions that are put about an account. -/
def rebuildConsultations (plan : LeafPlan) (schema : Schema) (options : FetchOptions)
    (account : RawAccount) : List Consultation :=
  match plan.shown? schema options account with
  | none => []
  | some fields => consultations fields plan.pushdown.predicates

/-- What is logged about an account. -/
def rebuildEvents (plan : LeafPlan) (schema : Schema) (options : FetchOptions)
    (account : RawAccount) : List Event :=
  match plan.fields schema account with
  | .ok _ => []
  | .error e =>
    let verb := if options.keepUndecodable then "Keeping" else "Dropping"
    [.warn (verb ++ " undecodable account " ++ account.pubkey ++ ": " ++ e.message)]

end LeafPlan

end LedgerScan
