import LedgerScan.Json.Basic

/-!
# Records

A record is what an account is shown as: its wanted fields by name and, if asked for, metadata: the
address of the account, the request it answers and whatever the caller attached to the leaf.

As JSON the metadata stands among the fields under `$metadata`, and the address and the request
stand among the attached entries; under one key the metadata wins over a field, and the address
and the request win over what was attached.
-/

namespace LedgerScan

/-- What is attached to a record beside its fields. -/
structure Metadata where
  /-- What the caller attached to the leaf. -/
  extra : Entries Json
  pubkey : String
  requestId : Json

/-- A decoded account. -/
structure Record where
  fields : Entries Json
  metadata : Option Metadata

namespace Metadata

/-- The key of the address among the metadata. -/
def pubkeyKey : String := "pubkey"

/-- The key of the request among the metadata. -/
def requestKey : String := "requestId"

/-- Metadata as JSON. -/
def toJson (m : Metadata) : Json :=
  .object (Entries.insert requestKey m.requestId
    (Entries.insert pubkeyKey (.text m.pubkey) (Entries.ofList m.extra)))

end Metadata

namespace Record

/-- The key of the metadata among the fields. -/
def metadataKey : String := "$metadata"

/-- The value of a field. -/
def get? (record : Record) (field : String) : Option Json :=
  Entries.get? field record.fields

/-- The address of the account, known with the metadata. -/
def pubkey? (record : Record) : Option String :=
  record.metadata.map (·.pubkey)

/-- The record as JSON. -/
def toJson (record : Record) : Json :=
  match record.metadata with
  | none => .object record.fields
  | some m => .object (Entries.insert metadataKey m.toJson record.fields)

end Record

end LedgerScan
