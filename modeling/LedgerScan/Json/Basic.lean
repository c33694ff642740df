import LedgerScan.Entries
import LedgerScan.Json.Number

/-!
# JSON values

A value holds what a JSON document says and nothing of how it was written: objects are finite maps
(`Entries`), numbers are integers or doubles. Two values are the `same` when they say the same;
this differs from equality of the terms only in that the two zeros among the doubles are one value.
-/

namespace LedgerScan

/-- A JSON value. The entries of an object are in ascending order of their keys. -/
inductive Json where
  | null
  | bool (b : Bool)
  | number (n : Number)
  | text (s : String)
  | list (items : List Json)
  | object (entries : List (String × Json))
  deriving Repr, Inhabited

namespace Json

/-! ## 1. Building -/

/-- An integer value. -/
def int (i : Int) : Json := .number (.int i)

/-- A natural number. -/
def nat (n : Nat) : Json := .number (.int n)

/-- A double; what is not finite has no JSON number and is null. -/
def float (bits : UInt64) : Json :=
  if Binary64.isFinite bits then .number (.float bits) else .null

/-- An object from pairs in any order; the last pair with a key decides. -/
def ofPairs (pairs : List (String × Json)) : Json :=
  .object (Entries.ofList pairs)

/-! ## 2. Looking in -/

/-- The value under a key of an object; nothing else has keys. -/
def get? (key : String) : Json → Option Json
  | .object entries => Entries.get? key entries
  | _ => none

/-- The content of a text. -/
def asText? : Json → Option String
  | .text s => some s
  | _ => none

theorem asText?_eq_some {value : Json} {s : String} :
    value.asText? = some s ↔ value = .text s := by
  constructor
  · intro h
    cases value with
    | text t => exact congrArg text (Option.some.inj h)
    | null | bool | number | list | object => cases h
  · rintro rfl
    rfl

/-- The items of a list. -/
def asList? : Json → Option (List Json)
  | .list items => some items
  | _ => none

/-! ## 3. Sameness -/

mutual

/-- Whether two values say the same. -/
def same : Json → Json → Bool
  | .null, .null => true
  | .bool a, .bool b => a == b
  | .number a, .number b => a.same b
  | .text a, .text b => a == b
  | .list as, .list bs => sameItems as bs
  | .object as, .object bs => sameEntries as bs
  | _, _ => false

/-- Item by item. -/
def sameItems : List Json → List Json → Bool
  | [], [] => true
  | a :: as, b :: bs => same a b && sameItems as bs
  | _, _ => false

/-- Entry by entry; both are in the order of their keys. -/
def sameEntries : List (String × Json) → List (String × Json) → Bool
  | [], [] => true
  | (k, a) :: as, (l, b) :: bs => k == l && same a b && sameEntries as bs
  | _, _ => false

end

end Json

end LedgerScan
