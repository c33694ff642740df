import LedgerScan.Idl.Basic
import LedgerScan.Json.Document

/-!
# Reading interface descriptions

The document is an object whose members are known by name, or a list of the same members in the
order of their declaration; so are the objects inside it. Unknown members are passed over, a known
one may not be repeated, and one that is missing has its default if it has one: none, or an empty
list. A null is read as none and as nothing else.

The forms of a type, of a definition and of a reference are told apart by trying them in a fixed
order. Before that the part of the document is checked as a whole: every number and text in it must
have a value, and brackets may not be nested deeper than `maxDepth`, which also holds for everything
around it. Only what is passed over is free of these bounds.
-/

namespace LedgerScan.Idl

/-! ## 1. Parts of a document -/

/-- How many brackets may be open at once. -/
def maxDepth : Nat := 127

/-- The member of an object with one of some names, if there is exactly one. -/
def memberUnder? (names : List String) (members : List (Option String × Document)) :
    Option Document :=
  match members.filter fun m => m.1.any names.contains with
  | [(_, value)] => some value
  | _ => none

/-- How often an object has a member with a name. -/
def memberCount (name : String) (members : List (Option String × Document)) : Nat :=
  members.countP fun m => m.1 == some name

/-- The members with the given names in their order, each if it is there, of an object or of a list
    that stands for one. -/
def parts? (names : List String) : Document → Option (List (Option Document))
  | .object members =>
    if members.all (·.1.isSome) && names.all (memberCount · members ≤ 1) then
      some (names.map fun name => memberUnder? [name] members)
    else none
  | .list items =>
    if items.length ≤ names.length then
      some (items.map some ++ List.replicate (names.length - items.length) none)
    else none
  | _ => none

/-- A text that has a value. -/
def text? : Document → Option String
  | .text content => content
  | _ => none

/-- A number that is an integer from zero to a bound. -/
def natUpTo? (bound : Nat) : Document → Option Nat
  | .number (some (.int i)) => if 0 ≤ i ∧ i ≤ bound then some i.toNat else none
  | _ => none

/-- The items of a list. -/
def items? : Document → Option (List Document)
  | .list items => some items
  | _ => none

/-- A part that may be missing or null. -/
def optional? {α : Type} (read : Document → Option α) : Option Document → Option (Option α)
  | none => some none
  | some .null => some none
  | some part => (read part).map some

/-- A list that may be missing. -/
def listOrEmpty? {α : Type} (read : Document → Option (List α)) :
    Option Document → Option (List α)
  | none => some []
  | some part => read part

/-- A part that is an object or a list of its own: with room for one more bracket, it is read with
    the room that is left inside it. -/
def inside? {α : Type} (room : Nat) (read : Nat → Document → Option α) (part : Document) :
    Option α :=
  if 0 < room then read (room - 1) part else none

/-- A part that is checked as a whole before it is read. -/
def whole? {α : Type} (room : Nat) (read : Document → Option α) (part : Document) : Option α :=
  if part.readable room then read part else none

/-! ## 2. Type expressions -/

/-- A reference: an object with a name or a bare name. -/
def Reference.ofDocument? : Document → Option Reference
  | .object members => ((memberUnder? ["name"] members).bind text?).map .named
  | part => (text? part).map .plain

/-- Whether no member has one of some names. -/
def lacks (names : List String) (members : List (Option String × Document)) : Bool :=
  members.all fun m => !m.1.any names.contains

mutual

/-- A type: a text, or one of five forms with one part each, an object with that member or a list
    of that part alone. The forms are tried in the order array, option, vector, map, reference. -/
def TypeExpr.ofDocument? : Document → Option TypeExpr
  | .text content => content.map .simple
  | .list [part] =>
    (Extent.listOfDocument? part).map .array
      <|> (TypeExpr.ofDocument? part).map .option
      <|> (TypeExpr.ofDocument? part).map .vec
      <|> (TypeExpr.pairOfDocument? part).map (fun (k, v) => .map k v)
      <|> (Reference.ofDocument? part).map .defined
  | .object members =>
    (Extent.listUnder? members).map .array
      <|> (TypeExpr.under? ["option"] members).map .option
      <|> (TypeExpr.under? ["vec"] members).map .vec
      <|> (TypeExpr.pairUnder? members).map (fun (k, v) => .map k v)
      <|> ((memberUnder? ["defined"] members).bind Reference.ofDocument?).map .defined
  | _ => none

/-- A list of two types. -/
def TypeExpr.pairOfDocument? : Document → Option (TypeExpr × TypeExpr)
  | .list [key, value] => do
    let key ← TypeExpr.ofDocument? key
    let value ← TypeExpr.ofDocument? value
    return (key, value)
  | _ => none

/-- A list of types and lengths. -/
def Extent.listOfDocument? : Document → Option (List Extent)
  | .list parts => Extent.ofDocuments? parts
  | _ => none

/-- Types and lengths; what reads as a type is one. -/
def Extent.ofDocuments? : List Document → Option (List Extent)
  | [] => some []
  | part :: parts => do
    let extent ← (TypeExpr.ofDocument? part).map .nested
      <|> (natUpTo? 0xFFFFFFFF part).map .size
    let extents ← Extent.ofDocuments? parts
    return extent :: extents

/-- The type that an object has under one of some names, if under exactly one. -/
def TypeExpr.under? (names : List String) : List (Option String × Document) → Option TypeExpr
  | [] => none
  | (key, part) :: members =>
    if key.any names.contains then
      if lacks names members then TypeExpr.ofDocument? part else none
    else TypeExpr.under? names members

/-- The two types that an object has under either name of a map. -/
def TypeExpr.pairUnder? : List (Option String × Document) → Option (TypeExpr × TypeExpr)
  | [] => none
  | (key, part) :: members =>
    if key.any ["hashMap", "bTreeMap"].contains then
      if lacks ["hashMap", "bTreeMap"] members then TypeExpr.pairOfDocument? part else none
    else TypeExpr.pairUnder? members

/-- The types and lengths that an object has under the name of an array. -/
def Extent.listUnder? : List (Option String × Document) → Option (List Extent)
  | [] => none
  | (key, part) :: members =>
    if key.any ["array"].contains then
      if lacks ["array"] members then Extent.listOfDocument? part else none
    else Extent.listUnder? members

end

/-! ## 3. Definitions -/

/-- A field of a structure: a name and a type. -/
def Member.ofDocument? (part : Document) : Option Member := do
  match ← parts? ["name", "type"] part with
  | [some name, some type] => return ⟨← text? name, ← TypeExpr.ofDocument? type⟩
  | _ => none

/-- A variant of an enumeration: a name and the data it carries, which may be anything. -/
def Alternative.ofDocument? (part : Document) : Option Alternative := do
  match ← parts? ["name", "fields"] part with
  | [some name, fields] => return ⟨← text? name, ← optional? Document.value? fields⟩
  | _ => none

/-- The list under the second of two names, with the text under the name `kind`. -/
def Body.listUnder? {α : Type} (name : String) (read : Document → Option α)
    (members : List (Option String × Document)) : Option (String × List α) := do
  match ← parts? ["kind", name] (.object members) with
  | [some kind, some list] => return (← text? kind, ← (← items? list).mapM read)
  | _ => none

/-- A definition: an object with fields that have names, fields that have none, or variants. -/
def Body.ofDocument? : Document → Option Body
  | .object members =>
    (Body.listUnder? "fields" Member.ofDocument? members).map (fun (k, l) => .struct k l)
      <|> (Body.listUnder? "fields" TypeExpr.ofDocument? members).map (fun (k, l) => .tuple k l)
      <|> (Body.listUnder? "variants" Alternative.ofDocument? members).map (fun (k, l) => .enum k l)
  | _ => none

/-- The word for a serialization. -/
def Serialization.ofWord? : String → Option Serialization
  | "borsh" => some .borsh
  | "bytemuck" => some .bytemuck
  | "bytemuckunsafe" => some .bytemuckUnsafe
  | _ => none

/-- A serialization: a word, or an object with that word as its only name and null under it. -/
def Serialization.ofDocument? (room : Nat) : Document → Option Serialization
  | .text (some word) => Serialization.ofWord? word
  | .object [(some word, .null)] => if 0 < room then Serialization.ofWord? word else none
  | _ => none

/-- The declaration of a type. -/
def Declaration.ofDocument? (room : Nat) (part : Document) : Option Declaration := do
  match ← parts? ["name", "serialization", "type"] part with
  | [some name, serialization, some type] =>
    return ⟨← text? name, ← optional? (Serialization.ofDocument? room) serialization,
      ← whole? room Body.ofDocument? type⟩
  | _ => none

/-- The bytes of a discriminator. -/
def discriminatorOfDocument? (part : Document) : Option (List UInt8) := do
  (← items? part).mapM fun item => (natUpTo? 255 item).map UInt8.ofNat

/-- An account type. -/
def Account.ofDocument? (room : Nat) (part : Document) : Option Account := do
  match ← parts? ["name", "discriminator", "type"] part with
  | [some name, discriminator, type] =>
    return ⟨← text? name,
      ← listOrEmpty? (inside? room fun _ => discriminatorOfDocument?) discriminator,
      ← optional? (whole? room Body.ofDocument?) type⟩
  | _ => none

/-- What a newer document says about the program. -/
def Metadata.ofDocument? (part : Document) : Option Metadata := do
  match ← parts? ["name", "version", "address"] part with
  | [name, version, address] =>
    return ⟨← optional? text? name, ← optional? text? version, ← optional? text? address⟩
  | _ => none

/-- A list of objects, with the room that is left inside each of them. -/
def listOf? {α : Type} (read : Nat → Document → Option α) (room : Nat) (part : Document) :
    Option (List α) := do
  (← items? part).mapM (inside? room read)

/-- The description that a document is. -/
def ofDocument? (document : Document) : Option Idl := do
  let room := maxDepth - 1
  match ← parts? ["version", "name", "address", "accounts", "types", "metadata"] document with
  | [version, name, address, accounts, types, metadata] =>
    return ⟨← optional? text? version, ← optional? text? name, ← optional? text? address,
      ← listOrEmpty? (inside? room (listOf? Account.ofDocument?)) accounts,
      ← listOrEmpty? (inside? room (listOf? Declaration.ofDocument?)) types,
      ← optional? (inside? room fun _ => Metadata.ofDocument?) metadata⟩
  | _ => none

/-- The description that a text is. -/
def parse? (text : String) : Option Idl :=
  (Document.parse? text).bind ofDocument?

end LedgerScan.Idl
