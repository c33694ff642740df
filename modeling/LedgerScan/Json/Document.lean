import LedgerScan.Json.Basic
import LedgerScan.Json.Quoted

/-!
# JSON documents

A document is what a text in JSON's grammar says, before anything is asked of its values. It keeps
what a value no longer shows: the members of an object in the order of the text, repeated keys
included; and it has room for two things that have a correct form and no value, a number too large
for a double and a text with half a surrogate pair (`none` in both cases). A reader that passes
over a part of a document accepts these, a reader that takes the part does not.

* `Document.parse?` reads a text: one value with blanks around it and nothing else;
* `Document.value?` is the value of a document, if all its numbers and texts have one;
* `Document.readable` also bounds how deep brackets are nested.
-/

namespace LedgerScan

/-- A JSON document. -/
inductive Document where
  | null
  | bool (b : Bool)
  | number (n : Option Number)
  | text (s : Option String)
  | list (items : List Document)
  | object (members : List (Option String × Document))
  deriving Repr, Inhabited

namespace Document

/-! ## 1. Reading a text -/

/-- The four blanks of the grammar. -/
def isBlank (c : Char) : Bool :=
  c == ' ' || c == '\t' || c == '\n' || c == '\r'

/-- A text without the blanks at its front. -/
def skipBlanks (input : List Char) : List Char :=
  input.dropWhile isBlank

/-- What follows a word at the front of a text. -/
def afterWord? : List Char → List Char → Option (List Char)
  | [], rest => some rest
  | w :: word, c :: rest => if w = c then afterWord? word rest else none
  | _ :: _, [] => none

/-- The content of a quoted text whose opening quote is gone, and what follows it. -/
def readQuoted? (input : List Char) : Option (Option String × List Char) :=
  match Json.Quoted.scan input with
  | some (pieces, rest) => some ((Json.Quoted.assemble pieces).map String.ofList, rest)
  | none => none

mutual

/-- One value, with blanks allowed before it. The first argument bounds the number of steps. -/
def read? : Nat → List Char → Option (Document × List Char)
  | 0, _ => none
  | steps + 1, input =>
    match skipBlanks input with
    | [] => none
    | c :: rest =>
      if c = '[' then
        match skipBlanks rest with
        | ']' :: rest => some (.list [], rest)
        | rest => (readItems? steps rest).map fun (items, rest) => (.list items, rest)
      else if c = '{' then
        match skipBlanks rest with
        | '}' :: rest => some (.object [], rest)
        | rest => (readMembers? steps rest).map fun (members, rest) => (.object members, rest)
      else if c = '"' then
        (readQuoted? rest).map fun (content, rest) => (.text content, rest)
      else if c = 'n' then (afterWord? ['u', 'l', 'l'] rest).map fun rest => (.null, rest)
      else if c = 't' then (afterWord? ['r', 'u', 'e'] rest).map fun rest => (.bool true, rest)
      else if c = 'f' then
        (afterWord? ['a', 'l', 's', 'e'] rest).map fun rest => (.bool false, rest)
      else
        (NumberText.read? (c :: rest)).map fun (written, rest) => (.number written.value?, rest)

/-- One item or more, each but the last followed by a comma, up to the closing bracket. -/
def readItems? : Nat → List Char → Option (List Document × List Char)
  | 0, _ => none
  | steps + 1, input => do
    let (item, rest) ← read? steps input
    match skipBlanks rest with
    | ',' :: rest =>
      let (items, rest) ← readItems? steps rest
      return (item :: items, rest)
    | ']' :: rest => return ([item], rest)
    | _ => none

/-- One member or more, each but the last followed by a comma, up to the closing brace. -/
def readMembers? : Nat → List Char → Option (List (Option String × Document) × List Char)
  | 0, _ => none
  | steps + 1, input =>
    match skipBlanks input with
    | '"' :: rest => do
      let (key, rest) ← readQuoted? rest
      match skipBlanks rest with
      | ':' :: rest =>
        let (value, rest) ← read? steps rest
        match skipBlanks rest with
        | ',' :: rest =>
          let (members, rest) ← readMembers? steps rest
          return ((key, value) :: members, rest)
        | '}' :: rest => return ([(key, value)], rest)
        | _ => none
      | _ => none
    | _ => none

end

/-- The document that a whole text says. Every second step consumes a character, so twice the
    length of the text bounds the steps. -/
def parse? (input : String) : Option Document :=
  let chars := input.toList
  match read? (2 * chars.length + 2) chars with
  | some (document, rest) => if (skipBlanks rest).isEmpty then some document else none
  | none => none

/-! ## 2. The value of a document -/

mutual

/-- The value of a document; of two members with one key the later one stays. -/
def value? : Document → Option Json
  | .null => some .null
  | .bool b => some (.bool b)
  | .number n => n.map .number
  | .text s => s.map .text
  | .list items => (itemValues? items).map .list
  | .object members => (memberValues? members).map Json.ofPairs

/-- The values of the items of a list. -/
def itemValues? : List Document → Option (List Json)
  | [] => some []
  | item :: items => do
    let value ← value? item
    let values ← itemValues? items
    return value :: values

/-- The keys and values of the members of an object, in the order of the text. -/
def memberValues? : List (Option String × Document) → Option (List (String × Json))
  | [] => some []
  | (key, member) :: members => do
    let key ← key
    let value ← value? member
    let values ← memberValues? members
    return (key, value) :: values

end

mutual

/-- Whether every number and text has a value and no more than `depth` brackets are open at once. -/
def readable (depth : Nat) : Document → Bool
  | .null => true
  | .bool _ => true
  | .number n => n.isSome
  | .text s => s.isSome
  | .list items => 0 < depth && readableItems (depth - 1) items
  | .object members => 0 < depth && readableMembers (depth - 1) members

/-- Every item of a list. -/
def readableItems (depth : Nat) : List Document → Bool
  | [] => true
  | item :: items => readable depth item && readableItems depth items

/-- Every key and value of an object. -/
def readableMembers (depth : Nat) : List (Option String × Document) → Bool
  | [] => true
  | (key, member) :: members =>
    key.isSome && readable depth member && readableMembers depth members

end

end Document

namespace Json

/-- The value that a text says. -/
def parse? (text : String) : Option Json :=
  (Document.parse? text).bind Document.value?

end Json

end LedgerScan
