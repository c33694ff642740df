/-!
# Base64

The standard alphabet with canonical padding: the text comes in quads of four symbols for three
bytes, only the last quad may be padded with `=`, it must be, and the bits that a padded quad drops
must be zero. So every byte string has exactly one text.

Reading looks at the last quad, complete or not, apart from the ones before it. `Error` says what
was wrong and where, counted in bytes of the text; when several things are wrong, the order of the
tests in `decode` decides which one is named.
-/

namespace LedgerScan.Base64

/-! ## 1. Symbols -/

/-- The sixty-four symbols in the order of their values. -/
def alphabet : List Char :=
  "ABCDEFGHIJKLMNOPQRSTUVWXYZabcdefghijklmnopqrstuvwxyz0123456789+/".toList

/-- The symbol of a value below 64. -/
def symbol (n : Nat) : Char :=
  alphabet.getD n 'A'

/-- The value of a symbol given as a byte. -/
def value? (byte : UInt8) : Option Nat :=
  let b := byte.toNat
  if 65 ≤ b ∧ b ≤ 90 then some (b - 65)
  else if 97 ≤ b ∧ b ≤ 122 then some (b - 97 + 26)
  else if 48 ≤ b ∧ b ≤ 57 then some (b - 48 + 52)
  else if b = 43 then some 62
  else if b = 47 then some 63
  else none

/-- The byte of the padding character. -/
def padding : UInt8 := 61

/-! ## 2. Writing -/

/-- The four symbols of three bytes. -/
def quadSymbols (a b c : UInt8) : List Char :=
  let n := (a.toNat * 256 + b.toNat) * 256 + c.toNat
  [symbol (n / 262144), symbol (n / 4096 % 64), symbol (n / 64 % 64), symbol (n % 64)]

/-- Three bytes as four symbols, and what is left at the end padded to four. -/
def encodeChars : List UInt8 → List Char
  | [] => []
  | [a] => (quadSymbols a 0 0).take 2 ++ ['=', '=']
  | [a, b] => (quadSymbols a b 0).take 3 ++ ['=']
  | a :: b :: c :: rest => quadSymbols a b c ++ encodeChars rest

/-- The text of a byte string. -/
def encode (bytes : List UInt8) : String :=
  String.ofList (encodeChars bytes)

/-! ## 3. Reading -/

/-- Why a text is not the text of any byte string. -/
inductive Error where
  /-- A byte that cannot stand where it does. -/
  | symbol (byte : UInt8) (offset : Nat)
  /-- The text ends after the first symbol of a quad. -/
  | length (n : Nat)
  /-- The last symbol has bits set that stand for nothing. -/
  | lastSymbol (byte : UInt8) (offset : Nat)
  /-- Padding is missing or too short. -/
  | padding
  deriving DecidableEq, Repr

/-- The text of an error. -/
def Error.message : Error → String
  | .symbol byte offset => s!"Invalid symbol {byte.toNat}, offset {offset}."
  | .length n => s!"Invalid input length: {n}"
  | .lastSymbol byte offset => s!"Invalid last symbol {byte.toNat}, offset {offset}."
  | .padding => "Invalid padding"

/-- The three bytes of four values. -/
def quadBytes (a b c d : Nat) : List UInt8 :=
  let n := ((a * 64 + b) * 64 + c) * 64 + d
  [UInt8.ofNat (n / 65536), UInt8.ofNat (n / 256), UInt8.ofNat n]

/-- Complete quads without padding. The first argument is the offset of the first byte. -/
def decodeQuads (offset : Nat) : List UInt8 → Except Error (List UInt8)
  | a :: b :: c :: d :: rest =>
    match value? a, value? b, value? c, value? d with
    | some va, some vb, some vc, some vd =>
      (decodeQuads (offset + 4) rest).map (quadBytes va vb vc vd ++ ·)
    | none, _, _, _ => .error (.symbol a offset)
    | _, none, _, _ => .error (.symbol b (offset + 1))
    | _, _, none, _ => .error (.symbol c (offset + 2))
    | _, _, _, none => .error (.symbol d (offset + 3))
  | _ => .ok []

/-- The last quad read as far as it goes: the values of its symbols with the bytes they came
    from, and how many paddings follow them. -/
structure Suffix where
  symbols : List (UInt8 × Nat)
  paddings : Nat
  deriving DecidableEq, Repr

/-- Reads the last quad from left to right. -/
def readSuffix (start position : Nat) (found : Suffix) : List UInt8 → Except Error Suffix
  | [] => .ok found
  | byte :: rest =>
    if byte = padding then
      if position < 2 then .error (.symbol byte (start + position))
      else readSuffix start (position + 1) { found with paddings := found.paddings + 1 } rest
    else if found.paddings ≠ 0 then .error (.symbol padding (start + found.symbols.length))
    else
      match value? byte with
      | none => .error (.symbol byte (start + position))
      | some v =>
        readSuffix start (position + 1) { found with symbols := found.symbols ++ [(byte, v)] } rest

/-- The bytes of the last quad. -/
def suffixBytes (start : Nat) (suffix : Suffix) : Except Error (List UInt8) :=
  if (suffix.symbols.length + suffix.paddings) % 4 ≠ 0 then .error .padding
  else
    match suffix.symbols with
    | [(_, a), (last, b)] =>
      if b % 16 ≠ 0 then .error (.lastSymbol last (start + 1))
      else .ok ((quadBytes a b 0 0).take 1)
    | [(_, a), (_, b), (last, c)] =>
      if c % 4 ≠ 0 then .error (.lastSymbol last (start + 2))
      else .ok ((quadBytes a b c 0).take 2)
    | [(_, a), (_, b), (_, c), (_, d)] => .ok (quadBytes a b c d)
    | symbols => .error (.length (start + symbols.length))

/-- The byte string of a text given as bytes. -/
def decode (text : List UInt8) : Except Error (List UInt8) :=
  let size := text.length
  let start := if size % 4 = 0 then size - 4 else size - size % 4
  match text.getLast? with
  | none => .ok []
  | some last =>
    if size % 4 = 1 ∧ last ≠ padding ∧ (value? last).isNone then
      .error (.symbol last (size - 1))
    else do
      let front ← decodeQuads 0 (text.take start)
      let suffix ← readSuffix start 0 ⟨[], 0⟩ (text.drop start)
      if suffix.symbols.length < 2 then .error (.length (start + suffix.symbols.length))
      else
        let back ← suffixBytes start suffix
        return front ++ back

end LedgerScan.Base64
