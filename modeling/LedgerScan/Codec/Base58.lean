/-!
# Base58

Bytes read as one big-endian number, written in base 58. The alphabet leaves out the zero, the
capital `O` and `I` and the small `l`. A number does not show zero bytes in front, so each of them
is written as one leading `1`, the digit zero; reading undoes both parts, and so every byte string
has exactly one text.
-/

namespace LedgerScan.Base58

/-! ## 1. Digits -/

/-- The fifty-eight digits in the order of their values. -/
def alphabet : List Char :=
  "123456789ABCDEFGHJKLMNPQRSTUVWXYZabcdefghijkmnopqrstuvwxyz".toList

/-- The digit of a value below 58. -/
def digitChar (d : Nat) : Char :=
  alphabet.getD d '1'

/-- The value of a digit. -/
def digitValue? (c : Char) : Option Nat :=
  alphabet.idxOf? c

/-- The digits of a number in a base, most significant first and none for zero. The fuel bounds
    the number of digits. -/
def digitsIn (base : Nat) : Nat → Nat → List Nat
  | 0, _ => []
  | fuel + 1, n => if n = 0 then [] else digitsIn base fuel (n / base) ++ [n % base]

/-- The number that digits in a base stand for, most significant first. -/
def ofDigits (base : Nat) (digits : List Nat) : Nat :=
  digits.foldl (fun n d => n * base + d) 0

/-! ## 2. Writing and reading -/

/-- The text of a byte string. A number has fewer base-58 digits than twice its bytes. -/
def encode (bytes : List UInt8) : String :=
  let zeros := bytes.takeWhile (· == 0)
  let rest := bytes.dropWhile (· == 0)
  let digits := digitsIn 58 (2 * rest.length) (ofDigits 256 (rest.map UInt8.toNat))
  String.ofList (zeros.map (fun _ => '1') ++ digits.map digitChar)

/-- The byte string of a text, if all its characters are digits. -/
def decode? (text : String) : Option (List UInt8) := do
  let digits ← text.toList.mapM digitValue?
  let zeros := digits.takeWhile (· == 0)
  let rest := digits.dropWhile (· == 0)
  let bytes := digitsIn 256 rest.length (ofDigits 58 rest)
  return zeros.map (fun _ => 0) ++ bytes.map UInt8.ofNat

end LedgerScan.Base58
