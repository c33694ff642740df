import LedgerScan.Binary64.Shortest

/-!
# JSON numbers

A number written without a point and without an exponent that fits 64 bits, signed or unsigned, is
an integer; `-0` and every other number is a double. An integer never equals a double.

A text is first taken apart (`NumberText.read?`) and then evaluated (`NumberText.value?`). The
value of a double is computed, not looked up: the digits are collected into a 64-bit significand
for as long as they fit, the significand is rounded to a double, and that double is multiplied or
divided by the power of ten that is left. Digits that no longer fit are dropped; before the point
each of them still counts as a factor of ten. A number too large for a double has no value.
-/

namespace LedgerScan

/-- A JSON number. -/
inductive Number where
  | int (i : Int)
  | float (bits : UInt64)
  deriving DecidableEq, Repr, Inhabited

namespace Number

/-- Equality of values; integers and doubles are never equal. -/
def same : Number → Number → Bool
  | .int a, .int b => a == b
  | .float a, .float b => Binary64.same a b
  | _, _ => false

/-- The text of a number. -/
def encode : Number → List Char
  | .int i =>
    if i < 0 then '-' :: Binary64.digitChars (-i).toNat else Binary64.digitChars i.toNat
  | .float bits => Binary64.text bits

end Number

/-! ## 1. Taking a text apart -/

/-- The digits of a number as they are written. -/
structure NumberText where
  negative : Bool
  whole : List Nat
  fraction : Option (List Nat)
  /-- Sign and digits of the exponent; the sign is true for a negative one. -/
  exponent : Option (Bool × List Nat)
  deriving DecidableEq, Repr

namespace NumberText

/-- The value of a decimal digit. -/
def digit? (c : Char) : Option Nat :=
  if '0' ≤ c ∧ c ≤ '9' then some (c.toNat - '0'.toNat) else none

/-- The digits a text begins with, and what follows them. -/
def digits : List Char → List Nat × List Char
  | [] => ([], [])
  | c :: rest =>
    match digit? c with
    | some d => (d :: (digits rest).1, (digits rest).2)
    | none => ([], c :: rest)

/-- The part after a point: at least one digit. -/
def readFraction? : List Char → Option (Option (List Nat) × List Char)
  | '.' :: rest =>
    match digits rest with
    | ([], _) => none
    | (ds, rest) => some (some ds, rest)
  | rest => some (none, rest)

/-- At least one digit after the mark and the sign of an exponent. -/
def readExponentDigits? (negative : Bool) (text : List Char) :
    Option (Option (Bool × List Nat) × List Char) :=
  match digits text with
  | ([], _) => none
  | (ds, rest) => some (some (negative, ds), rest)

/-- The part after `e` or `E`. -/
def readExponent? : List Char → Option (Option (Bool × List Nat) × List Char)
  | c :: rest =>
    if c = 'e' ∨ c = 'E' then
      match rest with
      | '+' :: rest => readExponentDigits? false rest
      | '-' :: rest => readExponentDigits? true rest
      | rest => readExponentDigits? false rest
    else some (none, c :: rest)
  | [] => some (none, [])

/-- The digits before the point: at least one, and no zero in front of another digit. -/
def readWhole? (text : List Char) : Option (List Nat × List Char) :=
  match digits text with
  | ([], _) => none
  | (0 :: _ :: _, _) => none
  | found => some found

/-- Takes a number off the front of a text. -/
def read? (text : List Char) : Option (NumberText × List Char) := do
  let (negative, rest) :=
    match text with
    | '-' :: rest => (true, rest)
    | rest => (false, rest)
  let (whole, rest) ← readWhole? rest
  let (fraction, rest) ← readFraction? rest
  let (exponent, rest) ← readExponent? rest
  return (⟨negative, whole, fraction, exponent⟩, rest)

/-! ## 2. Evaluating it -/

/-- The largest significand that is kept. -/
def maxSignificand : Nat := 0xFFFFFFFFFFFFFFFF

/-- The largest exponent that is read. -/
def maxExponent : Int := 0x7FFFFFFF

/-- Appends digits to a significand while the result fits, and returns the digits that did not. -/
def collect (significand : Nat) : List Nat → Nat × List Nat
  | [] => (significand, [])
  | d :: ds =>
    if significand * 10 + d ≤ maxSignificand then collect (significand * 10 + d) ds
    else (significand, d :: ds)

/-- The nearest double to a power of ten. -/
def powerOfTen (n : Nat) : UInt64 :=
  Binary64.ofNat (Nat.pow 10 n)

/-- Divides by `10 ^ 308` until the exponent is in the range of the powers of ten, then applies
    the one that is left. -/
def scaleDown : Nat → UInt64 → Nat → UInt64
  | 0, magnitude, _ => magnitude
  | fuel + 1, magnitude, exponent =>
    if exponent ≤ 308 then Binary64.div magnitude (powerOfTen exponent)
    else if Binary64.isZero magnitude then magnitude
    else scaleDown fuel (Binary64.div magnitude (powerOfTen 308)) (exponent - 308)

/-- The magnitude of `significand * 10 ^ exponent`. Three divisions by `10 ^ 308` make any
    significand zero, so four steps are enough. -/
def magnitude? (significand : Nat) (exponent : Int) : Option UInt64 :=
  let start := Binary64.ofNat significand
  if exponent < 0 then some (scaleDown 4 start (-exponent).toNat)
  else if exponent ≤ 308 then
    let product := Binary64.mul start (powerOfTen exponent.toNat)
    if Binary64.isFinite product then some product else none
  else if Binary64.isZero start then some start
  else none

/-- Gives a magnitude its sign. -/
def signed (negative : Bool) (magnitude : UInt64) : Number :=
  .float (if negative then Binary64.neg magnitude else magnitude)

/-- A sum kept inside the range of a 32-bit exponent. -/
def clampExponent (e : Int) : Int :=
  max (-maxExponent - 1) (min maxExponent e)

/-- The value of a number whose digits have been collected, with its exponent applied. -/
def applyExponent? (negative : Bool) (significand : Nat) (exponent : Int) :
    Option (Bool × List Nat) → Option Number
  | none => (magnitude? significand exponent).map (signed negative)
  | some (down, ds) =>
    let written : Int := (ds.foldl (fun n d => n * 10 + d) 0 : Nat)
    if maxExponent < written then
      if significand ≠ 0 ∧ !down then none else some (signed negative 0)
    else
      let total := clampExponent (if down then exponent - written else exponent + written)
      (magnitude? significand total).map (signed negative)

/-- The integer that a text without point and exponent stands for, if it fits 64 bits. -/
def integer? (negative : Bool) (significand : Nat) : Option Number :=
  if negative then
    if significand = 0 ∨ 0x8000000000000000 < significand then none
    else some (.int (-(significand : Int)))
  else some (.int significand)

/-- The value of a number, `none` when it is too large for a double. -/
def value? (t : NumberText) : Option Number :=
  let (significand, dropped) := collect 0 t.whole
  match t.fraction with
  | some ds =>
    let (significand, droppedAfter) := collect significand ds
    let exponent : Int := (dropped.length : Int) - ((ds.length - droppedAfter.length : Nat) : Int)
    applyExponent? t.negative significand exponent t.exponent
  | none =>
    if t.exponent.isNone ∧ dropped.isEmpty then
      match integer? t.negative significand with
      | some n => some n
      | none => some (signed t.negative (Binary64.ofNat significand))
    else applyExponent? t.negative significand dropped.length t.exponent

end NumberText

end LedgerScan
