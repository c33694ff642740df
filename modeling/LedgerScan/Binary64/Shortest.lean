import LedgerScan.Binary64.Basic

/-!
# The shortest decimal text of a double

A finite double is written with the fewest significant digits that still read back as that double;
of two decimals of that length the nearer one is taken, of two equally near ones the one whose
last digit is even.

* `shortest` finds the decimal: for one digit, two digits and so on it looks at the two points of
  the decimal grid next to the value and takes the first grid with a point that rounds to it;
* `text` lays the digits out: positional from `1e-5` below `1e16`, with a signed exponent elsewhere,
  and always with a mark that tells the number from an integer.
-/

namespace LedgerScan.Binary64

/-! ## 1. The decimal grid -/

/-- A decimal `digits * 10 ^ exponent`. -/
structure Decimal where
  digits : Nat
  exponent : Int
  deriving DecidableEq, Repr

/-- The reals that round to a double, as numbers over a common denominator: the value and the two
    ends of the interval, and whether the ends themselves belong to it. -/
structure Neighbourhood where
  value : Nat
  low : Nat
  high : Nat
  den : Nat
  closed : Bool

/-- The neighbourhood of a positive finite double. Below a power of two the gap is half as wide
    as above it, except at the bottom of the range. -/
def neighbourhood (bits : UInt64) : Neighbourhood :=
  let m := significand bits
  let gap := if fractionField bits = 0 ∧ 1 < exponentField bits then 1 else 2
  { value := (4 * m) <<< scale bits
    low := (4 * m - gap) <<< scale bits
    high := (4 * m + 2) <<< scale bits
    den := 1 <<< 1076
    closed := m % 2 == 0 }

/-- Whether `point / pointDen` rounds to the double. -/
def Neighbourhood.holds (n : Neighbourhood) (point pointDen : Nat) : Bool :=
  let scaled := point * n.den
  if n.closed then n.low * pointDen ≤ scaled && scaled ≤ n.high * pointDen
  else n.low * pointDen < scaled && scaled < n.high * pointDen

/-- The point of the grid of step `10 ^ exponent` that rounds to the double and is nearest to it,
    if either neighbour of the value on the grid does. -/
def Neighbourhood.onGrid (n : Neighbourhood) (exponent : Int) : Option Decimal :=
  let stepNum := Nat.pow 10 exponent.toNat
  let stepDen := Nat.pow 10 (-exponent).toNat
  let num := n.value * stepDen
  let den := n.den * stepNum
  let below := num / den
  let lower := n.holds (below * stepNum) stepDen
  let upper := n.holds ((below + 1) * stepNum) stepDen
  match lower, upper with
  | false, false => none
  | true, false => some ⟨below, exponent⟩
  | false, true => some ⟨below + 1, exponent⟩
  | true, true => some ⟨roundQuotient num den, exponent⟩

/-- The exponent of the leading decimal digit of `num / den`, found from a power of ten known to
    be above it. -/
def leadingExponent (num den : Nat) : Nat → Int → Int
  | 0, guess => guess
  | fuel + 1, guess =>
    if den * Nat.pow 10 guess.toNat ≤ num * Nat.pow 10 (-guess).toNat then guess
    else leadingExponent num den fuel (guess - 1)

/-- Tries the grids of one more digit each, the coarsest first. -/
def Neighbourhood.search (n : Neighbourhood) : Nat → Int → Decimal
  | 0, exponent =>
    ⟨n.value * Nat.pow 10 (-exponent).toNat / (n.den * Nat.pow 10 exponent.toNat), exponent⟩
  | more + 1, exponent =>
    match n.onGrid exponent with
    | some decimal => decimal
    | none => n.search more (exponent - 1)

/-- The shortest decimal of a positive finite double: seventeen digits always suffice, and every
    double is below `10 ^ 309` and above `10 ^ -325`. -/
def shortest (bits : UInt64) : Decimal :=
  let n := neighbourhood bits
  let estimate : Int := ((Nat.log2 n.value : Int) - 1076) * 30103 / 100000 + 2
  n.search 17 (leadingExponent n.value n.den 8 estimate)

/-! ## 2. The text -/

/-- A decimal with no zero at its end. -/
def Decimal.trim : Nat → Decimal → Decimal
  | 0, d => d
  | fuel + 1, d =>
    if d.digits % 10 = 0 then trim fuel ⟨d.digits / 10, d.exponent + 1⟩ else d

/-- The digits of a natural number in base ten. -/
def digitChars (n : Nat) : List Char :=
  Nat.toDigits 10 n

/-- Lays a positive decimal out. The point stands after `point` digits of the digit string. -/
def Decimal.layOut (d : Decimal) : List Char :=
  let d := d.trim 20
  let digits := digitChars d.digits
  let point : Int := digits.length + d.exponent
  if 0 < point && point ≤ 16 then
    if 0 ≤ d.exponent then digits ++ List.replicate d.exponent.toNat '0' ++ ['.', '0']
    else digits.take point.toNat ++ '.' :: digits.drop point.toNat
  else if -5 < point && point ≤ 0 then
    '0' :: '.' :: (List.replicate (-point).toNat '0' ++ digits)
  else
    let exponent := point - 1
    let mantissa :=
      match digits with
      | [single] => [single]
      | first :: rest => first :: '.' :: rest
      | [] => []
    let exponentText :=
      if exponent < 0 then '-' :: digitChars (-exponent).toNat
      else '+' :: digitChars exponent.toNat
    mantissa ++ 'e' :: exponentText

/-- The text of a finite double; a double that is not finite has none and is written `null`. -/
def text (bits : UInt64) : List Char :=
  if !isFinite bits then ['n', 'u', 'l', 'l']
  else
    let magnitude := if isZero bits then ['0', '.', '0'] else (shortest bits).layOut
    if isNegative bits then '-' :: magnitude else magnitude

end LedgerScan.Binary64
