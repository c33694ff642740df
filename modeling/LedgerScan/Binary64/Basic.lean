/-!
# Double-precision numbers as their bits

A double is its 64 bits: a sign, eleven bits of exponent and fifty-two of significand. A finite
double of the bits `s`, `e`, `f` is `m * 2 ^ q` with `m = 2 ^ 52 + f` and `q = e - 1075`, or `m = f`
and `q = -1074` when `e = 0`. All arithmetic here is exact arithmetic on natural numbers with one
rounding at the end, to the nearest double and of two equally near ones to the even one.

* `roundRatio` is the one place where rounding is decided;
* `mul`, `div` and `ofNat` work on magnitudes (the sign bit is clear) and round once each;
* `ofBinary32` widens a single-precision number, which is exact.
-/

namespace LedgerScan.Binary64

/-! ## 1. The parts of a double -/

/-- The sign bit. -/
def isNegative (bits : UInt64) : Bool :=
  bits >>> 63 == 1

/-- The eleven bits of the exponent. -/
def exponentField (bits : UInt64) : Nat :=
  (bits >>> 52).toNat % 2048

/-- The leading bit of a significand of full length, `2 ^ 52`, which is not stored. -/
def leadingBit : Nat :=
  0x10000000000000

/-- The fifty-two bits of the significand. -/
def fractionField (bits : UInt64) : Nat :=
  bits.toNat % leadingBit

/-- Neither an infinity nor a NaN. -/
def isFinite (bits : UInt64) : Bool :=
  exponentField bits != 2047

/-- The integer significand `m` of `m * 2 ^ q`. -/
def significand (bits : UInt64) : Nat :=
  if exponentField bits = 0 then fractionField bits else leadingBit + fractionField bits

/-- The exponent `q` of `m * 2 ^ q`, raised by 1074 so that it is a natural number. -/
def scale (bits : UInt64) : Nat :=
  exponentField bits - 1

/-- The magnitude of a finite double as a quotient of two natural numbers. -/
def ratio (bits : UInt64) : Nat × Nat :=
  if scale bits ≤ 1074 then (significand bits, 1 <<< (1074 - scale bits))
  else (significand bits <<< (scale bits - 1074), 1)

/-- Both zeros. -/
def isZero (bits : UInt64) : Bool :=
  significand bits == 0

/-- The double with the opposite sign. -/
def neg (bits : UInt64) : UInt64 :=
  bits ^^^ 0x8000000000000000

/-- Equality of values: the two zeros are equal, any other two finite doubles only when their bits
    agree. -/
def same (a b : UInt64) : Bool :=
  a == b || (isZero a && isZero b)

/-! ## 2. Rounding -/

/-- Positive infinity. -/
def infinity : UInt64 :=
  0x7FF0000000000000

/-- The nearest natural number to a quotient, of two equally near ones the even one. -/
def roundQuotient (num den : Nat) : Nat :=
  let below := num / den
  let twice := 2 * (num % den)
  if twice < den then below
  else if den < twice then below + 1
  else below + below % 2

/-- The magnitude nearest to `num / den`, infinity when that is too large. Writing the rounded
    significand on top of the scale lets a carry out of the significand raise the exponent. -/
def roundRatio (num den : Nat) : UInt64 :=
  if num = 0 then 0
  else
    let gap : Int := (Nat.log2 num : Int) - (Nat.log2 den : Int)
    let below :=
      if 0 ≤ gap then num < den <<< gap.toNat else num <<< (-gap).toNat < den
    let exponent := if below then gap - 53 else gap - 52
    let raised := (exponent + 1074).toNat
    let rounded :=
      if raised ≤ 1074 then roundQuotient (num <<< (1074 - raised)) den
      else roundQuotient num (den <<< (raised - 1074))
    let word := raised * leadingBit + rounded
    if word < infinity.toNat then UInt64.ofNat word else infinity

/-- The double nearest to a natural number. -/
def ofNat (n : Nat) : UInt64 :=
  roundRatio n 1

/-- The rounded product of two finite magnitudes. -/
def mul (a b : UInt64) : UInt64 :=
  roundRatio ((ratio a).1 * (ratio b).1) ((ratio a).2 * (ratio b).2)

/-- The rounded quotient of two finite magnitudes, the second one not zero. -/
def div (a b : UInt64) : UInt64 :=
  roundRatio ((ratio a).1 * (ratio b).2) ((ratio a).2 * (ratio b).1)

/-! ## 3. Single precision -/

/-- The double with the value of a single-precision number; an infinity or a NaN keeps an
    all-ones exponent. -/
def ofBinary32 (bits : UInt32) : UInt64 :=
  let word := bits.toNat
  let exponent := word / 0x800000 % 256
  let fraction := word % 0x800000
  let magnitude :=
    if exponent = 255 then UInt64.ofNat (infinity.toNat + fraction <<< 29)
    else if exponent = 0 then roundRatio fraction (1 <<< 149)
    else if exponent ≤ 150 then roundRatio (0x800000 + fraction) (1 <<< (150 - exponent))
    else roundRatio ((0x800000 + fraction) <<< (exponent - 150)) 1
  if word < 0x80000000 then magnitude else neg magnitude

example : roundRatio 1 10 = 0x3FB999999999999A := by decide +kernel
example : ofNat 9007199254740993 = 0x4340000000000000 := by decide +kernel
example : roundRatio 5 (Nat.pow 10 324) = 1 := by decide +kernel
example : ofBinary32 0x3FC00000 = 0x3FF8000000000000 := by decide +kernel

end LedgerScan.Binary64
