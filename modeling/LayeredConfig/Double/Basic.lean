/-!
# Binary64 numbers

A floating-point number is kept as the three fields of its binary64 word, so equal words are equal
numbers and everything below is exact arithmetic on naturals. A finite number stands for
`significand * 2 ^ exponent`; `ofQuotient` is the nearest number to a quotient of naturals, ties to the
even neighbour, and every other way to make a number goes through it.
-/
namespace LayeredConfig

/-- How many values the fraction field has: two to the power 52. -/
abbrev Double.fractions : Nat := 0x10000000000000

/-- A binary64 floating-point number, by the fields of its word. -/
structure Double where
  negative : Bool
  biased : Fin 2048
  fraction : Fin Double.fractions
  deriving DecidableEq, Repr

namespace Double

/-- The exponent field of the infinities and of the values that are no number. -/
def topExponent : Nat := 2047

/-- The number whose exponent and fraction fields together hold `word`, read as one natural. -/
def ofWord (negative : Bool) (word : Nat) : Double where
  negative := negative
  biased := Fin.ofNat 2048 (word / fractions)
  fraction := Fin.ofNat fractions word

def zero (negative : Bool) : Double := ofWord negative 0

def infinity (negative : Bool) : Double := ofWord negative (topExponent * fractions)

def nan : Double := ofWord false (topExponent * fractions + fractions / 2)

def isNaN (x : Double) : Bool := x.biased.val == topExponent && x.fraction.val != 0

def isInfinite (x : Double) : Bool := x.biased.val == topExponent && x.fraction.val == 0

def isZero (x : Double) : Bool := x.biased.val == 0 && x.fraction.val == 0

/-- The whole number that a finite value scales by a power of two. -/
def significand (x : Double) : Nat :=
  if x.biased.val = 0 then x.fraction.val else fractions + x.fraction.val

/-- The power of two that scales the significand of a finite value. -/
def exponent (x : Double) : Int :=
  if x.biased.val = 0 then -1074 else (x.biased.val : Int) - 1075

/-- Numeric equality: the two zeros are equal, and what is no number equals nothing. -/
def same (x y : Double) : Bool :=
  !x.isNaN && !y.isNaN && (decide (x = y) || (x.isZero && y.isZero))

/-- Whether the value is a number less than zero. -/
def isBelowZero (x : Double) : Bool := x.negative && !x.isZero && !x.isNaN

/-- `num / den` as a quotient of naturals scaled by two to the power `-e`: numerator and denominator. -/
def scaled (num den : Nat) (e : Int) : Nat × Nat := (num <<< (-e).toNat, den <<< e.toNat)

/-- A quotient rounded to the nearest natural, a half to the even one. -/
def roundQuotient (num den : Nat) : Nat :=
  let q := num / den
  let r := 2 * (num % den)
  if r < den then q else if den < r then q + 1 else q + q % 2

/-- The power of two of the last place of the binary64 numbers next to `num / den`. -/
def lastPlace (num den : Nat) : Int :=
  let low : Int := (num.log2 : Int) - (den.log2 : Int) - 53
  let (n, d) := scaled num den low
  max (if n / d < 2 * fractions then low else low + 1) (-1074)

/-- The binary64 number nearest to `num / den`; beyond the largest finite one it is infinity. A
significand rounded up to the next power of two carries into the exponent field of its own accord. -/
def ofQuotient (negative : Bool) (num den : Nat) : Double :=
  if num = 0 then zero negative
  else
    let e := lastPlace num den
    let (n, d) := scaled num den e
    ofWord negative (min ((e + 1074).toNat * fractions + roundQuotient n d) (topExponent * fractions))

/-- The number nearest to `digits * 10 ^ power`. Powers so far out that the result is zero or
infinity for any digits are settled without computing them. -/
def ofDecimal (negative : Bool) (digits : Nat) (power : Int) : Double :=
  let size : Int := (Nat.toDigits 10 digits).length + power
  if digits = 0 || size < -330 then zero negative
  else if 310 < size then infinity negative
  else ofQuotient negative (digits * Nat.pow 10 power.toNat) (Nat.pow 10 (-power).toNat)

def ofInt (n : Int) : Double := ofQuotient (decide (n < 0)) n.natAbs 1

/-- The whole number that a finite value stands for, if it stands for one. -/
def toInt? (x : Double) : Option Int :=
  if x.biased.val = topExponent then none
  else
    let (n, d) := scaled x.significand 1 (-x.exponent)
    if n % d = 0 then some (if x.negative then -((n / d : Nat) : Int) else ((n / d : Nat) : Int)) else none

/-- Whether a whole number is exactly a binary64 number. -/
def represents (n : Int) : Bool := (ofInt n).toInt? == some n

end Double
end LayeredConfig
