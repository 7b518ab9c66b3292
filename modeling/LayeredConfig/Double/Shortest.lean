import LayeredConfig.Double.Basic
import LayeredConfig.Text.Numeral
/-!
# Shortest decimal text

A number is written with the fewest significant digits that read back to it, and of those with the
digits nearest to it. Decimal exponents from -4 to 15 are written positionally, always with a point;
others with one digit before the point and a signed exponent of at least two digits.
-/
namespace LayeredConfig.Double

/-- The exponent of the leading decimal digit of `num / den`, for a positive quotient. -/
def leadingExponent (num den : Nat) : Int :=
  if den ≤ num then ((Nat.toDigits 10 (num / den)).length : Int) - 1
  else
    let places := (Nat.toDigits 10 (den / num)).length
    if den ≤ num * Nat.pow 10 (places - 1) then 1 - (places : Int) else -(places : Int)

/-- Of the two decimals of a grid next to `num / den`, the ones that read back as `x`; with two, the
nearer one, the even one if they are equally near. -/
def onGrid? (x : Double) (num den : Nat) (power : Int) : Option Nat :=
  let n := num * Nat.pow 10 (-power).toNat
  let d := den * Nat.pow 10 power.toNat
  let below := n / d
  let readsBack (digits : Nat) : Bool := decide (ofDecimal x.negative digits power = x)
  match readsBack below, readsBack (below + 1) with
  | false, false => none
  | true, false => some below
  | false, true => some (below + 1)
  | true, true => some (roundQuotient n d)

/-- The digits and the power of ten for a finite positive magnitude: the first grid that holds a
decimal which reads back, the coarsest tried first. -/
def shortest (x : Double) : Nat × Int :=
  let (num, den) := scaled x.significand 1 (-x.exponent)
  let lead := leadingExponent num den
  let hit := (List.range 18).findSome? fun (k : Nat) =>
    let power := lead - (k : Int)
    (onGrid? x num den power).map fun digits => (digits, power)
  hit.getD (x.significand, x.exponent)

/-- Digits without the zeros at their end, the power of ten raised for each one dropped. -/
def dropTrailingZeros (digits : List Char) (power : Int) : List Char × Int :=
  let zeros := (digits.reverse.takeWhile (· = '0')).length
  (digits.take (digits.length - zeros), power + zeros)

/-- An exponent with its sign and at least two digits. -/
def exponentText (e : Int) : List Char :=
  let ds := Text.decimalDigits e.natAbs
  (if e < 0 then '-' else '+') :: (if ds.length < 2 then '0' :: ds else ds)

/-- Digits laid out with their point, `point` being the number of digits before it. -/
def layout (digits : List Char) (point : Int) : List Char :=
  if 16 < point || point < -3 then
    let tail := if digits.length ≤ 1 then [] else '.' :: digits.drop 1
    digits.take 1 ++ tail ++ 'e' :: exponentText (point - 1)
  else if point ≤ 0 then '0' :: '.' :: List.replicate (-point).toNat '0' ++ digits
  else if digits.length ≤ point.toNat then
    digits ++ List.replicate (point.toNat - digits.length) '0' ++ ['.', '0']
  else digits.take point.toNat ++ '.' :: digits.drop point.toNat

/-- The text of a number; infinity and what is no number have names. -/
def text (x : Double) : String :=
  if x.isNaN then "nan"
  else
    let sign := if x.negative then "-" else ""
    if x.isInfinite then sign ++ "inf"
    else if x.isZero then sign ++ "0.0"
    else
      let (digits, power) := x.shortest
      let (ds, p) := dropTrailingZeros (Text.decimalDigits digits) power
      sign ++ String.ofList (layout ds (ds.length + p))

end LayeredConfig.Double
