import LayeredConfig.Double.Basic
import LayeredConfig.Text.Numeral
/-!
# Decimal text read as a number

The grammar of number texts: an optional sign, digits, a point with digits on at least one side, an
exponent; or the names of infinity and of what is no number, in any case. Only ASCII digits count, and
nothing may stand around or between them.
-/
namespace LayeredConfig.Double

/-- A sign in front of a text, `true` for minus, and the text behind it. -/
def signed : List Char → Bool × List Char
  | '-' :: rest => (true, rest)
  | '+' :: rest => (false, rest)
  | cs => (false, cs)

/-- Splits the ASCII digits off the beginning of a text. -/
def digits (cs : List Char) : List Char × List Char := (cs.takeWhile Char.isDigit, cs.dropWhile Char.isDigit)

/-- The exponent part that must make up the whole text; an empty text is no exponent. -/
def exponentPart? : List Char → Option Int
  | [] => some 0
  | c :: rest =>
    if c = 'e' || c = 'E' then
      let (negative, rest) := signed rest
      match digits rest with
      | ([], _) => none
      | (ds, []) =>
        let n : Int := Text.ofDecimalDigits ds
        some (if negative then -n else n)
      | _ => none
    else none

/-- A number without sign, as digits and a power of ten. -/
def magnitude? (cs : List Char) : Option (Nat × Int) :=
  let (whole, rest) := digits cs
  let (part, rest) := match rest with
    | '.' :: rest => digits rest
    | rest => ([], rest)
  if whole.isEmpty && part.isEmpty then none
  else (exponentPart? rest).map fun e => (Text.ofDecimalDigits (whole ++ part), e - part.length)

/-- Reads a number text, or answers that it is none. -/
def ofText? (s : String) : Option Double :=
  let (negative, cs) := signed s.toList
  let name := String.ofList (cs.map Char.toLower)
  if name = "inf" || name = "infinity" then some (infinity negative)
  else if name = "nan" then some nan
  else (magnitude? cs).map fun (digits, power) => ofDecimal negative digits power

end LayeredConfig.Double
