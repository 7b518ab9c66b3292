/-!
# Digits

Natural numbers written in base ten and in base sixteen, and read back from digits of any base up to
sixteen.
-/
namespace LayeredConfig.Text

/-- The digit character of `d`, for `d` below sixteen; letters are lower case. -/
def digitChar (d : Nat) : Char :=
  if d < 10 then Char.ofNat (48 + d) else Char.ofNat (87 + d)

/-- The value of an ASCII digit in base sixteen, of either case. -/
def digitValue? (c : Char) : Option Nat :=
  if '0' ≤ c && c ≤ '9' then some (c.toNat - 48)
  else if 'a' ≤ c && c ≤ 'f' then some (c.toNat - 87)
  else if 'A' ≤ c && c ≤ 'F' then some (c.toNat - 55)
  else none

/-- The last `width` digits of `n` in base sixteen, the most significant first. -/
def hexDigits : (width n : Nat) → List Char
  | 0, _ => []
  | width + 1, n => hexDigits width (n / 16) ++ [digitChar (n % 16)]

/-- The decimal digits of a natural number. -/
def decimalDigits (n : Nat) : List Char := Nat.toDigits 10 n

/-- The number that ASCII decimal digits stand for. -/
def ofDecimalDigits (cs : List Char) : Nat :=
  cs.foldl (fun n c => n * 10 + (c.toNat - 48)) 0

/-- The number that digits of either case stand for in the given base. -/
def ofDigits (base : Nat) (cs : List Char) : Nat :=
  cs.foldl (fun n c => n * base + (digitValue? c).getD 0) 0

/-- Splits a leading run of digits off a text. An underscore belongs to the run, without being a digit of
it, when it stands between two digits; `afterDigit` says whether a digit stands right before the text. -/
def digitRun (isDigit : Char → Bool) (afterDigit : Bool) : List Char → List Char × List Char
  | [] => ([], [])
  | c :: rest =>
    if isDigit c then
      let (ds, after) := digitRun isDigit true rest
      (c :: ds, after)
    else if c = '_' && afterDigit && rest.head?.any isDigit then digitRun isDigit false rest
    else ([], c :: rest)

/-- A whole number in decimal, with a minus sign if it is negative. -/
def decimal (n : Int) : String :=
  if n < 0 then String.ofList ('-' :: decimalDigits n.natAbs) else String.ofList (decimalDigits n.natAbs)

end LayeredConfig.Text
