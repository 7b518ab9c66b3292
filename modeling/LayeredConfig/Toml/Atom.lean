import LayeredConfig.Failure.Basic
/-!
# Numbers, dates and times of TOML

Each reader is given a text and answers the value at its beginning with the text behind it. Dates and
times are recognised and checked, but options cannot hold them, so only their type is kept.
-/
namespace LayeredConfig.Toml

/-- Why a text cannot be read: it is no TOML, or it holds a whole number of too many decimal digits. -/
inductive Flaw where
  | malformed
  | numeralTooLong (digits : Nat)

abbrev Parsed (α : Type) := Except Flaw α

/-- What a reader found; a text that it does not know is malformed. -/
def found {α : Type} : Option α → Parsed α
  | some a => .ok a
  | none => .error .malformed

/-! ## Dates and times -/

/-- Reads exactly `count` decimal digits. -/
def fixedDigits? (count : Nat) (cs : List Char) : Option (Nat × List Char) :=
  let ds := cs.take count
  if ds.length = count && ds.all Char.isDigit then some (Text.ofDecimalDigits ds, cs.drop count) else none

def mark? (c : Char) : List Char → Option (List Char)
  | d :: rest => if d = c then some rest else none
  | [] => none

/-- Reads two digits that stand for a number below `bound`. -/
def below? (bound : Nat) (cs : List Char) : Option (List Char) :=
  match fixedDigits? 2 cs with
  | some (n, rest) => if n < bound then some rest else none
  | none => none

def dropFraction (cs : List Char) : List Char :=
  match cs with
  | '.' :: rest => if rest.head?.any Char.isDigit then rest.dropWhile Char.isDigit else cs
  | _ => cs

/-- Reads a time of day: hours, minutes and seconds, and a fraction if there is one. -/
def timeOfDay? (cs : List Char) : Option (List Char) := do
  let cs ← below? 24 cs
  let cs ← mark? ':' cs
  let cs ← below? 60 cs
  let cs ← mark? ':' cs
  let cs ← below? 60 cs
  some (dropFraction cs)

def dropOffset (cs : List Char) : List Char :=
  match cs with
  | 'Z' :: rest => rest
  | 'z' :: rest => rest
  | c :: rest =>
    if c = '+' || c = '-' then
      match (below? 24 rest).bind (mark? ':') with
      | some more => (below? 60 more).getD cs
      | none => cs
    else cs
  | [] => cs

def daysIn (year month : Nat) : Nat :=
  if month = 2 then if (year % 4 = 0 ∧ year % 100 ≠ 0) ∨ year % 400 = 0 then 29 else 28
  else if month = 4 || month = 6 || month = 9 || month = 11 then 30
  else 31

/-- Reads the pattern of a date: year, month and day. -/
def datePattern? (cs : List Char) : Option ((Nat × Nat × Nat) × List Char) := do
  let (year, cs) ← fixedDigits? 4 cs
  let cs ← mark? '-' cs
  let (month, cs) ← fixedDigits? 2 cs
  let cs ← mark? '-' cs
  let (day, cs) ← fixedDigits? 2 cs
  if 1 ≤ month ∧ month ≤ 12 ∧ 1 ≤ day ∧ day ≤ 31 then some ((year, month, day), cs) else none

/-- Reads what may follow a date: a time of day with its offset. -/
def timeBehindDate? : List Char → Option (List Char)
  | c :: rest => if c = 'T' || c = 't' || c = ' ' then (timeOfDay? rest).map dropOffset else none
  | [] => none

/-- Reads a date, a time, or both. A text that has the pattern of a date and is none is malformed:
the outer answer says whether there is a pattern, the inner one whether it is right. -/
def moment? (cs : List Char) : Option (Parsed (Raw × List Char)) :=
  match datePattern? cs with
  | some ((year, month, day), rest) =>
    if 1 ≤ year && day ≤ daysIn year month then
      match timeBehindDate? rest with
      | some more => some (.ok (.foreign (.other "datetime" ""), more))
      | none => some (.ok (.foreign (.other "date" ""), rest))
    else some (.error .malformed)
  | none => (timeOfDay? cs).map fun rest => .ok (.foreign (.other "time" ""), rest)

/-! ## Numbers -/

def sign : List Char → Bool × List Char
  | '-' :: rest => (true, rest)
  | '+' :: rest => (false, rest)
  | cs => (false, cs)

/-- Reads the digits of a number in base two, eight or sixteen behind its mark. -/
def based? (base : Nat) (cs : List Char) : Option (Raw × List Char) :=
  let isDigit (c : Char) : Bool := (Text.digitValue? c).any fun d => decide (d < base)
  match Text.digitRun isDigit false cs with
  | ([], _) => none
  | (ds, rest) => some (.scalar (.int (Text.ofDigits base ds)), rest)

/-- Reads the digits behind the point if a point with digits stands there. -/
def fraction (cs : List Char) : List Char × List Char :=
  match cs with
  | '.' :: rest =>
    match Text.digitRun Char.isDigit false rest with
    | ([], _) => ([], cs)
    | found => found
  | _ => ([], cs)

def exponent? (cs : List Char) : Option (Int × List Char) :=
  match cs with
  | c :: rest =>
    if c = 'e' || c = 'E' then
      let (negative, rest) := sign rest
      match Text.digitRun Char.isDigit false rest with
      | ([], _) => none
      | (ds, rest) =>
        let n : Int := Text.ofDecimalDigits ds
        some (if negative then -n else n, rest)
    else none
  | [] => none

/-- Reads the whole part of a decimal number: a zero, or digits that do not begin with one. -/
def wholePart? (cs : List Char) : Option (List Char × List Char) :=
  match cs with
  | '0' :: rest => some (['0'], rest)
  | _ =>
    match Text.digitRun Char.isDigit false cs with
    | ([], _) => none
    | found => some found

/-- A whole number, unless it has too many decimal digits. -/
def whole (negative : Bool) (digits : List Char) : Parsed Raw :=
  if digits.length ≤ Failure.maxDigits then
    let n : Int := Text.ofDecimalDigits digits
    .ok (.scalar (.int (if negative then -n else n)))
  else .error (.numeralTooLong digits.length)

/-- A number from the digits before and behind its point and its power of ten. -/
def scaled (negative : Bool) (digits part : List Char) (power : Int) : Raw :=
  .scalar (.double (Double.ofDecimal negative (Text.ofDecimalDigits (digits ++ part))
    (power - part.length)))

/-- Reads a decimal number, whole if it has neither a fraction nor an exponent. The outer answer says
whether there is one, the inner one whether it is right. -/
def decimal? (cs : List Char) : Option (Parsed (Raw × List Char)) := do
  let (negative, cs) := sign cs
  let (digits, cs) ← wholePart? cs
  let (part, cs) := fraction cs
  match exponent? cs with
  | some (e, rest) => some (.ok (scaled negative digits part e, rest))
  | none =>
    if part.isEmpty then some ((whole negative digits).map fun n => (n, cs))
    else some (.ok (scaled negative digits part 0, cs))

def number? (cs : List Char) : Option (Parsed (Raw × List Char)) :=
  let special : Option (Raw × List Char) :=
    match cs with
    | '0' :: 'x' :: rest => based? 16 rest
    | '0' :: 'b' :: rest => based? 2 rest
    | '0' :: 'o' :: rest => based? 8 rest
    | _ => none
  match special with
  | some n => some (.ok n)
  | none => decimal? cs

/-- Reads infinity or what is no number, with or without a sign. -/
def named? (cs : List Char) : Option (Raw × List Char) :=
  let (negative, rest) := sign cs
  match rest with
  | 'i' :: 'n' :: 'f' :: more => some (.scalar (.double (Double.infinity negative)), more)
  | 'n' :: 'a' :: 'n' :: more => some (.scalar (.double Double.nan), more)
  | _ => none

def truth? : List Char → Option (Raw × List Char)
  | 't' :: 'r' :: 'u' :: 'e' :: rest => some (.scalar (.bool true), rest)
  | 'f' :: 'a' :: 'l' :: 's' :: 'e' :: rest => some (.scalar (.bool false), rest)
  | _ => none

/-- Reads any value that is neither a string, nor an array, nor a table. -/
def atom (cs : List Char) : Parsed (Raw × List Char) :=
  match truth? cs with
  | some b => .ok b
  | none =>
    match moment? cs with
    | some m => m
    | none =>
      match number? cs with
      | some n => n
      | none => found (named? cs)

end LayeredConfig.Toml
