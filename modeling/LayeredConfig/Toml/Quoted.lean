import LayeredConfig.Text.Numeral
/-!
# Quoted strings of TOML

The four kinds of strings: basic ones with escapes and literal ones without, each on one line or on
several. The scanners are given the text behind the opening quotes and answer the string with the text
behind the closing ones, or nothing if the string is not well formed.
-/
namespace LayeredConfig.Toml

/-- Whether a character may not stand for itself anywhere but at the end of a line. -/
def isControl (c : Char) : Bool := (decide (c.toNat < 32) || c.toNat == 127) && c != '\t'

def isSpace (c : Char) : Bool := c = ' ' || c = '\t'

/-- Blanks within a line and line ends. -/
def isSpaceOrNewline (c : Char) : Bool := isSpace c || c = '\n'

/-- The characters that a backslash and a letter stand for. -/
def escaped? : Char → Option Char
  | 'b' => some (Char.ofNat 8)
  | 't' => some '\t'
  | 'n' => some '\n'
  | 'f' => some (Char.ofNat 12)
  | 'r' => some '\r'
  | '"' => some '"'
  | '\\' => some '\\'
  | _ => none

/-- The character with a given code point, if there is one. -/
def scalar? (n : Nat) : Option Char :=
  if n.isValidChar then some (Char.ofNat n) else none

/-- Where the scanner of a basic string stands: in the text, behind a backslash, among the digits of a
code point (how many are left, and the value so far), or in the blanks that a backslash at the end of a
line swallows, before or behind the end of that line. -/
inductive Place where
  | text
  | backslash
  | digits (left value : Nat)
  | beforeLineEnd
  | behindLineEnd

def basicString (multiline : Bool) (place : Place) : List Char → Option (List Char × List Char)
  | [] => none
  | c :: rest =>
    let here (d : Char) (next : Option (List Char × List Char)) := next.map fun r => (d :: r.1, r.2)
    let plain : Option (List Char × List Char) :=
      if c = '"' then
        if !multiline then some ([], rest)
        else if rest.take 2 = ['"', '"'] then some ([], rest.drop 2)
        else here c (basicString multiline .text rest)
      else if c = '\\' then basicString multiline .backslash rest
      else if isControl c && !(multiline && c = '\n') then none
      else here c (basicString multiline .text rest)
    match place with
    | .text => plain
    | .backslash =>
      if c = 'u' then basicString multiline (.digits 4 0) rest
      else if c = 'U' then basicString multiline (.digits 8 0) rest
      else if multiline && isSpace c then basicString multiline .beforeLineEnd rest
      else if multiline && c = '\n' then basicString multiline .behindLineEnd rest
      else
        match escaped? c with
        | some d => here d (basicString multiline .text rest)
        | none => none
    | .digits left value =>
      match Text.digitValue? c with
      | none => none
      | some d =>
        if left ≤ 1 then
          match scalar? (value * 16 + d) with
          | some u => here u (basicString multiline .text rest)
          | none => none
        else basicString multiline (.digits (left - 1) (value * 16 + d)) rest
    | .beforeLineEnd =>
      if isSpace c then basicString multiline .beforeLineEnd rest
      else if c = '\n' then basicString multiline .behindLineEnd rest
      else none
    | .behindLineEnd =>
      if isSpaceOrNewline c then basicString multiline .behindLineEnd rest else plain

/-- The single quote, which delimits literal strings. -/
def tick : Char := '\''

def literalString (multiline : Bool) : List Char → Option (List Char × List Char)
  | [] => none
  | c :: rest =>
    if c = tick && !multiline then some ([], rest)
    else if c = tick && rest.take 2 = [tick, tick] then some ([], rest.drop 2)
    else if isControl c && !(multiline && c = '\n') then none
    else (literalString multiline rest).map fun r => (c :: r.1, r.2)

/-- The text of a string on several lines begins behind the line end that follows the opening quotes. -/
def dropFirstNewline : List Char → List Char
  | '\n' :: rest => rest
  | cs => cs

/-- Up to two quotes right behind the closing ones belong to the string. -/
def addQuotes (quote : Char) (r : List Char × List Char) : List Char × List Char :=
  let extra := (r.2.take 2).takeWhile (· = quote)
  (r.1 ++ extra, r.2.drop extra.length)

/-- Scans a string of any kind from its opening quote. -/
def anyString? (cs : List Char) : Option (String × List Char) :=
  let result : Option (List Char × List Char) :=
    match cs with
    | '"' :: rest =>
      if rest.take 2 = ['"', '"'] then
        (basicString true .text (dropFirstNewline (rest.drop 2))).map (addQuotes '"')
      else basicString false .text rest
    | c :: rest =>
      if c != tick then none
      else if rest.take 2 = [tick, tick] then
        (literalString true (dropFirstNewline (rest.drop 2))).map (addQuotes tick)
      else literalString false rest
    | [] => none
  result.map fun r => (String.ofList r.1, r.2)

/-- Scans a string that must end on its line, as keys do. -/
def lineString? : List Char → Option (String × List Char)
  | '"' :: rest => (basicString false .text rest).map fun r => (String.ofList r.1, r.2)
  | c :: rest =>
    if c = tick then (literalString false rest).map fun r => (String.ofList r.1, r.2) else none
  | [] => none

end LayeredConfig.Toml
