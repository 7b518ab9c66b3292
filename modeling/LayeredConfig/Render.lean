import LayeredConfig.Failure.Basic
/-!
# Values as the user sees them

A stored value is written as one line of JSON in ASCII: durations as texts in milliseconds or seconds,
and characters beyond ASCII by their 16-bit units. A tombstone cannot be written.
-/
namespace LayeredConfig

/-- One 16-bit unit as an escape. -/
def unitEscape (n : Nat) : List Char := '\\' :: 'u' :: Text.hexDigits 4 n

def jsonChar (c : Char) : List Char :=
  if c = '"' || c = '\\' then ['\\', c]
  else if c = '\n' then ['\\', 'n']
  else if c = '\r' then ['\\', 'r']
  else if c = '\t' then ['\\', 't']
  else if c.toNat = 8 then ['\\', 'b']
  else if c.toNat = 12 then ['\\', 'f']
  else if 32 ≤ c.toNat && c.toNat < 127 then [c]
  else if c.toNat < 0x10000 then unitEscape c.toNat
  else
    let n := c.toNat - 0x10000
    unitEscape (0xD800 + n / 0x400) ++ unitEscape (0xDC00 + n % 0x400)

def jsonText (s : String) : String :=
  String.ofList ('"' :: s.toList.flatMap jsonChar ++ ['"'])

/-- A number in JSON, with names for the numbers that JSON does not have. -/
def jsonDouble (x : Double) : String :=
  if x.isNaN then "NaN"
  else if x.isInfinite then if x.negative then "-Infinity" else "Infinity"
  else x.text

def jsonScalar : Scalar → String
  | .bool b => if b then "true" else "false"
  | .int n => Text.decimal n
  | .double x => jsonDouble x
  | .text s => jsonText s
  | .duration d => jsonText d.listed

mutual

/-- A stored value in JSON. -/
def Value.render : Value → Outcome String
  | .unset => .error .unsetNotWritable
  | .scalar s => .ok (jsonScalar s)
  | .list items => (renderItems items).map fun ss => "[" ++ ", ".intercalate ss ++ "]"
  | .map entries => (renderEntries entries).map fun ss => "\x7b" ++ ", ".intercalate ss ++ "\x7d"

def renderItems : List Value → Outcome (List String)
  | [] => .ok []
  | v :: rest =>
    match v.render with
    | .error f => .error f
    | .ok s => (renderItems rest).map (s :: ·)

def renderEntries : List (String × Value) → Outcome (List String)
  | [] => .ok []
  | (k, v) :: rest =>
    match v.render with
    | .error f => .error f
    | .ok s => (renderEntries rest).map ((jsonText k ++ ": " ++ s) :: ·)

end

end LayeredConfig
