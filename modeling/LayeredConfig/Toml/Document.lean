import LayeredConfig.Toml.Atom
import LayeredConfig.Toml.Quoted
/-!
# TOML documents

A document is read statement by statement into a raw map. Beside the data, the reader remembers which
tables have been opened, by a header or by a dotted key of an earlier section, and which places are
closed because an array or an inline table was written there whole; neither may be written to again.
`parse` says what is wrong with a text that is no TOML document: the first thing that is.
-/
namespace LayeredConfig.Toml

/-! ## Places in a document -/

/-- Changes the table at a place, making tables on the way. Through an array the way leads to its last
element, if `throughArrays` allows that; through anything else but a table there is no way. -/
def changeTable (throughArrays : Bool) (change : RawMap → Option RawMap) :
    (place : List String) → RawMap → Option RawMap
  | [], m => change m
  | key :: rest, m =>
    match m.get? key with
    | none => (changeTable throughArrays change rest []).map fun t => m.insert key (.map t)
    | some (.map t) => (changeTable throughArrays change rest t).map fun t => m.insert key (.map t)
    | some (.list items) =>
      if !throughArrays then none
      else
        match items.getLast? with
        | some (.map t) =>
          (changeTable throughArrays change rest t).map fun t =>
            m.insert key (.list (items.dropLast ++ [.map t]))
        | _ => none
    | some _ => none

def writeNew (key : String) (v : Raw) (m : RawMap) : Option RawMap :=
  match m.get? key with
  | some _ => none
  | none => some (m.insert key v)

/-- Appends an empty table to the array of tables under a key, which may be new. -/
def appendTable (key : String) (m : RawMap) : Option RawMap :=
  match m.get? key with
  | none => some (m.insert key (.list [.map []]))
  | some (.list items) => some (m.insert key (.list (items ++ [.map []])))
  | some _ => none

/-- Whether a value is written whole, so that its place is closed. -/
def isWhole : Raw → Bool
  | .map _ => true
  | .list _ => true
  | _ => false

/-- Whether a place is one of the closed places or beneath one. -/
def isClosed (closed : List (List String)) (place : List String) : Bool :=
  closed.any fun c => c.isPrefixOf place

/-! ## Keys -/

/-- Whether a character may stand in a bare key. -/
def isBare (c : Char) : Bool := c.isAlphanum || c = '-' || c = '_'

/-- Reads one part of a key, bare or quoted. -/
def keyPart? (cs : List Char) : Option (String × List Char) :=
  match cs.takeWhile isBare with
  | [] => lineString? cs
  | bare => some (String.ofList bare, cs.dropWhile isBare)

/-- Reads a key of at most `fuel` parts, with blanks around the dots and behind the key. -/
def keyParts? : (fuel : Nat) → List Char → Option (List String × List Char)
  | 0, _ => none
  | fuel + 1, cs => do
    let (part, cs) ← keyPart? cs
    match cs.dropWhile isSpace with
    | '.' :: rest =>
      let (parts, rest) ← keyParts? fuel (rest.dropWhile isSpace)
      some (part :: parts, rest)
    | rest => some ([part], rest)

def key? (cs : List Char) : Option (List String × List Char) := keyParts? cs.length cs

/-! ## Values -/

/-- Skips a comment; control characters may not stand in one. -/
def skipComment? : List Char → Option (List Char)
  | '#' :: rest =>
    if (rest.takeWhile (· ≠ '\n')).any isControl then none else some (rest.dropWhile (· ≠ '\n'))
  | cs => some cs

/-- Skips blanks, line ends and comments between the elements of an array, at most `fuel` of them. -/
def skipBetween? : (fuel : Nat) → List Char → Option (List Char)
  | 0, cs => some (cs.dropWhile isSpaceOrNewline)
  | fuel + 1, cs =>
    match cs.dropWhile isSpaceOrNewline with
    | '#' :: rest => (skipComment? ('#' :: rest)).bind (skipBetween? fuel)
    | rest => some rest

/-- Skips everything that may stand between the elements of an array. -/
def skipFiller? (cs : List Char) : Option (List Char) := skipBetween? cs.length cs

mutual

/-- Reads a value. Of every two steps into a value or on to the next element one uses up a character, so
fuel twice as large as the text never runs out. -/
def value : (fuel : Nat) → List Char → Parsed (Raw × List Char)
  | 0, _ => .error .malformed
  | fuel + 1, cs =>
    match cs with
    | '[' :: rest => do
      let rest ← found (skipFiller? rest)
      let (items, rest) ← elements fuel rest
      .ok (.list items, rest)
    | '\x7b' :: rest => do
      let (table, rest) ← inlineTable fuel rest
      .ok (.map table, rest)
    | c :: _ =>
      if c = '"' || c = tick then do
        let (text, rest) ← found (anyString? cs)
        .ok (.scalar (.text text), rest)
      else atom cs
    | [] => .error .malformed

def elements : (fuel : Nat) → List Char → Parsed (List Raw × List Char)
  | 0, _ => .error .malformed
  | fuel + 1, cs =>
    match cs with
    | ']' :: rest => .ok ([], rest)
    | _ => do
      let (v, rest) ← value fuel cs
      match ← found (skipFiller? rest) with
      | ']' :: rest => .ok ([v], rest)
      | ',' :: rest =>
        let rest ← found (skipFiller? rest)
        let (items, rest) ← elements fuel rest
        .ok (v :: items, rest)
      | _ => .error .malformed

def inlineTable : (fuel : Nat) → List Char → Parsed (RawMap × List Char)
  | 0, _ => .error .malformed
  | fuel + 1, cs =>
    match cs.dropWhile isSpace with
    | '\x7d' :: rest => .ok ([], rest)
    | rest => pairs fuel [] [] rest

/-- Reads the pairs of an inline table up to its end, given the pairs before them and the places that
they closed. -/
def pairs : (fuel : Nat) → (table : RawMap) → (closed : List (List String)) → List Char →
    Parsed (RawMap × List Char)
  | 0, _, _, _ => .error .malformed
  | fuel + 1, table, closed, cs => do
    let (key, rest) ← found (key? cs)
    let rest ← found (mark? '=' rest)
    let (v, rest) ← value fuel (rest.dropWhile isSpace)
    if isClosed closed key then .error .malformed
    else
      let last := key.getLast?.getD ""
      let table ← found (changeTable false (writeNew last v) key.dropLast table)
      match rest.dropWhile isSpace with
      | '\x7d' :: rest => .ok (table, rest)
      | ',' :: rest =>
        pairs fuel table (if isWhole v then key :: closed else closed) (rest.dropWhile isSpace)
      | _ => .error .malformed

end

/-! ## Statements -/

/-- A document as far as it has been read: its data, the section that pairs are written to, the opened
tables, the tables opened by dotted keys of the current section, and the closed places. -/
structure Document where
  data : RawMap
  current : List String
  opened : List (List String)
  pending : List (List String)
  closed : List (List String)

namespace Document

def empty : Document := ⟨[], [], [], [], []⟩

/-- The document at the end of a section: what its dotted keys opened counts as opened from now on. -/
def endSection (d : Document) : Document := { d with opened := d.pending ++ d.opened, pending := [] }

def openTable (d : Document) (place : List String) : Option Document :=
  let d := d.endSection
  if d.opened.contains place || isClosed d.closed place then none
  else (changeTable true some place d.data).map fun data =>
    { d with data := data, current := place, opened := place :: d.opened }

/-- Begins a new table of an array of tables. What was opened or closed beneath the array is so no more,
since it belongs to an earlier table of the array. -/
def openElement (d : Document) (place : List String) : Option Document :=
  let d := d.endSection
  if isClosed d.closed place then none
  else
    let outside (p : List String) : Bool := !place.isPrefixOf p
    (changeTable true (appendTable (place.getLast?.getD "")) place.dropLast d.data).map fun data =>
      { d with
        data := data
        current := place
        opened := place :: d.opened.filter outside
        closed := d.closed.filter outside }

/-- Writes a pair of the current section. The tables that a dotted key leads through may not have been
opened by earlier sections. -/
def write (d : Document) (key : List String) (v : Raw) : Option Document :=
  let through := (List.range (key.length - 1)).map fun i => d.current ++ key.take (i + 1)
  let parent := d.current ++ key.dropLast
  if through.any d.opened.contains || isClosed d.closed parent then none
  else
    (changeTable true (writeNew (key.getLast?.getD "") v) parent d.data).map fun data =>
      { d with
        data := data
        pending := through ++ d.pending
        closed := if isWhole v then (d.current ++ key) :: d.closed else d.closed }

/-- Reads the statement at the beginning of a line, if there is one. -/
def statement (d : Document) (cs : List Char) : Parsed (Document × List Char) :=
  match cs with
  | '[' :: '[' :: rest => found do
    let (place, rest) ← key? (rest.dropWhile isSpace)
    let d ← d.openElement place
    let rest ← mark? ']' rest
    let rest ← mark? ']' rest
    some (d, rest)
  | '[' :: rest => found do
    let (place, rest) ← key? (rest.dropWhile isSpace)
    let d ← d.openTable place
    let rest ← mark? ']' rest
    some (d, rest)
  | c :: _ =>
    if isBare c || c = '"' || c = tick then do
      let (key, rest) ← found (key? cs)
      let rest ← found (mark? '=' rest)
      let rest := rest.dropWhile isSpace
      let (v, rest) ← value (2 * rest.length + 2) rest
      let d ← found (d.write key v)
      .ok (d, rest)
    else .ok (d, cs)
  | [] => .ok (d, cs)

/-- Reads lines, at most `fuel` of them, until the text ends. -/
def lines : (fuel : Nat) → Document → List Char → Parsed Document
  | 0, _, _ => .error .malformed
  | fuel + 1, d, cs => do
    let (d, rest) ← d.statement (cs.dropWhile isSpace)
    match ← found (skipComment? (rest.dropWhile isSpace)) with
    | [] => .ok d
    | c :: rest => if c = '\n' then lines fuel d rest else .error .malformed

end Document

/-- A text with every pair of carriage return and line feed replaced by a line feed. -/
def joinLineEnds : List Char → List Char
  | [] => []
  | c :: rest =>
    if c = '\r' && rest.head? = some '\n' then joinLineEnds rest else c :: joinLineEnds rest

def parse (text : String) : Parsed RawMap :=
  let cs := joinLineEnds text.toList
  (Document.empty.lines (cs.length + 1) cs).map (·.data)

/-- Reads a document from the bytes of a file, which must be UTF-8. -/
def parseBytes (bytes : ByteArray) : Parsed RawMap := do
  let text ← found (String.fromUTF8? bytes)
  parse text

end LayeredConfig.Toml
