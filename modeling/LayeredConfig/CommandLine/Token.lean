import LayeredConfig.Text.Digit
import LayeredConfig.Value.Raw
/-!
# Arguments as tokens

Before arguments are carried out each of them is recognised by itself: as a plain word, as the separator
behind which everything is plain, or as one or more flags. A flag may be written by any beginning of its
long spelling that fits no other, its value may follow an equals sign, and short switches may be written
together. An argument that could be several flags stops the program at once, wherever it stands.
-/
namespace LayeredConfig.CommandLine

inductive Flag where
  | help | verbose | file | table | profile
  deriving DecidableEq

def Flag.takesValue : Flag → Bool
  | .file => true
  | .table => true
  | .profile => true
  | _ => false

/-- Why arguments are not carried out: the user asked for help, or they cannot be understood. -/
inductive Stop where
  | help
  | misuse
  deriving DecidableEq

/-- The argument behind which every argument is a plain word. -/
def separator : String := "--"

/-- What is understood in some place: the spellings of flags, and whether a plain word names a command
there. -/
structure Grammar where
  spellings : List (String × Flag)
  commands : Bool

/-- The value of a flag. A separator never counts as a value: where one is written as the value all the
same, an empty list is what is left. -/
inductive FlagValue where
  | text (s : String)
  | emptied

def FlagValue.ofText (s : String) : FlagValue := if s = separator then emptied else text s

/-- The raw value that the value of a flag is. -/
def FlagValue.toRaw : FlagValue → Raw
  | text s => .scalar (.text s)
  | emptied => .list []

/-- What is found in an argument that starts with a dash: a flag, with its value if that was written in
the same argument, or something that nobody asked for. -/
inductive Found where
  | flag (f : Flag) (value : Option FlagValue)
  | stray

inductive Sense where
  | plain
  | separator
  | flags (found : List Found)
  | garbled

structure Token where
  text : String
  sense : Sense

/-- Whether an argument reads as a negative number, with or without a fraction. -/
def isNegativeNumber (cs : List Char) : Bool :=
  match cs with
  | '-' :: rest =>
    let line := if rest.getLast? = some '\n' then rest.dropLast else rest
    match line.dropWhile Text.isDecimalDigit with
    | [] => !line.isEmpty
    | '.' :: part => !part.isEmpty && part.all Text.isDecimalDigit
    | _ => false
  | _ => false

/-- A text cut at its first equals sign, with what stands behind the sign if there is one. -/
def cutAtEquals (text : String) : String × Option String :=
  let cs := text.toList
  (String.ofList (cs.takeWhile (· ≠ '=')),
   match cs.dropWhile (· ≠ '=') with
   | [] => none
   | _ :: value => some (String.ofList value))

namespace Grammar

def flag? (g : Grammar) (spelling : String) : Option Flag :=
  (g.spellings.find? (·.1 = spelling)).map (·.2)

/-- The flags of an argument in which more text follows a short flag, behind an equals sign or not. A
flag with a value takes all of the text; behind any other come further short flags, all of which must be
known. -/
def together (g : Grammar) (flag : Flag) : List Char → Option (List Found)
  | [] => if flag.takesValue then some [.flag flag (some (.ofText ""))] else none
  | c :: cs =>
    if flag.takesValue then some [.flag flag (some (.ofText (String.ofList (c :: cs))))]
    else
      match g.flag? (String.ofList ['-', c]), cs with
      | none, _ => none
      | some next, [] => some [.flag flag none, .flag next none]
      | some next, d :: ds => (g.together next (d :: ds)).map (.flag flag none :: ·)

/-- A flag whose argument goes on behind the spelling: with its value, or with further short flags. -/
def attached (g : Grammar) (spelling : String) (flag : Flag) (more : String) : Sense :=
  if "--".toList.isPrefixOf spelling.toList && !flag.takesValue then .garbled
  else
    match g.together flag more.toList with
    | none => .garbled
    | some found => .flags found

/-- The flags that an argument may be meant as, each as what the argument is recognised as then. -/
def candidates (g : Grammar) (arg : String) : List Sense :=
  match arg.toList with
  | '-' :: '-' :: _ =>
    let (start, value) := cutAtEquals arg
    (g.spellings.filter fun s => start.toList.isPrefixOf s.1.toList).map fun s =>
      match value with
      | none => .flags [.flag s.2 none]
      | some value => g.attached s.1 s.2 value
  | '-' :: c :: more =>
    g.spellings.filterMap fun s =>
      if s.1.toList = ['-', c] then some (g.attached s.1 s.2 (String.ofList more))
      else if arg.toList.isPrefixOf s.1.toList then some (.flags [.flag s.2 none])
      else none
  | _ => []

def guess (g : Grammar) (arg : String) : Except Stop Sense :=
  match g.candidates arg with
  | [sense] => .ok sense
  | [] =>
    if isNegativeNumber arg.toList || arg.toList.contains ' ' then .ok .plain
    else .ok (.flags [.stray])
  | _ => .error .misuse

/-- What an argument is recognised as, before any separator. -/
def sense (g : Grammar) (arg : String) : Except Stop Sense :=
  match arg.toList with
  | '-' :: _ :: _ =>
    match g.flag? arg with
    | some flag => .ok (.flags [.flag flag none])
    | none =>
      match cutAtEquals arg with
      | (spelling, some value) =>
        match g.flag? spelling with
        | some flag => .ok (g.attached spelling flag value)
        | none => g.guess arg
      | (_, none) => g.guess arg
  | _ => .ok .plain

def tokens (g : Grammar) : List String → Except Stop (List Token)
  | [] => .ok []
  | arg :: rest =>
    if arg = separator then .ok (⟨arg, .separator⟩ :: rest.map (Token.mk · .plain))
    else
      match g.sense arg with
      | .error stop => .error stop
      | .ok sense => (g.tokens rest).map (Token.mk arg sense :: ·)

end Grammar
end LayeredConfig.CommandLine
