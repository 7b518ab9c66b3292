import LayeredConfig.CommandLine.Token
import LayeredConfig.Reference
/-!
# Invocations

What the arguments of the program ask for: a command, and where the configuration comes from. Flags are
carried out in the order in which they stand, so asking for help wins over whatever is wrong behind it,
and of a flag given twice the later one counts. Words that nobody asked for are refused at the end.
-/
namespace LayeredConfig.CommandLine

inductive Command where
  | show (profile : FlagValue)
  | profiles
  | check
  | env

structure Invocation where
  file : Option FlagValue
  table : Option FlagValue
  command : Command

/-- What has been read off the arguments so far; `stray` says that something was not asked for. -/
structure Given where
  file : Option FlagValue
  table : Option FlagValue
  profile : Option FlagValue
  stray : Bool

namespace Given

def nothing : Given := ⟨none, none, none, false⟩

def set (given : Given) (flag : Flag) (value : FlagValue) : Given :=
  match flag with
  | .file => { given with file := some value }
  | .table => { given with table := some value }
  | .profile => { given with profile := some value }
  | _ => given

/-- What is given together with what was found in one argument, and the flag that waits for its value. -/
def take (given : Given) : List Found → Except Stop (Given × Option Flag)
  | [] => .ok (given, none)
  | .flag .help _ :: _ => .error .help
  | .flag flag (some value) :: rest => (given.set flag value).take rest
  | .flag flag none :: rest => if flag.takesValue then .ok (given, some flag) else given.take rest
  | .stray :: rest => { given with stray := true }.take rest

end Given

/-- Carries out tokens one after the other. Where a plain word names a command the answer holds that word
and everything behind it. -/
def Grammar.follow (g : Grammar) (given : Given) (waiting : Option Flag) :
    List Token → Except Stop (Given × List String)
  | [] => if waiting.isSome then .error .misuse else .ok (given, [])
  | token :: rest =>
    match waiting, token.sense with
    | some flag, .plain => g.follow (given.set flag (.ofText token.text)) none rest
    | some _, _ => .error .misuse
    | none, .flags found =>
      match given.take found with
      | .error stop => .error stop
      | .ok (given, waiting) => g.follow given waiting rest
    | none, .garbled => .error .misuse
    | none, _ =>
      if g.commands then .ok (given, token.text :: rest.map (·.text))
      else g.follow { given with stray := true } none rest

def Grammar.read (g : Grammar) (args : List String) : Except Stop (Given × List String) := do
  let tokens ← g.tokens args
  g.follow .nothing none tokens

def mainGrammar : Grammar :=
  ⟨[("-h", .help), ("--help", .help), ("--file", .file), ("--table", .table), ("-v", .verbose),
    ("--verbose", .verbose)], true⟩

def showGrammar : Grammar := ⟨[("-h", .help), ("--help", .help), ("--profile", .profile)], false⟩

def plainGrammar : Grammar := ⟨[("-h", .help), ("--help", .help)], false⟩

/-- The command of a given name: what is understood behind it, and what it is made from. -/
def command? (name : String) : Option (Grammar × (Given → Command)) :=
  if name = "show" then some (showGrammar, fun given => .show (given.profile.getD (.text defaultProfile)))
  else if name = "profiles" then some (plainGrammar, fun _ => .profiles)
  else if name = "check" then some (plainGrammar, fun _ => .check)
  else if name = "env" then some (plainGrammar, fun _ => .env)
  else none

def Invocation.ofArguments (args : List String) : Except Stop Invocation := do
  match ← mainGrammar.read args with
  | (_, []) => .error .misuse
  | (given, name :: rest) =>
    match command? name with
    | none => .error .misuse
    | some (grammar, make) =>
      let (own, _) ← grammar.read rest
      if given.stray || own.stray then .error .misuse
      else .ok ⟨given.file, given.table, make own⟩

end LayeredConfig.CommandLine
