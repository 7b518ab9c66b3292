import LayeredConfig.CommandLine.Invocation
import LayeredConfig.Coordinator.Basic
import LayeredConfig.Render
import LayeredConfig.Settings
/-!
# Carrying out commands

The program resolves the configuration once and writes what it was asked for. Whatever is wrong with the
configuration is written in place of that, with a hint if there is one, and the status tells so. Nothing
is written before everything that is to be written is known.
-/
namespace LayeredConfig.CommandLine

/-- How a run of the program ends: with a status and what it wrote, without anything written because of
its arguments, or broken by a failure that is not one of the configuration. -/
inductive Ending where
  | finished (status : Nat) (output : String)
  | stopped (stop : Stop)
  | broken (failure : Failure)

def Stop.status : Stop → Nat
  | help => 0
  | misuse => 2

/-- The lines of the library's variables in an environment. -/
def environmentLines (environment : List (String × String)) : List String :=
  (libraryVariables environment).map fun e => e.1 ++ "=" ++ e.2

def givenRaw (value : Option FlagValue) : Raw := (value.map FlagValue.toRaw).getD .null

/-- The settings of an invocation: what is given in its arguments, the rest from the environment. -/
def Invocation.settings (i : Invocation) (environment : List (String × String)) : Outcome Settings :=
  Settings.ofEnvironment environment [("config_file", givenRaw i.file), ("table", givenRaw i.table)]

/-- The configuration that an invocation is about, resolved for the first time. -/
def Invocation.config (i : Invocation) (w : World) : Outcome Config := do
  let settings ← i.settings w.environment
  let (source, w) := settings.source w
  (Coordinator.fresh.demand source.feed w).result

def entryLine (entry : String × Value) : Outcome String :=
  entry.2.render.map fun text => entry.1 ++ " = " ++ text

def Command.lines (c : Config) : Command → Outcome (List String)
  | .show (.text name) => do
    let profile ← c.profile name
    profile.entries.mapM entryLine
  | .show .emptied => .error (.unhashable FlagValue.emptied.toRaw.typeName)
  | .profiles => .ok c.names
  | _ =>
    .ok ["OK: generation " ++ Text.decimal c.generation ++ ", " ++ Text.decimal c.profiles.length ++
      " profile(s)"]

def failureLines (f : Failure) : List String :=
  ("Error: " ++ f.message) ::
    match f.hint.filter (· ≠ "") with
    | none => []
    | some hint => ["Hint: " ++ hint]

def written (lines : List String) : String := String.join (lines.map (· ++ "\n"))

def Invocation.run (i : Invocation) (w : World) : Ending :=
  match i.command with
  | .env => .finished 0 (written (environmentLines w.environment))
  | command =>
    match i.config w >>= fun c => command.lines c with
    | .ok lines => .finished 0 (written lines)
    | .error f =>
      if f.isOfConfiguration then .finished 1 (written (failureLines f)) else .broken f

def usage : String :=
  "usage: layered-config [-h] [--file FILE] [--table TABLE] [-v] \x7bshow,profiles,check,env\x7d ..."

def run (args : List String) (w : World) : Ending :=
  match Invocation.ofArguments args with
  | .error stop => .stopped stop
  | .ok invocation => invocation.run w

end LayeredConfig.CommandLine
