import LayeredConfig.CommandLine.Run
/-!
# The program

Reads the environment and the configured file, carries out the arguments and writes the result.
-/
namespace LayeredConfig.Main

/-- Reads the environment of the process, or its settings alone where it cannot be listed. -/
def readEnvironment : IO (List (String × String)) := do
  try
    let bytes ← IO.FS.readBinFile "/proc/self/environ"
    let lines := (String.fromUTF8? bytes).getD ""
    pure ((lines.splitOn "\x00").filterMap fun line =>
      match CommandLine.cutAtEquals line with
      | (name, some value) => some (name, value)
      | _ => none)
  catch _ =>
    settingVariables.filterMapM fun v => do
      let value ← IO.getEnv v.2
      pure (value.map fun text => (v.2, text))

def problemOf : IO.Error → Option FileProblem
  | .noFileOrDirectory _ _ _ => none
  | e =>
    match errorNumber e with
    | 20 => some .notDirectory
    | 21 => some .isDirectory
    | 36 => some .nameTooLong
    | number => some (.refused number (reason e))
where
  /-- The number of an error of the system. -/
  errorNumber : IO.Error → Nat
    | .permissionDenied _ n _ => positive n
    | .inappropriateType _ n _ => positive n
    | .resourceExhausted _ n _ => positive n
    | .invalidArgument _ n _ => positive n
    | .hardwareFault n _ => positive n
    | .resourceBusy n _ => positive n
    | .otherError n _ => positive n
    | _ => 5
  /-- The number itself, which some calls give with a minus sign. -/
  positive (n : UInt32) : Nat := if n < 0x80000000 then n.toNat else (0 - n).toNat
  /-- What the system says about an error. -/
  reason : IO.Error → String
    | .permissionDenied _ _ _ => "Permission denied"
    | _ => "Input/output error"

def readFile (name : String) : IO Directory := do
  try
    let bytes ← IO.FS.readBinFile name
    pure (Directory.put [] name (.file bytes))
  catch e =>
    match problemOf e with
    | none => pure []
    | some problem => pure (Directory.put [] name (.refused problem))

/-- The file that arguments and environment name, if they name one. -/
def fileOf (args : List String) (environment : List (String × String)) : Option String :=
  match CommandLine.Invocation.ofArguments args with
  | .error _ => none
  | .ok invocation =>
    match invocation.settings environment with
    | .error _ => none
    | .ok settings => settings.configFile

end LayeredConfig.Main

open LayeredConfig in
def main (args : List String) : IO UInt32 := do
  let environment ← Main.readEnvironment
  let files ← match Main.fileOf args environment with
    | none => pure []
    | some name => Main.readFile name
  match CommandLine.run args { World.ofEnvironment environment with files := files } with
  | .finished status output =>
    IO.print output
    pure status.toUInt32
  | .stopped stop =>
    IO.eprintln CommandLine.usage
    pure stop.status.toUInt32
  | .broken failure =>
    IO.eprintln failure.message
    pure 1
