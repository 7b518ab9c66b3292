import LayeredConfig.Double.Reader
import LayeredConfig.Ordered
import LayeredConfig.Source.Basic
import LayeredConfig.Text.Pieces
import LayeredConfig.Value.Pairs
/-!
# Loader settings

The settings say where options come from: a file, a table in it, how often to look for changes, and
whether the file must be there. They are read from named raw values, usually environment variables, so
texts are accepted for numbers and truth values. The first field that is wrong is the one reported, in
the order of the fields of `Settings`; unknown fields come last.
-/
namespace LayeredConfig

/-- The settings of a loader. The interval is in seconds, zero meaning that nothing looks for changes. -/
structure Settings where
  configFile : Option String
  table : Option String
  interval : Double
  required : Bool

namespace Settings

def default : Settings := ⟨none, none, Double.zero false, true⟩

/-- A text setting as it counts: without the blanks at its ends, and not at all if nothing is left. -/
def nonBlank? (s : String) : Option String :=
  let stripped := Text.strip s
  if stripped = "" then none else some stripped

def fileSetting : Option Raw → Except SettingProblem (Option String)
  | none => .ok none
  | some .null => .ok none
  | some (.scalar (.text s)) => .ok (nonBlank? s)
  | some _ => .error .notAPath

/-- The table that a raw value names. Bytes are taken for the text that they encode, and a tombstone for
its own name. -/
def tableName : Raw → Except SettingProblem (Option String)
  | .null => .ok none
  | .scalar (.text s) => .ok (nonBlank? s)
  | .unset => .ok (some Raw.unset.shown)
  | .foreign f => (f.text?.map fun s => .ok (some s)).getD (.error .notAText)
  | _ => .error .notAText

/-- The table setting, which must have no empty piece between its dots. -/
def tableSetting : Option Raw → Except SettingProblem (Option String)
  | none => .ok none
  | some v => do
    match ← tableName v with
    | none => .ok none
    | some table => if (dottedPieces table).contains "" then .error (.notDotted table) else .ok (some table)

/-- A text without its underscores, none of which may stand at an end or beside another. -/
def withoutUnderscores? (s : String) : Option String :=
  let pieces := Text.splitAt '_' s.toList
  if pieces.any List.isEmpty then none else some (String.ofList pieces.flatten)

/-- The number that a text stands for in the settings: with white space around it, or else with
underscores anywhere in it. -/
def numberText? (s : String) : Option Double :=
  match Double.ofText? (Text.stripOf Text.isWhiteSpace s) with
  | some x => some x
  | none => (withoutUnderscores? s).bind Double.ofText?

def numberOfText (s : Option String) : Except SettingProblem Double :=
  match s.bind numberText? with
  | some x => .ok x
  | none => .error .unreadableNumber

/-- The number that a raw value stands for in the settings. A whole number beyond the range of binary64
stands for none. -/
def numberOf : Raw → Except SettingProblem Double
  | .scalar (.double x) => .ok x
  | .scalar (.int n) =>
    if (Double.ofInt n).isInfinite then .error .notANumber else .ok (Double.ofInt n)
  | .scalar (.bool b) => .ok (Double.ofInt (if b then 1 else 0))
  | .scalar (.text s) => numberOfText (some s)
  | .foreign (.bytes content) => numberOfText (Foreign.bytes content).text?
  | _ => .error .notANumber

/-- The interval setting, which may not be negative. -/
def intervalSetting : Option Raw → Except SettingProblem Double
  | none => .ok default.interval
  | some v => do
    let x ← numberOf v
    if x.isNaN || x.isBelowZero then .error .negative else .ok x

/-- The texts that stand for the truth values, in lower case. -/
def truthTexts : List (String × Bool) :=
  [("0", false), ("off", false), ("f", false), ("false", false), ("n", false), ("no", false),
   ("1", true), ("on", true), ("t", true), ("true", true), ("y", true), ("yes", true)]

/-- The truth value that a whole number stands for. One of more than 64 bits is not even looked at. -/
def truthOfInt (n : Int) : Except SettingProblem Bool :=
  if n = 0 then .ok false
  else if n = 1 then .ok true
  else if (Scalar.int n).fits then .error .unreadableBoolean
  else .error .notABoolean

/-- The truth value that a text stands for, in upper or lower case. -/
def truthOfText (s : Option String) : Except SettingProblem Bool :=
  match s.bind fun s => truthTexts.find? (·.1 = String.ofList (s.toList.map Char.toLower)) with
  | some (_, b) => .ok b
  | none => .error .unreadableBoolean

/-- Whether a whole number lies strictly between the ends of what 64 bits with a sign can hold. -/
def isWithin64 (n : Int) : Bool := decide (-9223372036854775808 < n) && decide (n < 9223372036854775808)

/-- The truth value that a raw value stands for in the settings. -/
def truthOf : Raw → Except SettingProblem Bool
  | .scalar (.bool b) => .ok b
  | .scalar (.int n) => truthOfInt n
  | .scalar (.double x) =>
    match x.toInt?.filter isWithin64 with
    | some n => truthOfInt n
    | none => .error .notABoolean
  | .scalar (.text s) => truthOfText (some s)
  | .foreign (.bytes content) => truthOfText (Foreign.bytes content).text?
  | _ => .error .notABoolean

def requiredSetting : Option Raw → Except SettingProblem Bool
  | none => .ok default.required
  | some v => truthOf v

/-- A check with the name of the field it is about. -/
def about {α : Type} (field : String) : Except SettingProblem α → Outcome α
  | .ok a => .ok a
  | .error problem => .error (.badSetting field problem)

/-- How a name that is no text is written in messages: a truth value like the number it counts as. -/
def namedBy : Raw → String
  | .scalar (.bool b) => Text.decimal (if b then 1 else 0)
  | v => v.shown

/-- The problem with a name, if it is not the name of a setting, and how the name is written then. -/
def nameProblem? : Raw → Option (String × SettingProblem)
  | .scalar (.text name) =>
    if settingVariables.any (·.1 = name) then none else some (name, .unknownField)
  | v => some (namedBy v, .keyNotText)

/-- The settings that named raw values spell. -/
def validate (fields : Pairs) : Outcome Settings := do
  let configFile ← about "config_file" (fileSetting (fields.get? "config_file"))
  let table ← about "table" (tableSetting (fields.get? "table"))
  let interval ← about "reload_interval_s" (intervalSetting (fields.get? "reload_interval_s"))
  let required ← about "required" (requiredSetting (fields.get? "required"))
  match fields.findSome? fun f => nameProblem? f.1 with
  | some (name, problem) => .error (.badSetting name problem)
  | none => .ok ⟨configFile.map plainName, table, interval, required⟩

def ofRaw (data : Raw) : Outcome Settings := do
  let fields ← data.pairs
  validate fields

/-- The fields that an environment holds. -/
def environmentFields (environment : List (String × String)) : RawMap :=
  settingVariables.filterMap fun (field, name) =>
    (environment.find? (·.1 = name)).map fun e => (.text field, .scalar (.text e.2))

/-- Fields with overrides, absent values overriding nothing. -/
def override (fields overrides : RawMap) : RawMap :=
  overrides.foldl
    (fun fs o => match o.2 with
      | .null => fs
      | v => fs.insert o.1 v)
    fields

/-- The settings that an environment and overrides spell. -/
def ofEnvironment (environment : List (String × String)) (overrides : RawMap) : Outcome Settings :=
  validate (override (environmentFields environment) overrides).pairs

/-- The settings for a file named by the caller. What is wrong with them is not told in detail. -/
def forFile (path : String) (table : Option String) (required : Bool) : Outcome Settings :=
  let fields : RawMap :=
    [("config_file", .scalar (.text path)),
     ("table", match table with
       | none => .null
       | some t => .scalar (.text t)),
     ("required", .scalar (.bool required))]
  match validate fields.pairs with
  | .ok s => .ok s
  | .error _ => .error .badFileSettings

/-- The source that settings describe: the file, or nothing at all. -/
def source (s : Settings) (w : World) : Source × World :=
  match s.configFile with
  | none => (.fixed "empty" [], w)
  | some file => Source.newFile file s.table s.required w

end Settings

/-- What the variables of the library begin with. -/
def variableStart : String := "DRIVERCONF_"

/-- The variables of the library in an environment, in ascending order. -/
def libraryVariables (environment : List (String × String)) : List (String × String) :=
  sortByName (environment.filter fun e => variableStart.toList.isPrefixOf e.1.toList)

end LayeredConfig
