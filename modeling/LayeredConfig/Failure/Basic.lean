import LayeredConfig.Failure.Fault
import LayeredConfig.Ordered
import LayeredConfig.Value.Basic
/-!
# Failures

Everything that can go wrong, by cause. The wording is in `Failure.message` and `Failure.hint` alone;
the rest of the library speaks of constructors. A failed reload keeps the failure that caused it, and
its hint is the first hint found along that cause.
-/
namespace LayeredConfig

/-- A value that does not fit the kind it is read as: where it stands, and how it is shown. -/
structure Mismatch where
  path : String
  expected : Kind
  typeName : String
  shown : String

/-- Why a file cannot be read although something is there. -/
inductive FileProblem where
  | isDirectory
  | notDirectory
  | nameTooLong
  | refused (number : Nat) (reason : String)

inductive SettingProblem where
  | notAPath
  | notAText
  | notDotted (table : String)
  | unreadableNumber
  | notANumber
  | negative
  | unreadableBoolean
  | notABoolean
  | unknownField
  | keyNotText

/-- Everything that can go wrong. -/
inductive Failure where
  | invalidPath (value : Raw)
  | paddedPath (text : String)
  | notAReference (typeName : String)
  | tooWide (label : Key) (n : Int)
  | nullInList (label : Key) (index : Nat)
  | badKey (label key : Key)
  | givenTwice (label : Key)
  | unsupported (label : Key) (typeName : String)
  | rootNotMap (what typeName : String)
  | sourceNotMap (what typeName : String)
  | absentForSetter (path : String)
  | setterMismatch (m : Mismatch)
  | optionExpected
  | invalidProfileName (name : Raw)
  | reservedProfile (name : String)
  | profilesNotTable (typeName : String)
  | profileNotTable (name typeName : String)
  | notASource (typeName : String)
  | noLayers
  | fileMissing (path : String)
  | fileUnreadable (path : String) (problem : FileProblem)
  | fileMalformed (path : String)
  | notATable (table : String)
  | badSetting (field : String) (problem : SettingProblem)
  | badFileSettings
  | notDefined (path profile : String)
  | mismatch (m : Mismatch)
  | profileMissing (name : String) (available : List String)
  | reload (generation : Int) (cause : Failure)
  | unknownKind (name : String)
  | notScalar (kind : Kind)
  | intervalNotPositive
  | unordered (left right : String)
  | unsetNotWritable
  | tooLargeForDouble
  | unhashable (typeName : String)
  | noElements (typeName : String)
  | elementNotSequence (index : Nat)
  | elementNotPair (index length : Nat)
  | numberTooLong
  | numeralTooLong (digits : Nat)
  | nulInFileName
  | supplied (fault : Fault)

def Mismatch.message (m : Mismatch) : String :=
  "Option " ++ Text.quoted m.path ++ " expected " ++ m.expected.name ++ ", got " ++ m.typeName ++
    ": " ++ m.shown

def FileProblem.message (path : String) : FileProblem → String
  | isDirectory => "[Errno 21] Is a directory: " ++ Text.quoted path
  | notDirectory => "[Errno 20] Not a directory: " ++ Text.quoted path
  | nameTooLong => "[Errno 36] File name too long: " ++ Text.quoted path
  | refused number reason => "[Errno " ++ Text.decimal number ++ "] " ++ reason ++ ": " ++ Text.quoted path

def SettingProblem.message : SettingProblem → String
  | notAPath => "Input is not a valid path for <class 'pathlib.Path'>"
  | notAText => "Input should be a valid string"
  | notDotted table => "table must be a dotted name, got " ++ Text.quoted table
  | unreadableNumber => "Input should be a valid number, unable to parse string as a number"
  | notANumber => "Input should be a valid number"
  | negative => "Input should be greater than or equal to 0"
  | unreadableBoolean => "Input should be a valid boolean, unable to interpret input"
  | notABoolean => "Input should be a valid boolean"
  | unknownField => "Extra inputs are not permitted"
  | keyNotText => "Keys should be strings"

/-- The loader settings with the environment variable that holds each. -/
def settingVariables : List (String × String) :=
  [("config_file", "DRIVERCONF_CONFIG_FILE"), ("table", "DRIVERCONF_TABLE"),
   ("reload_interval_s", "DRIVERCONF_RELOAD_INTERVAL"), ("required", "DRIVERCONF_REQUIRE_FILE")]

/-- The hint for a setting: the variable that holds it, if one does. -/
def settingHint (field : String) : String :=
  match settingVariables.find? fun p => p.1 = field with
  | some (_, name) => "Check " ++ name ++ " or the matching LoaderSettings argument."
  | none => "Check the DRIVERCONF_* environment variables."

namespace Failure

def pathHint : String := "Paths are non-empty dotted strings such as 'basic.request.timeout'."

/-- The decimal digits that a whole number may have where it is read or written. -/
def maxDigits : Nat := 4300

/-- How it is said that a whole number has too many digits. -/
def tooManyDigits : String :=
  "Exceeds the limit (" ++ Text.decimal maxDigits ++ " digits) for integer string conversion"

/-- What can be done about it. -/
def raiseLimit : String := "; use sys.set_int_max_str_digits() to increase the limit"

/-- The failure to store a whole number of more than 64 bits. A number that is too long to be written does
not get into a message. -/
def outOfRange (label : Key) (n : Int) : Failure :=
  if n.natAbs < Nat.pow 10 maxDigits then tooWide label n else numberTooLong

/-- The text of a failure. What a reader of a foreign format has to say about a malformed file is left
out and marked so. -/
def message : Failure → String
  | invalidPath value => "Invalid option path " ++ value.shown
  | paddedPath text => "Invalid option path " ++ Text.quoted text ++ ": empty or padded segment"
  | notAReference t => "Expected an Option or a dotted path, got " ++ t
  | tooWide label n => "Value for " ++ label.shown ++ " does not fit in 64 bits: " ++ Text.decimal n
  | nullInList label i => "List " ++ label.shown ++ " contains a null at index " ++ Text.decimal i
  | badKey label key => "Map " ++ label.shown ++ " has a non-string or empty key: " ++ key.shown
  | givenTwice label => "Map " ++ label.shown ++ " is given more than one value"
  | unsupported label t => "Unsupported value type for " ++ label.shown ++ ": " ++ t
  | rootNotMap what t => "Expected a mapping at the root of the " ++ what ++ ", got " ++ t
  | sourceNotMap what t => what ++ " must produce a mapping, got " ++ t
  | absentForSetter path => "Typed setter for " ++ Text.quoted path ++ " got None"
  | setterMismatch m => m.message
  | optionExpected => "get() needs an Option with a declared kind"
  | invalidProfileName name => "Invalid profile name " ++ name.shown
  | reservedProfile name =>
    "Profile name " ++ Text.quoted name ++ " is reserved for the default profile"
  | profilesNotTable t => "'profiles' must be a table of named profiles, got " ++ t
  | profileNotTable name t => "Profile " ++ Text.quoted name ++ " must be a table, got " ++ t
  | notASource t => "Expected a ConfigSource or a mapping, got " ++ t
  | noLayers => "LayeredSource needs at least one layer"
  | fileMissing path => "Configuration file not found: " ++ path
  | fileUnreadable path problem =>
    "Cannot read configuration file " ++ path ++ ": " ++ problem.message path
  | fileMalformed path => "Malformed configuration file " ++ path ++ ": <detail>"
  | notATable table => "TOML key " ++ Text.quoted table ++ " is not a table"
  | badSetting field problem =>
    if field = "" then problem.message
    else "Invalid loader settings: " ++ field ++ ": " ++ problem.message
  | badFileSettings => "The settings for the file are not valid"
  | notDefined path profile =>
    "Missing option " ++ Text.quoted path ++ " in profile " ++ Text.quoted profile
  | mismatch m => m.message
  | profileMissing name _ => "Profile " ++ Text.quoted name ++ " not found"
  | reload _ cause => "Configuration reload failed: " ++ cause.message
  | unknownKind name => Text.quoted name ++ " is not a valid OptionKind"
  | notScalar kind => kind.label ++ " is not a scalar kind"
  | intervalNotPositive => "interval_s must be > 0"
  | unordered left right =>
    "'<' not supported between instances of '" ++ left ++ "' and '" ++ right ++ "'"
  | unsetNotWritable => "Object of type _Unset is not JSON serializable"
  | tooLargeForDouble => "int too large to convert to float"
  | unhashable t => "unhashable type: '" ++ t ++ "'"
  | noElements t => "'" ++ t ++ "' object is not iterable"
  | elementNotSequence i =>
    "cannot convert dictionary update sequence element #" ++ Text.decimal i ++ " to a sequence"
  | elementNotPair i n =>
    "dictionary update sequence element #" ++ Text.decimal i ++ " has length " ++ Text.decimal n ++
      "; 2 is required"
  | numberTooLong => tooManyDigits ++ raiseLimit
  | numeralTooLong digits =>
    tooManyDigits ++ ": value has " ++ Text.decimal digits ++ " digits" ++ raiseLimit
  | nulInFileName => "embedded null byte"
  | supplied fault => fault.message

/-- The hint that goes with a failure of the library's own, a failed reload apart. -/
def ownHint : Failure → Option String
  | invalidPath _ => some pathHint
  | paddedPath _ => some pathHint
  | givenTwice _ => some "Write each option once, either as a dotted key or as a nested map."
  | unsupported _ _ =>
    some "Values are bool, int, float, str, timedelta, or lists/maps of those."
  | absentForSetter _ => some "Use without() to unset an option explicitly."
  | optionExpected => some "Use a typed getter such as get_string() for raw paths."
  | invalidProfileName _ => some "Profile names are non-empty and contain no dots."
  | reservedProfile _ => some "Put default values at the root of the tree, or pick another name."
  | fileMissing _ => some "Create the file, or load it with required=False."
  | badSetting field _ => if field = "" then none else some (settingHint field)
  | notDefined _ _ =>
    some "Use is_defined() or a get_*_if_defined() helper for optional values."
  | profileMissing _ available =>
    if available.isEmpty then none
    else some ("Available profiles: " ++ ", ".intercalate (sortTexts available))
  | _ => none

/-- The first hint found along a failure and what caused it. -/
def firstHint : Failure → Option String
  | reload _ cause => firstHint cause
  | supplied fault => fault.firstHint
  | f => f.ownHint

/-- The hint that is shown with a failure. -/
def hint : Failure → Option String
  | supplied fault => fault.hint
  | f => f.firstHint

/-- Whether a failure is one of the configuration; the others are faults of the code that uses it. -/
def isOfConfiguration : Failure → Bool
  | badFileSettings => false
  | unknownKind _ => false
  | notScalar _ => false
  | intervalNotPositive => false
  | unordered _ _ => false
  | unsetNotWritable => false
  | tooLargeForDouble => false
  | unhashable _ => false
  | noElements _ => false
  | elementNotSequence _ => false
  | elementNotPair _ _ => false
  | numberTooLong => false
  | numeralTooLong _ => false
  | nulInFileName => false
  | supplied fault => fault.kind.isOfConfiguration
  | _ => true

end Failure

/-- A result or the failure that stands in its way. -/
abbrev Outcome (α : Type) := Except Failure α

end LayeredConfig
