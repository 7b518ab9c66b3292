import LayeredConfig.Failure.Basic
/-!
# References to options and profiles

Callers name an option by a dotted text or by an `OptionKey`, and a profile by a text of one segment.
What they hand in is raw; these functions turn it into a checked path or name.
-/
namespace LayeredConfig

def Path.parse (text : String) : Outcome Path :=
  match Path.ofText? text with
  | some p => .ok p
  | none => if text = "" then .error (.invalidPath (.scalar (.text text))) else .error (.paddedPath text)

namespace Raw

/-- The path that a raw value spells; only texts spell paths. -/
def spelledPath : Raw → Outcome Path
  | scalar (.text s) => Path.parse s
  | v => .error (.invalidPath v)

/-- The path of the option that a raw value refers to. -/
def referredPath : Raw → Outcome Path
  | option o => .ok o.path
  | scalar (.text s) => Path.parse s
  | v => .error (.notAReference v.typeName)

/-- The profile name that a raw value spells: a path of one segment. -/
def profileName : Raw → Outcome String
  | scalar (.text s) => do
    let p ← Path.parse s
    if p.segments.length = 1 then .ok s else .error (.invalidProfileName (scalar (.text s)))
  | v => .error (.invalidProfileName v)

end Raw

/-- The key of the tables of named profiles. -/
def profilesKey : String := "profiles"

/-- The name of the profile that every other profile inherits from. -/
def defaultProfile : String := "default"

/-- The place of a path inside a named profile. -/
def profilePlace (name : String) (path : List String) : List String := profilesKey :: name :: path

/-- The dotted form of a path inside a profile; the path itself is not looked at. -/
def profilePath (name : Raw) (path : String) : Outcome String := do
  let name ← name.profileName
  .ok (joinDots [profilesKey, name, path])

/-- The option of a dotted path and the name of a kind; the kind is looked at first. -/
def OptionKey.make (path : Raw) (kind : String) : Outcome OptionKey :=
  match Kind.ofName? kind with
  | none => .error (.unknownKind kind)
  | some k => path.spelledPath.map fun p => ⟨p, k⟩

def Kind.named (name : String) : Outcome Kind :=
  match Kind.ofName? name with
  | none => .error (.unknownKind name)
  | some k => .ok k

end LayeredConfig
