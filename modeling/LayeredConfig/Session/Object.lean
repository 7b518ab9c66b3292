import LayeredConfig.Session.Building
/-!
# Objects of a session

What an application can hold in a variable: sources, builders and prepared profiles, coordinators and
loaders, configurations and profiles. Configurations and profiles that a coordinator serves are the same
object as long as the generation is; any other object is the same only as itself, which its number tells.
-/
namespace LayeredConfig.Session

/-- An object that an application holds. -/
inductive Object where
  | source (s : Source)
  | builder (i : Nat)
  | scope (i : Nat) (name : String)
  | draft (i : Nat)
  | overrides (values : ProfileOverrides)
  | coordinator (i : Nat)
  | loader (l : Loader)
  | config (origin : Origin) (c : Config)
  | profile (p : ProfileRef)

namespace Object

def typeName : Object → String
  | source (.fixed _ _) => "MappingSource"
  | source (.supplied _ _) => "SupplierSource"
  | source (.file _) => "TomlFileSource"
  | source (.custom _ _) => "Custom"
  | source (.layered _) => "LayeredSource"
  | builder _ => "ConfigLoaderBuilder"
  | scope _ _ => "_ProfileScope"
  | draft _ => "ProfileBuilder"
  | overrides _ => "ProfileOverrides"
  | coordinator _ => "ReloadCoordinator"
  | loader _ => "DriverConfigLoader"
  | config _ _ => "ResolvedConfig"
  | profile (.snapshot _ _) => "ResolvedProfile"
  | profile (.derived _) => "DerivedProfile"

/-- An object used as a source: only sources can be. -/
def asSource : Object → Outcome Source
  | source s => .ok s
  | o => .error (.notASource o.typeName)

/-- The coordinator that requests to an object go to: a loader hands them to its own. -/
def coordinator? : Object → Option Nat
  | coordinator i => some i
  | loader l => some l.coordinator
  | _ => none

/-- The builder that an object belongs to. -/
def builder? : Object → Option Nat
  | builder i => some i
  | scope i _ => some i
  | _ => none

def target? : Object → Option Target
  | builder i => some (.builder i)
  | scope i name => some (.scope i name)
  | draft i => some (.draft i)
  | profile p => some (.profile p)
  | _ => none

end Object

/-! ## The values of objects -/

/-- Stored values at dotted paths, as raw ones. -/
def thawEntries (entries : List (String × Value)) : List (String × Raw) :=
  entries.map fun e => (e.1, e.2.thaw)

/-- The values that an object holds, by dotted paths: those written to a builder, prepared ones, or the
effective ones of a profile. -/
def valuesOf : Object → Act (Option (List (String × Raw)))
  | .builder i => do
    let b ← builder i
    pure (some (thawEntries b.writes.entries))
  | .overrides values => pure (some values.entries)
  | .profile p => do
    let profile ← effective p
    pure (some (thawEntries profile.entries))
  | _ => pure none

/-- Writes the values of an object inside a profile of a builder. Those of a builder or of a profile are
looked at once the profile is declared. -/
def withValuesOf (i : Nat) (name : Raw) : Object → Act Unit
  | .overrides values => withProfile i name values
  | given => do
    let name ← inProfile i name
    let values ← valuesOf given
    let b ← builder i
    let (result, b) := b.writeAll name (values.getD [])
    putBuilder i b
    done result

/-! ## Identity -/

/-- An object with the number it was given when the application first held it. -/
structure Held where
  object : Object
  number : Nat

def Held.same (a b : Held) : Bool :=
  match a.object, b.object with
  | .profile p, .profile q => p.same q
  | .config o c, .config p d => decide (o = p) && c.generation == d.generation
  | _, _ => a.number == b.number

end LayeredConfig.Session
