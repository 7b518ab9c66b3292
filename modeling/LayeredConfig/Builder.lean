import LayeredConfig.Profile.Split
import LayeredConfig.Settings
import LayeredConfig.Value.Reading
import LayeredConfig.Writes
/-!
# Builders

A builder collects overrides in code. Each path holds one value, the one written last; writing inside a
profile is writing beneath the profile's table. Building lays the overrides over a base source, and the
base over the defaults. The name of the default profile is reserved: no profile may be declared by it,
and the overrides may not hold a table under it.
-/
namespace LayeredConfig

/-! ## Prepared profiles -/

/-- Option values prepared for a profile, by dotted paths relative to it. Nothing is checked yet. -/
abbrev ProfileOverrides := List (String × Raw)

/-- The prepared values in ascending order of their paths. -/
def ProfileOverrides.entries (overrides : ProfileOverrides) : ProfileOverrides := sortByName overrides

def Writes.prepare (ws : Writes) : ProfileOverrides := ws.map fun e => (e.1.text, e.2.thaw)

/-! ## Builders of loaders -/

/-- A builder: the sources under its overrides, the settings it was given, its overrides, and the names
of the profiles it was asked for. -/
structure Builder where
  base : Option Source
  defaults : Option Source
  settings : Option Settings
  writes : Writes
  declared : List String

/-- A path inside a named profile. -/
def Path.inProfile (name : String) (path : Path) : Outcome Path :=
  match Path.ofSegments? (profilePlace name path.segments) with
  | some p => .ok p
  | none => .error (.paddedPath (joinDots (profilePlace name path.segments)))

namespace Builder

def new (base defaults : Option Source) (settings : Option Settings) : Builder :=
  ⟨base, defaults, settings, [], []⟩

def write (b : Builder) (path : Path) (value : Raw) : Outcome Builder :=
  (freeze path.text value).map fun v => { b with writes := b.writes.put path v }

def declare (b : Builder) (name : Raw) : Outcome (String × Builder) :=
  name.profileName.map fun n => (n, { b with declared := b.declared ++ [n] })

def writeInProfile (b : Builder) (name : String) (path : Path) (value : Raw) : Outcome Builder := do
  let path ← path.inProfile name
  b.write path value

/-- Writes prepared values inside a profile one after the other. What was written before a value that
is refused stays written. -/
def writeAll (b : Builder) (name : String) : List (String × Raw) → Outcome Unit × Builder
  | [] => (.ok (), b)
  | (text, value) :: rest =>
    match Path.parse text with
    | .error f => (.error f, b)
    | .ok path =>
      match b.writeInProfile name path value with
      | .error f => (.error f, b)
      | .ok b => b.writeAll name rest

/-- Declares a profile and writes prepared values inside it. -/
def withProfile (b : Builder) (name : Raw) (overrides : ProfileOverrides) : Outcome Unit × Builder :=
  match b.declare name with
  | .error f => (.error f, b)
  | .ok (n, b) => b.writeAll n overrides.entries

/-- Whether a tree declares a profile under the reserved name. -/
def declaresReserved (t : Tree) : Bool :=
  match t.get? profilesKey with
  | some (.map declared) => (declared.find? (·.1 = defaultProfile)).isSome
  | _ => false

/-- The layers over a base, the lowest first. -/
def layers (b : Builder) (base : Source) : List Source :=
  b.defaults.toList ++ [base, .fixed "overrides" b.writes.tree]

/-- The settings and the source of the loader that a builder makes. Without a base the settings name the
source, and without settings either the environment does. -/
def build (b : Builder) (w : World) : Outcome (Settings × Source) × World :=
  if b.declared.contains defaultProfile || declaresReserved b.writes.tree then
    (.error (.reservedProfile defaultProfile), w)
  else
    let settings : Outcome Settings :=
      match b.settings, b.base with
      | some s, _ => .ok s
      | none, some _ => .ok .default
      | none, none => Settings.ofEnvironment w.environment []
    match settings with
    | .error f => (.error f, w)
    | .ok s =>
      match b.base with
      | some base => (.ok (s, .layered (b.layers base)), w)
      | none =>
        let (base, w) := s.source w
        (.ok (s, .layered (b.layers base)), w)

end Builder
end LayeredConfig
