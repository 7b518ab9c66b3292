import LayeredConfig.Profile.Split
import LayeredConfig.Tree.Expand
import LayeredConfig.Value.Reading
/-!
# Profiles

A profile is a named effective tree. Reading an option that nothing resolves fails, and so does reading
one as another kind than its own; two profiles are equal when their entries are, whatever their names.
-/
namespace LayeredConfig

/-- A name and the effective tree read under it. -/
structure Profile where
  name : String
  tree : Tree

/-- The leaves of a section, compared by path and value. A section that is no map is a leaf itself. -/
def sectionEntries : Value → List (String × Value)
  | .map entries => Tree.flatten entries
  | v => [("", v)]

namespace Profile

def isDefined (p : Profile) (path : Path) : Bool := (p.tree.lookup? path.segments).isSome

def value (p : Profile) (path : Path) : Outcome Value :=
  match p.tree.lookup? path.segments with
  | some v => .ok v
  | none => .error (.notDefined path.text p.name)

def get (p : Profile) (kind : Kind) (path : Path) : Outcome Reading := do
  let v ← p.value path
  v.read kind path.text

def getIfDefined (p : Profile) (kind : Kind) (path : Path) : Outcome (Option Reading) :=
  if p.isDefined path then (p.get kind path).map some else .ok none

/-- The nanoseconds of an option read as a duration, if the option is defined. -/
def nanosIfDefined (p : Profile) (path : Path) : Outcome (Option Int) := do
  match ← p.getIfDefined (.scalar .duration) path with
  | some (.scalar (.duration d)) => .ok (some d.toNanos)
  | _ => .ok none

def entries (p : Profile) : List (String × Value) := p.tree.flatten

/-- The key by which the section at an option is compared across profiles. -/
def comparisonKey (p : Profile) (path : Path) : Outcome (List (String × Value)) := do
  let v ← p.value path
  .ok (sectionEntries v)

def same (p q : Profile) : Bool := Value.sameEntries p.entries q.entries

end Profile

/-- The index of the first element that each element is the same as. -/
def classesBy {α : Type} (same : α → α → Bool) (xs : List α) : List Nat :=
  xs.map fun x => xs.findIdx fun y => same y x

/-! ## Snapshots and configurations -/

/-- A profile of one resolution pass. -/
structure Snapshot extends Profile where
  generation : Int

def Snapshot.shown (s : Snapshot) : String :=
  "ResolvedProfile(name=" ++ Text.quoted s.name ++ ", generation=" ++ Text.decimal s.generation ++
    ", entries=" ++ Text.decimal s.entries.length ++ ")"

/-- All profiles of one resolution pass, the default one first, and the tree they came from. -/
structure Config where
  generation : Int
  tree : Tree
  profiles : List (String × Tree)

namespace Config

def names (c : Config) : List String := sortTexts (c.profiles.map (·.1))

def contains (c : Config) (name : String) : Bool := c.profiles.any (·.1 == name)

/-- Whether a profile is declared under a raw name. Only texts name profiles, and values that cannot be
keys of a map cannot be asked for. -/
def has (c : Config) (name : Raw) : Outcome Bool :=
  match name with
  | .scalar (.text s) => .ok (c.contains s)
  | v => if v.isKeyLike then .ok false else .error (.unhashable v.typeName)

def profile (c : Config) (name : String) : Outcome Snapshot :=
  match c.profiles.find? (·.1 == name) with
  | some (_, t) => .ok { name := name, tree := t, generation := c.generation }
  | none => .error (.profileMissing name (c.profiles.map (·.1)))

/-- One resolution pass over a source's content. -/
def resolve (content : Content) (generation : Int) : Outcome Config := do
  let profiles ← profilesOf content
  let tree ← content.pruned
  .ok { generation := generation, tree := tree, profiles := profiles }

end Config
end LayeredConfig
