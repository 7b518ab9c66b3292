import LayeredConfig.Session.Coordination
/-!
# Profiles of a session

A profile is a snapshot or a derived one. A derived profile reads its parent anew every time, from the
coordinator its snapshot came from, so it follows the generations; one made from a snapshot that no
coordinator serves stays with that snapshot.
-/
namespace LayeredConfig.Session

/-- A reference to a profile. -/
inductive ProfileRef where
  | snapshot (origin : Origin) (s : Snapshot)
  | derived (i : Nat)

namespace ProfileRef

/-- Whether two references are to the same object. -/
def same : ProfileRef → ProfileRef → Bool
  | snapshot o s, snapshot p t => decide (o = p) && s.generation == t.generation && s.name == t.name
  | derived i, derived j => i == j
  | _, _ => false

end ProfileRef

/-- A derived profile in use; one that is not is derived from nothing. -/
def derivedCell (i : Nat) : Act DerivedCell := do
  let s ← get
  pure (s.derived[i]?.getD ⟨.fresh defaultProfile [], .pinned 0 ⟨⟨defaultProfile, []⟩, 0⟩⟩)

/-- The snapshot that a derived profile is over at the moment, with its origin. -/
def parentOf (i : Nat) : Act (Origin × Snapshot) := do
  let c ← derivedCell i
  match c.parent with
  | .pinned number snapshot => pure (.alone number, snapshot)
  | .live coordinator => do
    let config ← current coordinator
    let snapshot ← done (config.profile c.derived.name)
    pure (.served coordinator, snapshot)

def effective : ProfileRef → Act Profile
  | .snapshot _ s => pure s.toProfile
  | .derived i => do
    let (_, parent) ← parentOf i
    let c ← derivedCell i
    let (tree, derived) := c.derived.treeUnder parent
    modify fun s => { s with derived := s.derived.set i { c with derived := derived } }
    pure ⟨derived.name, tree⟩

def overridesOf : ProfileRef → Act Overrides
  | .snapshot _ _ => pure []
  | .derived i => do
    let c ← derivedCell i
    pure c.derived.overrides

/-- The name of a profile, and what profiles derived from it read their parent from. -/
def lineage : ProfileRef → Act (String × Parent)
  | .snapshot (.served coordinator) s => pure (s.name, .live coordinator)
  | .snapshot (.alone number) s => pure (s.name, .pinned number s)
  | .derived i => do
    let c ← derivedCell i
    pure (c.derived.name, c.parent)

def derive (p : ProfileRef) (path : Path) (value : Raw) : Act Nat := do
  let overrides ← overridesOf p
  let v ← done (freeze path.text value)
  let (name, parent) ← lineage p
  let s ← get
  set { s with derived := s.derived ++ [DerivedCell.mk (.fresh name (overrides.shadow path v)) parent] }
  pure s.derived.length

/-! ## Reading -/

def isDefined (p : ProfileRef) (ref : Raw) : Act Bool := do
  let profile ← effective p
  let path ← done ref.referredPath
  pure (profile.isDefined path)

def read (p : ProfileRef) (kind : Kind) (ref : Raw) : Act Reading := do
  let path ← done ref.referredPath
  let profile ← effective p
  done (profile.get kind path)

def readOption (p : ProfileRef) (ref : Raw) : Act Reading :=
  match ref with
  | .option o => read p o.kind ref
  | _ => throw .optionExpected

def ifDefined {α : Type} (p : ProfileRef) (ref : Raw) (get : Act α) : Act (Option α) := do
  if ← isDefined p ref then
    let a ← get
    pure (some a)
  else pure none

def readNanos (p : ProfileRef) (ref : Raw) : Act Int := do
  match ← read p (.scalar .duration) ref with
  | .scalar (.duration d) => pure d.toNanos
  | _ => pure 0

def comparisonKey (p : ProfileRef) (ref : Raw) : Act (List (String × Value)) := do
  let path ← done ref.referredPath
  let profile ← effective p
  done (profile.comparisonKey path)

/-- What a profile is compared with. -/
inductive Comparand where
  | profile (q : ProfileRef)
  | value (v : Raw)

/-- Whether a profile equals something. Only profiles can be equal to one, and only of profiles are the trees looked at. -/
def equals (p : ProfileRef) : Comparand → Act Bool
  | .profile q => do
    let p ← effective p
    let q ← effective q
    pure (p.same q)
  | .value _ => pure false

/-- The generation that the effective values of a profile come from. -/
def generationOf : ProfileRef → Act Int
  | .snapshot _ s => pure s.generation
  | .derived i => do
    let (_, parent) ← parentOf i
    pure parent.generation

def shownProfile : ProfileRef → Act String
  | .snapshot _ s => pure s.shown
  | .derived i => do
    let c ← derivedCell i
    pure c.derived.shown

def profileOf (coordinator : Nat) (name : String) : Act ProfileRef := do
  let config ← current coordinator
  let snapshot ← done (config.profile name)
  pure (.snapshot (.served coordinator) snapshot)

end LayeredConfig.Session
