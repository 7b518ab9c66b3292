import LayeredConfig.Session.Profiles
/-!
# Builders of a session

Values are written to builders, to a profile inside a builder, to prepared profiles and to profiles, all
in the same three ways: a raw value as it is, a value checked against a kind first, or a tombstone. A
write to a profile makes a new derived profile; any other changes what it writes to.
-/
namespace LayeredConfig.Session

/-- What values can be written to. -/
inductive Target where
  | builder (i : Nat)
  | scope (i : Nat) (name : String)
  | draft (i : Nat)
  | profile (p : ProfileRef)

def builder (i : Nat) : Act Builder := do
  let s ← get
  pure (s.builders[i]?.getD (.new none none none))

def putBuilder (i : Nat) (b : Builder) : Act Unit :=
  modify fun s => { s with builders := s.builders.set i b }

def newBuilder (base defaults : Option Source) (settings : Option Settings) : Act Nat := do
  let s ← get
  set { s with builders := s.builders ++ [Builder.new base defaults settings] }
  pure s.builders.length

def newDraft : Act Nat := do
  let s ← get
  set { s with drafts := s.drafts ++ [[]] }
  pure s.drafts.length

def draft (i : Nat) : Act Writes := do
  let s ← get
  pure (s.drafts[i]?.getD [])

/-- Writes a raw value at a checked path. The answer is the derived profile that this made, if any. -/
def writeAt (target : Target) (path : Path) (value : Raw) : Act (Option Nat) := do
  match target with
  | .builder i =>
    let b ← builder i
    let b ← done (b.write path value)
    putBuilder i b
    pure none
  | .scope i name =>
    let b ← builder i
    let b ← done (b.writeInProfile name path value)
    putBuilder i b
    pure none
  | .draft i =>
    let ws ← draft i
    let v ← done (freeze path.text value)
    modify fun s => { s with drafts := s.drafts.set i (ws.put path v) }
    pure none
  | .profile p =>
    let made ← derive p path value
    pure (some made)

def writeRaw (target : Target) (ref value : Raw) : Act (Option Nat) := do
  let path ← done ref.referredPath
  writeAt target path value

def writeTyped (target : Target) (kind : Kind) (ref value : Raw) : Act (Option Nat) := do
  let path ← done ref.referredPath
  let v ← done (normalize kind path.text value)
  writeAt target path v.thaw

def writeUnset (target : Target) (ref : Raw) : Act (Option Nat) := do
  let path ← done ref.referredPath
  writeAt target path .unset

/-- Declares a profile in a builder, to write inside it. -/
def inProfile (i : Nat) (name : Raw) : Act String := do
  let b ← builder i
  let (name, b) ← done (b.declare name)
  putBuilder i b
  pure name

/-- Writes prepared values inside a profile of a builder. -/
def withProfile (i : Nat) (name : Raw) (overrides : ProfileOverrides) : Act Unit := do
  let b ← builder i
  let (result, b) := b.withProfile name overrides
  putBuilder i b
  done result

def buildLoader (i : Nat) : Act Loader := do
  let b ← builder i
  let result ← inWorld b.build
  let (settings, source) ← done result
  newLoader source settings

end LayeredConfig.Session
