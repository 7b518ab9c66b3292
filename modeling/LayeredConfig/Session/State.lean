import LayeredConfig.Builder
import LayeredConfig.Coordinator.Concurrent
import LayeredConfig.Profile.Derived
/-!
# Sessions

A session is everything that an application holds while it uses the library: the world around its
sources, the coordinators and loaders it made, its builders, and its derived profiles. An operation of
the application is an `Act`: it changes the session and gives a result or fails, and what it changed
before it failed stays changed. Objects are referred to by their places in the session; two references
are to the same object when they are equal.
-/
namespace LayeredConfig.Session

/-- A coordinator in use: its source, its state, and who hears of failures in the background. -/
structure CoordinatorCell where
  source : Source
  coordinator : Coordinator
  observed : Bool
  reports : List Failure

def CoordinatorCell.idle : CoordinatorCell := ⟨.layered [], .fresh, false, []⟩

/-- Where a snapshot or a configuration comes from: a coordinator that goes on serving, or nowhere, in
which case it has a number of its own. -/
inductive Origin where
  | served (coordinator : Nat)
  | alone (number : Nat)
  deriving DecidableEq

/-- What a derived profile reads its parent from: a coordinator, or one snapshot for ever. -/
inductive Parent where
  | live (coordinator : Nat)
  | pinned (number : Nat) (snapshot : Snapshot)

structure DerivedCell where
  derived : Derived
  parent : Parent

/-- A session. The journal holds what was logged. -/
structure State where
  world : World
  coordinators : List CoordinatorCell
  builders : List Builder
  drafts : List Writes
  derived : List DerivedCell
  numbers : Nat
  journal : List String

/-- A session in an environment in which nothing has been done. -/
def State.start (environment : List (String × String)) : State :=
  ⟨.ofEnvironment environment, [], [], [], [], 0, []⟩

/-- An operation of the application. -/
abbrev Act (α : Type) := ExceptT Failure (StateM State) α

/-- A result that needs no session. -/
def done {α : Type} : Outcome α → Act α
  | .ok a => pure a
  | .error f => throw f

/-- Changes the world and gives what came of it. -/
def inWorld {α : Type} (change : World → α × World) : Act α := do
  let s ← get
  let (a, w) := change s.world
  set { s with world := w }
  pure a

def log (lines : List String) : Act Unit := modify fun s => { s with journal := s.journal ++ lines }

/-- A number that was not given out before. -/
def newNumber : Act Nat := do
  let s ← get
  set { s with numbers := s.numbers + 1 }
  pure s.numbers

/-! ## Files and sources -/

def writeFile (name : String) (content : ByteArray) : Act Unit :=
  inWorld fun w => ((), { w with files := w.files.put name (.file content) })

def makeFolder (name : String) : Act Unit :=
  inWorld fun w => ((), { w with files := w.files.put name .folder })

def deleteFile (name : String) : Act Unit :=
  inWorld fun w => ((), { w with files := w.files.remove name })

def newFileSource (path : String) (table : Option String) (required : Bool) : Act Source :=
  inWorld (Source.newFile path table required)

def newSupplied (name : String) (supply : Supply) : Act Source :=
  inWorld fun w =>
    (.supplied name w.suppliers.length, { w with suppliers := w.suppliers ++ [⟨supply, 0⟩] })

/-- Changes what the supplier of a source does from now on. -/
def resupply (source : Source) (supply : Supply) : Act Unit :=
  inWorld fun w =>
    match source with
    | .supplied _ i => ((), { w with suppliers := w.suppliers.modify i fun s => { s with supply := supply } })
    | _ => ((), w)

def callsOf (source : Source) : Act Nat :=
  inWorld fun w =>
    match source with
    | .supplied _ i => ((w.suppliers[i]?.map (·.calls)).getD 0, w)
    | _ => (0, w)

def fetch (source : Source) : Act Content := do
  let result ← inWorld source.fetch
  done result

def changedSince (source : Source) (generation : Int) : Act Bool := do
  let s ← get
  done (source.changedSince generation s.world)

def environmentSettings : Act Settings := do
  let s ← get
  done (Settings.ofEnvironment s.world.environment [])

def sourceOf (settings : Settings) : Act Source := inWorld settings.source

end LayeredConfig.Session
