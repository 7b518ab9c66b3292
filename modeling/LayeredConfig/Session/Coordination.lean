import LayeredConfig.Session.State
/-!
# Coordinators and loaders of a session

A loader is a coordinator together with the settings it was made with. Whatever fails while reloading is
logged; a failure of the background loop goes to whoever observes the coordinator, else to the log.
-/
namespace LayeredConfig.Session

/-- A loader: its settings and its coordinator. -/
structure Loader where
  settings : Settings
  coordinator : Nat

/-! ## Making them -/

def newCoordinator (source : Source) (observed : Bool) : Act Nat := do
  let s ← get
  set { s with coordinators := s.coordinators ++ [CoordinatorCell.mk source .fresh observed []] }
  pure s.coordinators.length

def newLoader (source : Source) (settings : Settings) : Act Loader := do
  let coordinator ← newCoordinator source false
  pure ⟨settings, coordinator⟩

/-- A new loader over the source that settings describe, those of the environment if there are none. -/
def loaderOfSettings (settings : Option Settings) : Act Loader := do
  let settings ← match settings with
    | some s => pure s
    | none => environmentSettings
  let source ← sourceOf settings
  newLoader source settings

def loaderOfFile (path : String) (table : Option String) (required : Bool) : Act Loader := do
  let settings ← done (Settings.forFile path table required)
  loaderOfSettings (some settings)

def cell (i : Nat) : Act CoordinatorCell := do
  let s ← get
  pure (s.coordinators[i]?.getD .idle)

def putCell (i : Nat) (c : CoordinatorCell) : Act Unit :=
  modify fun s => { s with coordinators := s.coordinators.set i c }

def CoordinatorCell.shown (c : CoordinatorCell) : String :=
  "ReloadCoordinator(source=" ++ c.source.shown ++ ", generation=" ++
    Text.decimal c.coordinator.generation ++ ")"

/-- A loader as it is shown, given its coordinator. -/
def shownLoader (c : CoordinatorCell) : String := "DriverConfigLoader(coordinator=" ++ c.shown ++ ")"

/-! ## Asking them -/

def request {α : Type} (i : Nat)
    (ask : Coordinator → Feed World → World → Coordinator.Answer World α) : Act α := do
  let c ← cell i
  let answer ← inWorld fun w =>
    let a := ask c.coordinator c.source.feed w
    (a, a.state)
  putCell i { c with coordinator := answer.coordinator }
  match answer.result with
  | .ok a => pure a
  | .error f => do
    log f.reloadWarning
    throw f

def current (i : Nat) : Act Config := request i Coordinator.demand

def reload (i : Nat) : Act Config := request i Coordinator.reload

def reloadIfChanged (i : Nat) : Act Bool := request i Coordinator.reloadIfChanged

def generationServed (i : Nat) : Act Int := do
  let c ← cell i
  pure c.coordinator.generation

/-- One turn of the background loop, which began when generation `noted` was served. Others may act before
the source is asked, but the question is about that generation. Nothing that fails ends the loop. -/
def poll (i : Nat) (noted : Int) : Act Unit := do
  try
    let _ ← request i fun c => c.reloadIfChangedSince noted
  catch f =>
    let c ← cell i
    if c.observed then putCell i { c with reports := c.reports ++ [f] } else log [f.backgroundWarning]

/-- The interval of the background loop must be positive. -/
def checkInterval (interval : Double) : Act Unit :=
  if interval.isZero || interval.isBelowZero then throw .intervalNotPositive else pure ()

/-- Whether a loader with these settings looks for changes in the background. -/
def polls (settings : Settings) : Bool := !(settings.interval.isZero || settings.interval.isBelowZero)

/-- What several callers that reload together are answered. -/
structure Coalesced where
  generation : Int
  succeeded : Nat
  failed : List Failure

/-- Reloads a coordinator while `followers` more callers join the pass in flight. -/
def coalesce (i followers : Nat) : Act Coalesced := do
  let c ← cell i
  let fetched ← inWorld c.source.fetch
  let finished := Concurrent.coalesce c.coordinator followers fetched
  putCell i { c with coordinator := finished.live }
  let generation := finished.live.generation
  let answers := Concurrent.answers finished
  let failed := answers.filterMap fun answer =>
    match answer with
    | .ok _ => none
    | .error f => some (Failure.reload generation f)
  log (failed.flatMap Failure.reloadWarning)
  pure ⟨generation, answers.length - failed.length, failed⟩

end LayeredConfig.Session
