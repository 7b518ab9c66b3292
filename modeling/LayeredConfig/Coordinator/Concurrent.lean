import LayeredConfig.Coordinator.Basic
import LayeredConfig.Coordinator.Flights
/-!
# Concurrent callers of one coordinator

Any number of callers ask one coordinator for a reload or for its current configuration at the same
time. Each goes through phases, and one step of one caller is atomic: looking at what is served, joining
or registering a pass, doing the pass, publishing what it resolved, completing the ticket, removing the
registration, and receiving an outcome. `step` is the step relation as a partial function, with what the
pass fetches as an argument; `run` follows a schedule of steps.
-/
namespace LayeredConfig.Concurrent

inductive Request where
  | reload
  | current
  deriving DecidableEq

inductive Phase where
  | started
  | entering
  | leading (ticket : Nat)
  | publishing (ticket : Nat) (config : Config)
  | completing (ticket : Nat) (outcome : Outcome Config)
  | leaving (outcome : Outcome Config)
  | waiting (ticket : Nat)
  | returned (outcome : Outcome Config)

structure Caller where
  request : Request
  phase : Phase

/-- A coordinator with its callers. There is one kind of work, so the registry has one key. -/
structure State where
  live : Coordinator
  flights : Flights Unit (Outcome Config)
  callers : List Caller

/-- A coordinator with callers that have not moved yet. -/
def State.start (live : Coordinator) (requests : List Request) : State :=
  ⟨live, .empty, requests.map fun r => ⟨r, .started⟩⟩

/-- The pass of a leader: what is published next, or what the ticket is completed with. A caller that asks
for the current configuration does no pass if there is one by now. -/
def lead (s : State) (request : Request) (ticket : Nat) (fetched : Outcome Content) : Phase :=
  match request, s.live.current with
  | .current, some config => .completing ticket (.ok config)
  | _, _ =>
    match fetched with
    | .error f => .completing ticket (.error f)
    | .ok content =>
      match Config.resolve content (s.live.generation + 1) with
      | .error f => .completing ticket (.error f)
      | .ok config => .publishing ticket config

/-- The next phase of a caller, what it changes for all, or nothing if the caller cannot move. -/
def move (s : State) (caller : Caller) (fetched : Outcome Content) :
    Option (Phase × Coordinator × Flights Unit (Outcome Config)) :=
  match caller.phase with
  | .started =>
    match caller.request, s.live.current with
    | .current, some config => some (.returned (.ok config), s.live, s.flights)
    | _, _ => some (.entering, s.live, s.flights)
  | .entering =>
    match s.flights.enter () with
    | (.leader ticket, flights) => some (.leading ticket, s.live, flights)
    | (.follower ticket, flights) => some (.waiting ticket, s.live, flights)
  | .leading ticket => some (lead s caller.request ticket fetched, s.live, s.flights)
  | .publishing ticket config => some (.completing ticket (.ok config), ⟨some config⟩, s.flights)
  | .completing ticket outcome => some (.leaving outcome, s.live, s.flights.complete ticket outcome)
  | .leaving outcome => some (.returned outcome, s.live, s.flights.leave ())
  | .waiting ticket =>
    match s.flights.receive? ticket with
    | some outcome => some (.returned outcome, s.live, s.flights)
    | none => none
  | .returned _ => none

/-- One step of caller `i`. -/
def step (fetched : Outcome Content) (i : Nat) (s : State) : Option State :=
  match s.callers[i]? with
  | none => none
  | some caller =>
    (move s caller fetched).map fun (phase, live, flights) =>
      ⟨live, flights, s.callers.set i { caller with phase := phase }⟩

/-- Follows a schedule of callers; a caller that cannot move when its turn comes stays where it is. -/
def run (fetched : Outcome Content) (s : State) : List Nat → State
  | [] => s
  | i :: rest => run fetched ((step fetched i s).getD s) rest

/-- The schedule in which a first caller registers a pass, `followers` more join it, and then everyone
goes on to the end. -/
def joinedSchedule (followers : Nat) : List Nat :=
  let others := (List.range followers).map (· + 1)
  [0, 0] ++ others ++ others ++ [0, 0, 0, 0] ++ others

def answers (s : State) : List (Outcome Config) :=
  s.callers.filterMap fun c =>
    match c.phase with
    | .returned outcome => some outcome
    | _ => none

/-- Reloads with `followers` more callers joining the same pass. -/
def coalesce (live : Coordinator) (followers : Nat) (fetched : Outcome Content) : State :=
  run fetched (.start live (List.replicate (followers + 1) .reload)) (joinedSchedule followers)

end LayeredConfig.Concurrent
