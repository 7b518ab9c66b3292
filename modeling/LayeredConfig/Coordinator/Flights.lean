/-!
# Shared work

Several callers that want the same work done at the same time share one doing of it. The first caller
for a key registers it and gets a ticket as its leader; callers that come while the key is registered
get the same ticket and wait. The leader completes the ticket with the outcome and removes the key, and
everyone who holds the ticket receives that outcome.
-/
namespace LayeredConfig

/-- The work in flight: the registered keys with their tickets, and what each ticket was completed with. -/
structure Flights (κ α : Type) where
  registered : List (κ × Nat)
  tickets : List (Option α)

/-- The part a caller has in some work. -/
inductive Role where
  | leader (ticket : Nat)
  | follower (ticket : Nat)

namespace Flights

variable {κ α : Type} [DecidableEq κ]

def empty : Flights κ α := ⟨[], []⟩

/-- Joins the work registered for a key, or registers it. -/
def enter (fs : Flights κ α) (key : κ) : Role × Flights κ α :=
  match fs.registered.find? (·.1 = key) with
  | some (_, ticket) => (.follower ticket, fs)
  | none =>
    let ticket := fs.tickets.length
    (.leader ticket, ⟨(key, ticket) :: fs.registered, fs.tickets ++ [none]⟩)

def complete (fs : Flights κ α) (ticket : Nat) (outcome : α) : Flights κ α :=
  { fs with tickets := fs.tickets.set ticket (some outcome) }

def leave (fs : Flights κ α) (key : κ) : Flights κ α :=
  { fs with registered := fs.registered.filter (·.1 ≠ key) }

/-- What a ticket was completed with. -/
def receive? (fs : Flights κ α) (ticket : Nat) : Option α := (fs.tickets[ticket]?).join

/-- One caller from beginning to end while nobody else moves: does the work as leader, or takes the
outcome of a ticket that is complete. The answer says whether the work was done. -/
def call (fs : Flights κ α) (key : κ) (work : α) : Option (Bool × α) × Flights κ α :=
  match fs.enter key with
  | (.leader ticket, fs) => (some (true, work), (fs.complete ticket work).leave key)
  | (.follower ticket, fs) => ((fs.receive? ticket).map fun a => (false, a), fs)

/-- Work for a key that is complete and still registered. -/
def finished (fs : Flights κ α) (key : κ) (outcome : α) : Flights κ α :=
  match fs.enter key with
  | (.leader ticket, fs) => fs.complete ticket outcome
  | (.follower _, fs) => fs

/-- Several callers one after the other. -/
def callAll (fs : Flights κ α) : List (κ × α) → List (Option (Bool × α)) × Flights κ α
  | [] => ([], fs)
  | (key, work) :: rest =>
    let (answer, fs) := fs.call key work
    let (answers, fs) := fs.callAll rest
    (answer :: answers, fs)

end Flights
end LayeredConfig
