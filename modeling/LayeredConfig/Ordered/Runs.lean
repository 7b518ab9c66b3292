/-!
# Sorting by runs

A sort that takes a list apart into ascending runs, fills up short runs by insertion, and merges runs in an
order that depends on their lengths alone. Where all elements can be compared, nothing but the sorted list
comes of it; where some cannot, the sort stops on the first two that it compares in vain, and
`firstClash?` answers which two these are. Runs are made of elements that can all be compared with each
other, so of a run that waits to be merged the least element says enough.
-/
namespace LayeredConfig.Runs

variable {α : Type}

/-- A comparison that need not have an answer: whether the first element comes before the second. -/
abbrev Comparison (α : Type) := α → α → Option Bool

/-- A result of comparing, or the two elements that could not be compared. -/
abbrev Compared (α β : Type) := Except (α × α) β

def ask (before : Comparison α) (x y : α) : Compared α Bool :=
  match before x y with
  | some answer => .ok answer
  | none => .error (x, y)

/-! ## One run -/

/-- The elements that continue a run behind its last element, and what is left behind the run. In a falling
run each element comes before the one in front of it, in any other run none does. -/
def continueRun (before : Comparison α) (falling : Bool) (last : α) :
    List α → Compared α (List α × List α)
  | [] => .ok ([], [])
  | x :: rest => do
    let falls ← ask before x last
    if falls = falling then
      let (more, behind) ← continueRun before falling x rest
      .ok (x :: more, behind)
    else .ok ([], x :: rest)

/-- The run at the beginning of a list, in ascending order, and what is left behind it. -/
def takeRun (before : Comparison α) : List α → Compared α (List α × List α)
  | x :: y :: rest => do
    let falling ← ask before y x
    let (more, behind) ← continueRun before falling y rest
    let run := x :: y :: more
    .ok (if falling then run.reverse else run, behind)
  | short => .ok (short, [])

/-- Where an element belongs between two places of a run, found by halving: behind everything that it does
not come before. -/
def placeIn (before : Comparison α) (x : α) (run : List α) (low high : Nat) : Compared α Nat :=
  if low < high then
    let middle := low + (high - low) / 2
    match run[middle]? with
    | none => .ok low
    | some y =>
      match ask before x y with
      | .error clash => .error clash
      | .ok true => placeIn before x run low middle
      | .ok false => placeIn before x run (middle + 1) high
  else .ok low
termination_by high - low

def insertAll (before : Comparison α) (run : List α) : List α → Compared α (List α)
  | [] => .ok run
  | x :: rest => do
    let i ← placeIn before x run 0 run.length
    insertAll before (run.insertIdx i x) rest

/-- The length that runs of a list of `n` elements are filled up to: the first six binary digits of `n`, one
more if any digit behind them is set, which `more` says of the digits cut off so far. -/
def leastLength (more n : Nat) : Nat :=
  if n < 64 then n + more else leastLength (if n % 2 = 1 then 1 else more) (n / 2)
termination_by n

/-! ## Merging runs -/

/-- A run that waits to be merged: where it starts, its length, its least element, and how deep its
boundary with the next run lies. -/
structure Waiting (α : Type) where
  start : Nat
  length : Nat
  least : α
  depth : Nat

/-- How deep the boundary of two runs lies in a list of `total` elements: after how many halvings of the
list the middles of the runs fall into different halves. The middles are given doubled. -/
def depthOf (total : Nat) : (fuel a b : Nat) → Nat
  | 0, _, _ => 0
  | fuel + 1, a, b =>
    if total ≤ a then depthOf total fuel (2 * (a - total)) (2 * (b - total)) + 1
    else if total ≤ b then 1
    else depthOf total fuel (2 * a) (2 * b) + 1

/-- Merges two neighbouring runs. -/
def merge (before : Comparison α) (lower upper : Waiting α) : Compared α (Waiting α) := do
  let upperFirst ← ask before upper.least lower.least
  .ok { lower with
    length := lower.length + upper.length
    least := if upperFirst then upper.least else lower.least }

/-- Merges waiting runs, the last one first, as long as their boundary lies deeper than a new boundary behind
them. -/
def settle (before : Comparison α) (depth : Nat) : List (Waiting α) → Compared α (List (Waiting α))
  | upper :: lower :: rest =>
    if depth < lower.depth then
      match merge before lower upper with
      | .error clash => .error clash
      | .ok run => settle before depth (run :: rest)
    else .ok ({ upper with depth := depth } :: lower :: rest)
  | [run] => .ok [{ run with depth := depth }]
  | [] => .ok []
termination_by runs => runs.length

/-- Merges all waiting runs, the last one first, short runs before long ones. -/
def collapse (before : Comparison α) : List (Waiting α) → Compared α Unit
  | upper :: middle :: lower :: rest =>
    if lower.length < upper.length then
      match merge before lower middle with
      | .error clash => .error clash
      | .ok run => collapse before (upper :: run :: rest)
    else
      match merge before middle upper with
      | .error clash => .error clash
      | .ok run => collapse before (run :: lower :: rest)
  | [upper, lower] => (merge before lower upper).map fun _ => ()
  | _ => .ok ()
termination_by runs => runs.length

/-- Makes room for a run of the given length behind the waiting ones. -/
def announce (before : Comparison α) (total length : Nat) (waiting : List (Waiting α)) :
    Compared α (List (Waiting α)) :=
  match waiting with
  | [] => .ok []
  | last :: _ =>
    let a := 2 * last.start + last.length
    settle before (depthOf total total a (a + last.length + length)) waiting

/-! ## The sort -/

/-- Sorts the elements from place `start` on, behind the waiting runs; of the fuel each run uses one. -/
def sortFrom (before : Comparison α) (total : Nat) : (fuel start : Nat) → List (Waiting α) → List α →
    Compared α Unit
  | 0, _, waiting, _ => collapse before waiting
  | fuel + 1, start, waiting, elements => do
    let (run, behind) ← takeRun before elements
    let missing := leastLength 0 total - run.length
    match ← insertAll before run (behind.take missing) with
    | [] => collapse before waiting
    | least :: others =>
      let length := others.length + 1
      let waiting ← announce before total length waiting
      sortFrom before total fuel (start + length) (⟨start, length, least, 0⟩ :: waiting)
        (behind.drop missing)

/-- The first two elements that sorting compares in vain, in the order in which they are compared. -/
def firstClash? (before : Comparison α) (elements : List α) : Option (α × α) :=
  match sortFrom before elements.length elements.length 0 [] elements with
  | .error clash => some clash
  | .ok _ => none

end LayeredConfig.Runs
