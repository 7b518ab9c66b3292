import LayeredConfig.Failure.Basic
import LayeredConfig.Ordered
import LayeredConfig.Ordered.Runs
/-!
# Orders on the keys of raw maps

Keys are put in order in two ways. By their plain text, any keys can be ordered. In their own order texts
come by code point and numbers by size, and keys of two sorts cannot be ordered: `orderedByKey` then fails
on the two keys that a sort by runs first compares in vain.
-/
namespace LayeredConfig

/-- A raw map in ascending order of the plain texts of its keys. -/
def RawMap.sortedByText (m : RawMap) : RawMap :=
  sortOrdered (fun p q => decide (p.1.plain < q.1.plain)) m

namespace Key

/-- Whether two keys can be compared in their own order. -/
def comparable : Key → Key → Bool
  | text _, text _ => true
  | a, b => a.number?.isSome && b.number?.isSome

/-- Whether a key comes before another in their own order. -/
def before : Key → Key → Bool
  | text s, text t => decide (s < t)
  | a, b => match a.number?, b.number? with
    | some m, some n => decide (m < n)
    | _, _ => false

/-- Whether a key comes before another in their own order, if they can be compared. -/
def before? (a b : Key) : Option Bool := if a.comparable b then some (a.before b) else none

end Key

variable {β : Type}

/-- Whether all neighbouring keys can be compared, and with them any two keys. -/
def comparableKeys : List (Key × β) → Bool
  | (k, _) :: (l, v) :: rest => k.comparable l && comparableKeys ((l, v) :: rest)
  | _ => true

/-- The two keys on which ordering entries fails, if it does. -/
def clash? (entries : List (Key × β)) : Option (Key × Key) :=
  if comparableKeys entries then none else Runs.firstClash? Key.before? (entries.map (·.1))

/-- Keyed entries in ascending order of their keys. -/
def orderedByKey (entries : List (Key × β)) : Outcome (List (Key × β)) :=
  match clash? entries with
  | some (left, right) => .error (.unordered left.typeName right.typeName)
  | none => .ok (sortOrdered (fun p q => p.1.before q.1) entries)

end LayeredConfig
