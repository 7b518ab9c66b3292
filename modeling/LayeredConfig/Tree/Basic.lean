import LayeredConfig.Value.Basic
/-!
# Trees

A tree is a stored map: keys in ascending order, each with a value, inner maps being trees again. A
place in it is a list of keys. `find?` says what a tree holds exactly at a place; `lookup?` answers only
what is defined there; `setAt` writes, replacing whatever is no map on the way by a map.
-/
namespace LayeredConfig
namespace Tree

def get? : Tree → String → Option Value
  | [], _ => none
  | (k, v) :: rest, key => if k = key then some v else get? rest key

/-- A tree with a value under a key, the former value under it gone. -/
def insert : Tree → String → Value → Tree
  | [], key, v => [(key, v)]
  | (k, w) :: rest, key, v =>
    if key < k then (key, v) :: (k, w) :: rest
    else if k = key then (key, v) :: rest
    else (k, w) :: insert rest key v

def erase (t : Tree) (key : String) : Tree := t.filter fun e => decide (e.1 ≠ key)

/-- The map under a key, empty if there is none. -/
def subtree (t : Tree) (key : String) : Tree :=
  match t.get? key with
  | some (.map below) => below
  | _ => []

/-- What stands exactly at a place, a tombstone included; at the empty place stands the tree itself. -/
def find? (t : Tree) : List String → Option Value
  | [] => some (.map t)
  | [key] => t.get? key
  | key :: rest =>
    match t.get? key with
    | some (.map below) => find? below rest
    | _ => none

/-- The value defined at a place: neither absent nor a tombstone. -/
def lookup? (t : Tree) (place : List String) : Option Value :=
  match t.find? place with
  | some .unset => none
  | found => found

/-- A tree with a value written at a place. -/
def setAt (t : Tree) (place : List String) (v : Value) : Tree :=
  match place with
  | [] => t
  | [key] => t.insert key v
  | key :: rest => t.insert key (.map (setAt (t.subtree key) rest v))

/-- A tree from keyed values in any order, the last value of a key counting. -/
def ofPairs (pairs : List (String × Value)) : Tree := pairs.foldl (fun t p => t.insert p.1 p.2) []

end Tree

mutual

/-- The leaves of a value that stands at a place, the places in reverse. Lists are leaves; a map without
leaves contributes none. -/
def Value.leavesAt (behind : List String) : Value → List (List String × Value)
  | .map entries => leavesOfEntries behind entries
  | v => [(behind.reverse, v)]

def leavesOfEntries (behind : List String) : List (String × Value) → List (List String × Value)
  | [] => []
  | (k, v) :: rest => v.leavesAt (k :: behind) ++ leavesOfEntries behind rest

end

namespace Tree

def leaves (t : Tree) : List (List String × Value) := leavesOfEntries [] t

/-- Every leaf of a tree with its dotted path, level by level in the order of the keys. -/
def flatten (t : Tree) : List (String × Value) := t.leaves.map fun l => (joinDots l.1, l.2)

end Tree
end LayeredConfig
