import LayeredConfig.Tree.Layers
import LayeredConfig.Value.Freeze
/-!
# Unfrozen content

A source written by the user hands out raw maps that nobody has frozen. They are overlaid, pruned and
written to like trees, except that they keep the order of their entries and that absent values are not
tombstones yet. `Content` is what any source hands out, a tree or such a raw map; layers of content
become one tree when the overlay is frozen.
-/
namespace LayeredConfig

mutual

def Raw.over : (v : Raw) → (below : Option Raw) → Raw
  | .map entries, some (.map lower) => .map (RawMap.merge lower entries)
  | v, _ => v
termination_by structural v => v

def RawMap.merge (lower : RawMap) : (higher : List (Key × Raw)) → RawMap
  | [] => lower
  | (k, v) :: rest => RawMap.merge (lower.insert k (v.over (lower.get? k))) rest
termination_by structural higher => higher

end

mutual

/-- A raw value without tombstones; absent values stay. -/
def Raw.prune? : Raw → Option Raw
  | .unset => none
  | .map entries => some (.map (RawMap.prune entries))
  | v => some v

def RawMap.prune : List (Key × Raw) → RawMap
  | [] => []
  | (k, v) :: rest =>
    match v.prune? with
    | none => RawMap.prune rest
    | some w => (k, w) :: RawMap.prune rest

end

def Raw.defined? : Raw → Option Raw
  | .null => none
  | .unset => none
  | v => some v

namespace RawMap

def submap (m : RawMap) (key : String) : RawMap :=
  match m.get? key with
  | some (.map below) => below
  | _ => []

/-- The value defined at a place of a raw map; at the empty place stands the map itself. -/
def lookup? (m : RawMap) : List String → Option Raw
  | [] => some (.map m)
  | [key] => (m.get? key).bind Raw.defined?
  | key :: rest =>
    match m.get? key with
    | some (.map below) => lookup? below rest
    | _ => none

/-- A raw map with a value written at a place; whatever is no map on the way gives way to a map. -/
def setAt (m : RawMap) (place : List String) (v : Raw) : RawMap :=
  match place with
  | [] => m
  | [key] => m.insert key v
  | key :: rest => m.insert key (.map (setAt (m.submap key) rest v))

end RawMap

/-- What a source hands out. -/
inductive Content where
  | tree (t : Tree)
  | loose (m : RawMap)

namespace Content

def toRawMap : Content → RawMap
  | tree t => Value.thawEntries t
  | loose m => m

def toRaw (c : Content) : Raw := .map c.toRawMap

/-- The overlay of content on other content. Two trees make a tree; anything else is left unfrozen. -/
def merge : (lower higher : Content) → Content
  | tree l, tree h => tree (Tree.merge l h)
  | l, h => loose (RawMap.merge l.toRawMap h.toRawMap)

def frozen : Content → Outcome Tree
  | tree t => .ok t
  | loose m => freezeTree "tree" (.map m)

def pruned : Content → Outcome Tree
  | tree t => .ok (Tree.prune t)
  | loose m => freezeTree "tree" (.map (RawMap.prune m))

def erase (c : Content) (key : String) : Content :=
  match c with
  | tree t => tree (t.erase key)
  | loose m => loose (m.erase key)

end Content
end LayeredConfig
