import LayeredConfig.Ordered
import LayeredConfig.Reference
import LayeredConfig.Tree.Basic
import LayeredConfig.Value.Freeze
/-!
# Writes

Values written at option paths. A path that is written again keeps its place and takes the new value, so
every path stands once. `Writes.tree` is the tree that they spell: the paths are written in ascending
order of their dotted forms, so a value at a path is extended by what is written beneath it.
-/
namespace LayeredConfig

/-- Stored values at paths, each path once, the first written first. -/
abbrev Writes := List (Path × Value)

namespace Writes

/-- The writes with one more; a path that was written before keeps its place. -/
def put : Writes → Path → Value → Writes
  | [], path, v => [(path, v)]
  | (p, w) :: rest, path, v => if p = path then (p, v) :: rest else (p, w) :: put rest path v

/-- Writes of stored values at spelled paths; the first path that is none is the failure. -/
def ofTexts (pairs : List (String × Value)) : Outcome Writes := do
  let writes ← pairs.mapM fun p => (Path.parse p.1).map fun path => (path, p.2)
  .ok (writes.foldl (fun ws w => put ws w.1 w.2) [])

/-- The dotted paths in ascending order. -/
def paths (ws : Writes) : List String := sortTexts (ws.map (·.1.text))

def ordered (ws : Writes) : Writes := sortOrdered (fun a b => decide (a.1.text < b.1.text)) ws

/-- The dotted paths with their values, in ascending order. -/
def entries (ws : Writes) : List (String × Value) := ws.ordered.map fun e => (e.1.text, e.2)

/-- A tree with the writes made in it, one after the other. -/
def into (ws : Writes) (t : Tree) : Tree := ws.foldl (fun t w => t.setAt w.1.segments w.2) t

/-- The tree that the writes spell. -/
def tree (ws : Writes) : Tree := ws.ordered.into []

end Writes
end LayeredConfig
