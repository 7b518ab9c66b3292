import LayeredConfig.Reference
import LayeredConfig.Tree.Basic
import LayeredConfig.Value.Freeze
/-!
# Flat entries

A raw map whose keys are dotted paths is a tree written flat. `expand` freezes each value and writes it
at its path, in ascending order of the paths, so that the result does not depend on the order of the
entries and a map written at a path is extended by what is written beneath it.
-/
namespace LayeredConfig

/-- Freezes and writes entries one after the other. -/
def expandFrom (out : Tree) : List (Key × Raw) → Outcome Tree
  | [] => .ok out
  | (k, v) :: rest =>
    match freeze k v with
    | .error f => .error f
    | .ok frozen =>
      match k.toRaw.spelledPath with
      | .error f => .error f
      | .ok path => expandFrom (out.setAt path.segments frozen) rest

/-- The tree that flat entries spell. -/
def expand (entries : RawMap) : Outcome Tree := do
  let ordered ← orderedByKey entries
  expandFrom [] ordered

/-- The tree that a source's data spell; `what` names the source. -/
def treeOfData (what : String) : Raw → Outcome Tree
  | .map entries => expand entries
  | other => .error (.sourceNotMap what other.typeName)

end LayeredConfig
