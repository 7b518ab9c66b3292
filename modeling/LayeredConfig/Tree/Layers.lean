import LayeredConfig.Tree.Basic
/-!
# Layers

Trees are overlaid in order of priority. The higher tree wins at every place where it has something
other than a map facing a map; maps are merged. A tombstone of the higher tree therefore hides what the
lower one holds at and beneath its place, and `prune` takes the tombstones out once no more layers follow.
-/
namespace LayeredConfig

mutual

/-- A value laid over what was at its place before. -/
def Value.over : (v : Value) → (below : Option Value) → Value
  | .map entries, some (.map lower) => .map (Tree.merge lower entries)
  | v, _ => v
termination_by structural v => v

/-- The overlay of a higher tree on a lower one. -/
def Tree.merge (lower : Tree) : (higher : List (String × Value)) → Tree
  | [] => lower
  | (k, v) :: rest => Tree.merge (lower.insert k (v.over (lower.get? k))) rest
termination_by structural higher => higher

end

/-- The overlay of any number of trees, the lowest priority first. -/
def Tree.mergeAll (layers : List Tree) : Tree := layers.foldl Tree.merge []

mutual

/-- A value without the tombstones in it; a tombstone itself is dropped. Lists are kept as they are. -/
def Value.prune? : Value → Option Value
  | .unset => none
  | .map entries => some (.map (Tree.prune entries))
  | v => some v

/-- A tree without tombstones. -/
def Tree.prune : List (String × Value) → Tree
  | [] => []
  | (k, v) :: rest =>
    match v.prune? with
    | none => Tree.prune rest
    | some w => (k, w) :: Tree.prune rest

end

end LayeredConfig
