import LayeredConfig.Profile.Basic
import LayeredConfig.Writes
/-!
# Derived profiles

A derived profile is a parent with a few overrides. It stores only the overrides and computes its tree
from the parent's tree of the moment: each overridden path is replaced, not merged, in the order in
which the overrides were written. The computed tree is kept together with the parent's generation and
used again as long as the parent is of that generation.
-/
namespace LayeredConfig

/-- The overrides of a derived profile, the oldest first. -/
abbrev Overrides := Writes

namespace Overrides

/-- Overrides with one more. What stood at its path or beneath is shadowed and dropped. -/
def shadow (os : Overrides) (path : Path) (v : Value) : Overrides :=
  os.filter (fun o => !path.covers o.1) ++ [(path, v)]

/-- The effective tree of a parent's tree under overrides. -/
def apply (os : Overrides) (t : Tree) : Tree := Tree.prune (os.into t)

def shown (os : Overrides) : String :=
  "[" ++ ", ".intercalate (os.paths.map Text.quoted) ++ "]"

end Overrides

/-- The own part of a derived profile: the name it shares with its parent, its overrides, and the tree
last computed with the generation of the parent that it was computed from. -/
structure Derived where
  name : String
  overrides : Overrides
  memo : Option (Int × Tree)

namespace Derived

def fresh (name : String) (overrides : Overrides) : Derived := ⟨name, overrides, none⟩

/-- The effective tree under a parent, and the derived profile that remembers it. -/
def treeUnder (d : Derived) (parent : Snapshot) : Tree × Derived :=
  match d.memo with
  | some (generation, tree) =>
    if generation = parent.generation then (tree, d)
    else
      let tree := d.overrides.apply parent.tree
      (tree, { d with memo := some (parent.generation, tree) })
  | none =>
    let tree := d.overrides.apply parent.tree
    (tree, { d with memo := some (parent.generation, tree) })

/-- The generation of the parent that the remembered tree was computed from. -/
def seen (d : Derived) : Option Int := d.memo.map (·.1)

def shown (d : Derived) : String :=
  "DerivedProfile(name=" ++ Text.quoted d.name ++ ", overrides=" ++ d.overrides.shown ++ ")"

end Derived
end LayeredConfig
