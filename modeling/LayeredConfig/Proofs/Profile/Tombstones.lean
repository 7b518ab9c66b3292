import LayeredConfig.Proofs.Profile.Offered
/-!
# Tombstones that survive

Resolving drops every tombstone that stands at a place of its own. Lists are kept as they are, and no element of a
list is a tombstone, but a map in a list may hold some: these, and no others, are left
(`surviving_tombstones_stand_in_lists`).
-/
namespace LayeredConfig

mutual

/-- Whether a tombstone stands in a value, at any depth through maps and lists. -/
def Value.HasTombstone : Value → Prop
  | .unset => True
  | .scalar _ => False
  | .list items => Value.ItemsHaveTombstone items
  | .map entries => Tree.HasTombstone entries

def Value.ItemsHaveTombstone : List Value → Prop
  | [] => False
  | v :: rest => v.HasTombstone ∨ Value.ItemsHaveTombstone rest

def Tree.HasTombstone : Tree → Prop
  | [] => False
  | (_, v) :: rest => v.HasTombstone ∨ Tree.HasTombstone rest

end

/-! ## A tombstone in a leaf -/

theorem Value.hasTombstone_iff_of_isLeaf {v : Value} (h : v.isLeaf) (behind : List String) :
    v.HasTombstone ↔ ∃ l ∈ v.leavesAt behind, l.2.HasTombstone := by
  simp [Value.leavesAt_of_isLeaf h]

mutual

theorem Value.hasTombstone_iff_leavesAt : (behind : List String) → (v : Value) →
    (v.HasTombstone ↔ ∃ l ∈ v.leavesAt behind, l.2.HasTombstone)
  | behind, .map entries => by
    rw [Value.HasTombstone, Value.leavesAt]
    exact Tree.hasTombstone_iff_leavesOfEntries behind entries
  | behind, .unset => Value.hasTombstone_iff_of_isLeaf rfl behind
  | behind, .scalar _ => Value.hasTombstone_iff_of_isLeaf rfl behind
  | behind, .list _ => Value.hasTombstone_iff_of_isLeaf rfl behind

theorem Tree.hasTombstone_iff_leavesOfEntries : (behind : List String) → (t : List (String × Value)) →
    (Tree.HasTombstone t ↔ ∃ l ∈ leavesOfEntries behind t, l.2.HasTombstone)
  | behind, [] => by simp [Tree.HasTombstone, leavesOfEntries]
  | behind, (k, v) :: rest => by
    rw [Tree.HasTombstone, leavesOfEntries, Value.hasTombstone_iff_leavesAt (k :: behind) v,
      Tree.hasTombstone_iff_leavesOfEntries behind rest]
    simp only [List.mem_append, or_and_right, exists_or]

end

namespace Tree

theorem hasTombstone_iff {t : Tree} (h : t.Frozen) :
    t.HasTombstone ↔ ∃ place v, t.find? place = some v ∧ v.isLeaf ∧ v.HasTombstone := by
  rw [hasTombstone_iff_leavesOfEntries [] t]
  constructor
  · intro hl
    obtain ⟨⟨place, v⟩, hl, hv⟩ := hl
    obtain ⟨hfound, hleaf⟩ := (mem_leaves_iff h).mp hl
    exact ⟨place, v, hfound, hleaf, hv⟩
  · intro hv
    obtain ⟨place, v, hfound, hleaf, hv⟩ := hv
    exact ⟨(place, v), (mem_leaves_iff h).mpr ⟨hfound, hleaf⟩, hv⟩

theorem hasTombstone_iff_flatten {t : Tree} : t.HasTombstone ↔ ∃ e ∈ t.flatten, e.2.HasTombstone := by
  rw [hasTombstone_iff_leavesOfEntries [] t]
  constructor
  · intro hl
    obtain ⟨l, hl, hv⟩ := hl
    exact ⟨_, List.mem_map_of_mem hl, hv⟩
  · intro he
    obtain ⟨e, he, hv⟩ := he
    obtain ⟨l, hl, rfl⟩ := List.mem_map.mp he
    exact ⟨l, hl, hv⟩

end Tree

/-! ## A tombstone in a list -/

namespace Value

/-- Whether a value is a list in which a tombstone stands. -/
def ListsTombstone (v : Value) : Prop := ∃ items, v = .list items ∧ v.HasTombstone

theorem ListsTombstone.isLeaf {v : Value} (h : v.ListsTombstone) : v.isLeaf := by
  obtain ⟨items, rfl, _⟩ := h
  rfl

theorem ListsTombstone.ne_unset {v : Value} (h : v.ListsTombstone) : v ≠ .unset := by
  obtain ⟨items, rfl, _⟩ := h
  nofun

theorem listsTombstone_of_isLeaf {v : Value} (h : v.isLeaf) (hne : v ≠ .unset) (ht : v.HasTombstone) :
    v.ListsTombstone := by
  cases v with
  | unset => exact absurd rfl hne
  | scalar s => rw [HasTombstone] at ht; exact ht.elim
  | list items => exact ⟨items, rfl, ht⟩
  | map entries => cases h

end Value

namespace Tree

/-- The tombstones in a pruned tree are those that lists of the tree hold. -/
theorem hasTombstone_prune_iff {t : Tree} (h : t.Frozen) :
    (Tree.prune t).HasTombstone ↔ ∃ place v, t.find? place = some v ∧ v.ListsTombstone := by
  rw [hasTombstone_iff h.prune]
  constructor
  · intro hv
    obtain ⟨place, v, hfound, hleaf, hv⟩ := hv
    obtain ⟨hfound, hne⟩ := (find?_prune_iff h hleaf).mp hfound
    exact ⟨place, v, hfound, Value.listsTombstone_of_isLeaf hleaf hne hv⟩
  · intro hv
    obtain ⟨place, v, hfound, hlists⟩ := hv
    exact ⟨place, v, (find?_prune_iff h hlists.isLeaf).mpr ⟨hfound, hlists.ne_unset⟩, hlists.isLeaf,
      hlists.choose_spec.2⟩

end Tree

/-! ## What a pass leaves -/

/-- **The tombstones that survive a pass stand in lists.** Let a frozen tree be resolved. No tombstone stands at a place
    of the resolved tree, and one stands in it at any depth exactly when a list of the frozen tree holds one. Nor does
    a tombstone stand at a place of a profile, be it one of the configuration or derived of one by any calls: each
    entry's value that holds one is a list that stood in the frozen tree or in what a call wrote, and if no entry's
    value holds one, none is in the effective tree at all. So none survives anywhere when neither a list of the
    frozen tree nor one that a call wrote holds any. -/
theorem surviving_tombstones_stand_in_lists {t : Tree} (ht : t.Frozen) {generation : Int} {config : Config}
    (hr : Config.resolve (.tree t) generation = .ok config) :
    (∀ place, config.tree.find? place ≠ some .unset) ∧
      (config.tree.HasTombstone ↔ ∃ place v, t.find? place = some v ∧ v.ListsTombstone) ∧
      ∀ calls p, config.Offers calls p →
        (∀ place, p.tree.find? place ≠ some .unset) ∧
          (p.tree.HasTombstone ↔ ∃ e ∈ p.entries, e.2.HasTombstone) ∧
          (∀ e ∈ p.entries, e.2.HasTombstone → e.2.ListsTombstone ∧ Config.Stems t calls e.2) ∧
          ((∀ v, Config.Stems t calls v → ¬ v.ListsTombstone) →
            ¬ config.tree.HasTombstone ∧ ¬ p.tree.HasTombstone ∧ ∀ e ∈ p.entries, ¬ e.2.HasTombstone) := by
  obtain ⟨named, hnamed, rfl⟩ := Config.resolve_tree_eq_ok_iff.mp hr
  have hresolved := Tree.hasTombstone_prune_iff ht
  refine ⟨Tree.find?_prune_ne_unset ht, hresolved, ?_⟩
  intro calls p hp
  obtain ⟨u, hu, htree, hstems⟩ := hp.exists_unpruned ht hr
  have hentry : ∀ e ∈ p.entries, e.2.HasTombstone → e.2.ListsTombstone ∧ Config.Stems t calls e.2 := by
    intro e he hv
    rw [Profile.entries, htree] at he
    obtain ⟨hfound, hleaf⟩ := (Tree.mem_flatten_iff hu.prune).mp he
    obtain ⟨hfound, hne⟩ := (Tree.find?_prune_iff hu hleaf).mp hfound
    exact ⟨Value.listsTombstone_of_isLeaf hleaf hne hv, hstems _ _ hfound hleaf hne⟩
  refine ⟨htree ▸ Tree.find?_prune_ne_unset hu, Tree.hasTombstone_iff_flatten, hentry, ?_⟩
  intro hnone
  have hentries : ∀ e ∈ p.entries, ¬ e.2.HasTombstone := by
    intro e he hv
    obtain ⟨hlists, hstem⟩ := hentry e he hv
    exact hnone e.2 hstem hlists
  refine ⟨?_, ?_, hentries⟩
  · intro hv
    obtain ⟨place, v, hfound, hlists⟩ := hresolved.mp hv
    exact hnone v (.inl ⟨place, hfound⟩) hlists
  · intro hv
    obtain ⟨e, he, hv⟩ := Tree.hasTombstone_iff_flatten.mp hv
    exact hentries e he hv

/-- Of a list and a tombstone beside it only the list is left, and no tombstone with it. -/
theorem tombstone_beside_a_list_is_dropped :
    ∃ (config : Config) (p : Profile),
      Tree.Frozen [("a", .list [.map [("b", .scalar (.int 1))]]), ("c", .unset)] ∧
      Config.resolve (.tree [("a", .list [.map [("b", .scalar (.int 1))]]), ("c", .unset)]) 1 = .ok config ∧
      config.Offers [] p ∧ p.entries = [("a", .list [.map [("b", .scalar (.int 1))]])] ∧
      ¬ config.tree.HasTombstone ∧ ¬ p.tree.HasTombstone := by
  let t : Tree := [("a", .list [.map [("b", .scalar (.int 1))]]), ("c", .unset)]
  let pruned : Tree := [("a", .list [.map [("b", .scalar (.int 1))]])]
  let config : Config := ⟨1, pruned, [(defaultProfile, pruned)]⟩
  let snapshot : Snapshot := ⟨⟨defaultProfile, pruned⟩, 1⟩
  have ht : t.Frozen := by decide
  have hr : Config.resolve (.tree t) 1 = .ok config := rfl
  have hprofile : config.profile defaultProfile = .ok snapshot := rfl
  have hoffered : config.Offers [] snapshot.toProfile := .own hprofile
  -- the only list of the tree holds no tombstone
  have hnone : ∀ v, Config.Stems t [] v → ¬ v.ListsTombstone := by
    intro v hstems hlists
    rcases hstems with ⟨place, hfound⟩ | ⟨call, hcall, _⟩
    · have hmem : (place, v) ∈ t.leaves := (Tree.mem_leaves_iff ht).mpr ⟨hfound, hlists.isLeaf⟩
      rw [show t.leaves = [(["a"], .list [.map [("b", .scalar (.int 1))]]), (["c"], .unset)] from rfl] at hmem
      rcases List.mem_cons.mp hmem with heq | hmem
      · obtain ⟨items, rfl, hitems⟩ := hlists
        cases heq
        simp [Value.HasTombstone, Value.ItemsHaveTombstone, Tree.HasTombstone] at hitems
      · exact hlists.ne_unset (Prod.mk.inj (List.mem_singleton.mp hmem)).2
    · cases hcall
  obtain ⟨htree, hptree, _⟩ := ((surviving_tombstones_stand_in_lists ht hr).2.2 [] _ hoffered).2.2.2 hnone
  exact ⟨config, snapshot.toProfile, ht, hr, hoffered, rfl, htree, hptree⟩

/-- A tombstone in a map in a list survives, in the resolved tree and in an entry of the default profile. -/
theorem tombstone_in_a_list_survives :
    ∃ (config : Config) (p : Profile),
      Tree.Frozen [("a", .list [.map [("b", .unset)]])] ∧
      Config.resolve (.tree [("a", .list [.map [("b", .unset)]])]) 1 = .ok config ∧ config.Offers [] p ∧
      config.tree.HasTombstone ∧ p.tree.HasTombstone ∧
      ("a", .list [.map [("b", .unset)]]) ∈ p.entries ∧ Value.HasTombstone (.list [.map [("b", .unset)]]) := by
  let t : Tree := [("a", .list [.map [("b", .unset)]])]
  let snapshot : Snapshot := ⟨⟨defaultProfile, t⟩, 1⟩
  have hprofile : Config.profile ⟨1, t, [(defaultProfile, t)]⟩ defaultProfile = .ok snapshot := rfl
  have hlist : Value.HasTombstone (.list [.map [("b", .unset)]]) := by
    simp [Value.HasTombstone, Value.ItemsHaveTombstone, Tree.HasTombstone]
  have htree : t.HasTombstone := .inl hlist
  exact ⟨_, _, by decide, rfl, .own hprofile, htree, htree, List.mem_cons_self, hlist⟩

end LayeredConfig
