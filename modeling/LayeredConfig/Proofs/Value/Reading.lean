import LayeredConfig.Proofs.Tree.Leaves
import LayeredConfig.Proofs.Value.Freeze
import LayeredConfig.Value.Reading
/-!
# What typed writes store

A value that was checked against a kind is stored in frozen form (`normalize_frozen`). A map of strings is stored
under the dotted paths of its leaves, and no two leaves of a frozen map have the same one.
-/
namespace LayeredConfig

theorem Value.keys_of_readLeaves {path : String} {leaves : List (String × Value)} {out : List (Key × Scalar)}
    (h : Value.readLeaves path leaves = .ok out) : out.map (·.1) = leaves.map fun l => Key.text l.1 := by
  induction leaves generalizing out with
  | nil =>
    rw [Value.readLeaves] at h
    cases h
    rfl
  | cons l rest ih =>
    obtain ⟨k, v⟩ := l
    rw [Value.readLeaves] at h
    split at h
    · cases h
    · obtain ⟨u, hu, rfl⟩ := Outcome.map_eq_ok_iff.mp h
      rw [List.map_cons, List.map_cons, ih hu]

theorem Raw.distinctItems_scalars (items : List Scalar) : Raw.DistinctItems (items.map .scalar) := by
  induction items with
  | nil => rw [List.map_nil, Raw.DistinctItems]; trivial
  | cons s rest ih =>
    rw [List.map_cons, Raw.DistinctItems]
    exact ⟨Raw.distinct_scalar s, ih⟩

theorem Value.Frozen.distinct_reading {v : Value} (hv : v.Frozen) {kind : Kind} {path : String} {r : Reading}
    (h : v.read kind path = .ok r) : r.toRaw.Distinct := by
  rw [Value.read.eq_def] at h
  split at h
  · rename_i t
    obtain ⟨entries, hentries, rfl⟩ := Outcome.map_eq_ok_iff.mp h
    have hkeys := Value.keys_of_readLeaves hentries
    rw [Reading.toRaw, RawMap.distinct_map, RawMap.distinct_iff]
    constructor
    · rw [List.pairwise_map]
      have hnodup : (entries.map (·.1)).Pairwise fun a b => ¬ a.same b := by
        rw [hkeys, List.pairwise_map]
        refine (List.pairwise_map.mp (Tree.flatten_nodup (Tree.frozen_map.mp hv))).imp ?_
        intro a b hne hsame
        exact hne (of_decide_eq_true hsame)
      exact List.pairwise_map.mp hnodup
    · intro e he
      obtain ⟨d, _, rfl⟩ := List.mem_map.mp he
      exact Raw.distinct_scalar d.2
  · obtain ⟨items, _, rfl⟩ := Outcome.map_eq_ok_iff.mp h
    rw [Reading.toRaw, Raw.Distinct]
    exact Raw.distinctItems_scalars items
  · split at h
    · cases h
    · cases h
    · obtain ⟨s, _, rfl⟩ := Outcome.map_eq_ok_iff.mp h
      exact Raw.distinct_scalar s
  · cases h

theorem normalize_frozen {kind : Kind} {path : String} {v : Raw} {w : Value} (hd : v.Distinct)
    (h : normalize kind path v = .ok w) : w.Frozen := by
  rw [normalize] at h
  obtain ⟨frozen, hf, h⟩ := Outcome.bind_eq_ok_iff.mp h
  have hfrozen := freeze_frozen v hd hf
  split at h
  · cases h
  · split at h
    · rename_i r hr
      exact freeze_frozen _ (hfrozen.distinct_reading hr) h
    · cases h
    · cases h

end LayeredConfig
