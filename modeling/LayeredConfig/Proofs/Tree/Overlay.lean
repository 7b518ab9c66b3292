import LayeredConfig.Proofs.Tree.Place
import LayeredConfig.Proofs.Value.Freeze
import LayeredConfig.Tree.Layers
import Mathlib.Data.List.Induction
/-!
# What an overlay holds

The overlay of two trees holds a leaf at a place when the higher tree does, or when the higher tree does not decide
the place and the lower one holds the leaf there (`find?_merge_iff`). From this follows what any number of layers
hold (`find?_mergeAll_iff`), and what is left when the tombstones are taken out (`find?_prune_iff`).
Overlaying and pruning keep trees frozen.
-/
namespace LayeredConfig

/-! ## Overlaying one tree on another -/

theorem Value.over_of_isLeaf {v : Value} (h : v.isLeaf) (below : Option Value) : v.over below = v := by
  cases v with
  | map t => simp at h
  | _ => simp [Value.over]

theorem Value.over_map (t lower : Tree) : (Value.map t).over (some (.map lower)) = .map (Tree.merge lower t) := by
  rw [Value.over]

theorem Value.over_of_not_map (v : Value) {below : Option Value} (h : ∀ t, below ≠ some (.map t)) :
    v.over below = v := by
  cases v with
  | map t =>
    cases below with
    | none => simp [Value.over]
    | some w =>
      cases w with
      | map lower => exact absurd rfl (h lower)
      | _ => simp [Value.over]
  | _ => simp [Value.over]

mutual

theorem Value.Frozen.over : {v : Value} → v.Frozen → {below : Option Value} → (∀ w, below = some w → w.Frozen) →
    (v.over below).Frozen
  | .map entries, h, below, hb => by
    by_cases hm : ∃ lower, below = some (.map lower)
    · obtain ⟨lower, hlower⟩ := hm
      rw [hlower, Value.over_map]
      exact Tree.frozen_map.mpr
        (Tree.Frozen.merge (Tree.frozen_map.mp h) (Tree.frozen_map.mp (hb _ hlower)))
    · rw [Value.over_of_not_map _ fun lower hlower => hm ⟨lower, hlower⟩]
      exact h
  | .unset, h, _, _ => by rw [Value.over_of_isLeaf rfl]; exact h
  | .scalar _, h, _, _ => by rw [Value.over_of_isLeaf rfl]; exact h
  | .list _, h, _, _ => by rw [Value.over_of_isLeaf rfl]; exact h

theorem Tree.Frozen.merge : {higher : List (String × Value)} → Tree.Frozen higher → {lower : Tree} →
    Tree.Frozen lower → Tree.Frozen (Tree.merge lower higher)
  | [], _, _, hl => by rw [Tree.merge]; exact hl
  | (k, v) :: rest, h, lower, hl => by
    have ⟨hk, _, hv, hrest⟩ := Tree.frozen_cons.mp h
    rw [Tree.merge]
    exact Tree.Frozen.merge hrest (hl.insert hk (Value.Frozen.over hv fun w hw => hl.of_get? hw))

end

namespace Tree

theorem get?_merge_of_none {higher : Tree} {key : String} (h : higher.get? key = none) (lower : Tree) :
    (merge lower higher).get? key = lower.get? key := by
  induction higher generalizing lower with
  | nil => rw [merge]
  | cons e rest ih =>
    obtain ⟨k, v⟩ := e
    rw [get?] at h
    split at h
    · cases h
    · rename_i hk
      rw [merge, ih h, get?_insert, if_neg hk]

theorem get?_merge_of_some {higher : Tree} (hh : higher.Frozen) {key : String} {v : Value}
    (h : higher.get? key = some v) (lower : Tree) :
    (merge lower higher).get? key = some (v.over (lower.get? key)) := by
  induction higher generalizing lower with
  | nil => simp [get?] at h
  | cons e rest ih =>
    obtain ⟨k, w⟩ := e
    have hrest := (frozen_cons.mp hh).2.2.2
    rw [merge]
    rw [get?] at h
    split at h
    · rename_i hk
      cases h
      subst hk
      -- no later entry has the key, so what was put there stays
      rw [get?_merge_of_none (get?_tail_of_frozen hh), get?_insert, if_pos rfl]
    · rename_i hk
      rw [ih hrest h, get?_insert, if_neg hk]

theorem get?_merge_congr {lower other higher : Tree} (hh : higher.Frozen) {key : String}
    (h : lower.get? key = other.get? key) : (merge lower higher).get? key = (merge other higher).get? key := by
  cases hg : higher.get? key with
  | none => rw [get?_merge_of_none hg, get?_merge_of_none hg, h]
  | some v => rw [get?_merge_of_some hh hg, get?_merge_of_some hh hg, h]

theorem merge_append {lower higher : Tree} (hh : higher.Frozen) (hlt : ∀ a ∈ lower, ∀ b ∈ higher, a.1 < b.1) :
    merge lower higher = lower ++ higher := by
  induction higher generalizing lower with
  | nil => rw [merge, List.append_nil]
  | cons e rest ih =>
    obtain ⟨k, v⟩ := e
    obtain ⟨_, hk, _, hrest⟩ := frozen_cons.mp hh
    have hbefore : ∀ a ∈ lower, a.1 < k := fun a ha => hlt a ha (k, v) List.mem_cons_self
    have hnone : lower.get? k = none := get?_eq_none_iff.mpr fun a ha => ne_of_lt (hbefore a ha)
    have hover : v.over none = v := Value.over_of_not_map v fun t ht => by cases ht
    rw [merge, hnone, hover, insert_of_lt hbefore, ih hrest, List.append_assoc, List.singleton_append]
    intro a ha b hb
    rcases List.mem_append.mp ha with ha | ha
    · exact hlt a ha b (List.mem_cons_of_mem _ hb)
    · rw [List.mem_singleton.mp ha]
      exact hk b hb

theorem merge_nil {t : Tree} (h : t.Frozen) : merge [] t = t := merge_append h (by simp)

/-- An overlay holds a leaf where the higher tree holds it, and where the higher tree does not decide and the lower
one holds it. -/
theorem find?_merge_iff {lower higher : Tree} (hh : higher.Frozen) {place : List String} {v : Value}
    (hv : v.isLeaf) :
    (merge lower higher).find? place = some v ↔
      higher.find? place = some v ∨ ¬ higher.Decides place ∧ lower.find? place = some v := by
  induction place generalizing lower higher with
  | nil => simp [Value.map_ne_of_isLeaf hv]
  | cons key rest ih =>
    cases hg : higher.get? key with
    | none =>
      have hnot : ¬ higher.Decides (key :: rest) := by
        rw [decides_cons, hg]
        simp
      simp [find?_cons, get?_merge_of_none hg, hg, hnot]
    | some w =>
      rw [find?_cons, get?_merge_of_some hh hg, Option.bind_some, find?_cons higher, hg, Option.bind_some]
      by_cases hw : w.isLeaf
      · have hdec : higher.Decides (key :: rest) := by
          refine decides_cons.mpr ⟨w, hg, ?_⟩
          intro below hbelow
          rw [hbelow] at hw
          simp at hw
        simp [Value.over_of_isLeaf hw, hdec]
      · obtain ⟨t, rfl⟩ := Value.eq_map_of_not_isLeaf hw
        have ht : t.Frozen := frozen_map.mp (hh.of_get? hg)
        have hdec : higher.Decides (key :: rest) ↔ t.Decides rest := by
          rw [decides_cons, hg]
          simp
        rw [hdec]
        by_cases hm : ∃ below, lower.get? key = some (.map below)
        · obtain ⟨below, hbelow⟩ := hm
          rw [hbelow, Value.over_map, Value.find?_map, Value.find?_map, ih ht, find?_cons, hbelow]
          simp
        · rw [Value.over_of_not_map _ fun below hbelow => hm ⟨below, hbelow⟩, Value.find?_map]
          -- the lower tree has no map under the key, so a leaf of it can only stand right there
          constructor
          · intro hf
            exact .inl hf
          · intro hf
            rcases hf with hf | ⟨hnot, hf⟩
            · exact hf
            · cases rest with
              | nil => exact absurd (decides_nil t) hnot
              | cons next rest =>
                rw [find?_cons] at hf
                obtain ⟨u, hu, huf⟩ := Option.bind_eq_some_iff.mp hf
                have hul : u.isLeaf := by
                  cases u with
                  | map below => exact absurd ⟨below, hu⟩ hm
                  | _ => rfl
                rw [Value.find?_of_isLeaf hul (List.cons_ne_nil next rest)] at huf
                cases huf

/-! ## Overlaying any number of trees -/

theorem Frozen.mergeAll {layers : List Tree} (h : ∀ t ∈ layers, t.Frozen) : (Tree.mergeAll layers).Frozen := by
  induction layers using List.reverseRecOn with
  | nil => exact frozen_nil
  | append_singleton layers t ih =>
    rw [Tree.mergeAll, List.foldl_append]
    exact (h t (by simp)).merge (ih fun u hu => h u (by simp [hu]))

theorem mergeAll_append_singleton (layers : List Tree) (t : Tree) :
    mergeAll (layers ++ [t]) = merge (mergeAll layers) t := by
  rw [mergeAll, List.foldl_append]
  rfl

/-- Any number of layers hold a leaf at a place when the highest layer that decides the place holds it there. -/
theorem find?_mergeAll_iff {layers : List Tree} (h : ∀ t ∈ layers, t.Frozen) {place : List String} {v : Value}
    (hv : v.isLeaf) :
    (mergeAll layers).find? place = some v ↔
      ∃ lower t higher, layers = lower ++ t :: higher ∧ t.Decides place ∧ t.find? place = some v ∧
        ∀ u ∈ higher, ¬ u.Decides place := by
  induction layers using List.reverseRecOn with
  | nil =>
    have hempty : (mergeAll []).find? place ≠ some v := by
      intro hf
      cases place with
      | nil => exact find?_nil_ne hv _ hf
      | cons key rest => simp [mergeAll, find?_cons, get?] at hf
    simp [hempty]
  | append_singleton layers top ih =>
    have htop : top.Frozen := h top (by simp)
    have hlayers : ∀ t ∈ layers, t.Frozen := fun t ht => h t (by simp [ht])
    rw [mergeAll_append_singleton, find?_merge_iff htop hv, ih hlayers]
    constructor
    · intro hf
      rcases hf with hf | ⟨hnot, lower, t, higher, hsplit, hdec, hf, habove⟩
      · exact ⟨layers, top, [], rfl, decides_of_find? hf, hf, by simp⟩
      · refine ⟨lower, t, higher ++ [top], by simp [hsplit], hdec, hf, ?_⟩
        intro u hu
        rcases List.mem_append.mp hu with hu | hu
        · exact habove u hu
        · exact List.mem_singleton.mp hu ▸ hnot
    · intro hf
      obtain ⟨lower, t, higher, hsplit, hdec, hf, habove⟩ := hf
      cases higher using List.reverseRecOn with
      | nil =>
        obtain ⟨_, htt⟩ := List.append_inj' hsplit rfl
        exact .inl (List.singleton_inj.mp htt ▸ hf)
      | append_singleton higher last =>
        rw [← List.cons_append, ← List.append_assoc] at hsplit
        obtain ⟨hlow, hlast⟩ := List.append_inj' hsplit rfl
        rw [← List.singleton_inj.mp hlast] at habove
        refine .inr ⟨habove top (by simp), lower, t, higher, hlow, hdec, hf, ?_⟩
        exact fun u hu => habove u (by simp [hu])

/-- **The highest layer that decides a place has the last word.** The overlay of frozen layers is frozen already, so
    that freezing it once more changes nothing, and it holds a leaf at a place exactly when some layer decides the
    place, holds the leaf there, and no layer above it decides the place. -/
theorem highest_deciding_layer_wins {layers : List Tree} (h : ∀ t ∈ layers, t.Frozen) (place : List String)
    {v : Value} (hv : v.isLeaf) :
    freezeTree "tree" (.map (Value.thawEntries (mergeAll layers))) = .ok (mergeAll layers) ∧
      ((mergeAll layers).find? place = some v ↔
        ∃ lower t higher, layers = lower ++ t :: higher ∧ t.Decides place ∧ t.find? place = some v ∧
          ∀ u ∈ higher, ¬ u.Decides place) :=
  ⟨freezeTree_thaw "tree" (Frozen.mergeAll h), find?_mergeAll_iff h hv⟩

/-- A map, a tombstone over it and a map once more: the tombstone shows where the top layer does not decide. -/
theorem tombstone_between_maps_wins :
    (∀ t ∈ [[("a", .map [("b", .scalar (.int 1))])], [("a", .map [("b", .unset)])],
        [("a", .map [("c", .list [])])]], Tree.Frozen t) ∧
      Value.isLeaf .unset ∧
      (mergeAll [[("a", .map [("b", .scalar (.int 1))])], [("a", .map [("b", .unset)])],
        [("a", .map [("c", .list [])])]]).find? ["a", "b"] = some .unset := by
  have hfrozen : ∀ t ∈ [[("a", .map [("b", .scalar (.int 1))])], [("a", .map [("b", .unset)])],
      [("a", .map [("c", .list [])])]], Tree.Frozen t := by decide
  refine ⟨hfrozen, rfl, ((highest_deciding_layer_wins hfrozen ["a", "b"] rfl).2).mpr ?_⟩
  refine ⟨[[("a", .map [("b", .scalar (.int 1))])]], [("a", .map [("b", .unset)])],
    [[("a", .map [("c", .list [])])]], rfl, decides_of_find? rfl, rfl, ?_⟩
  intro u hu
  rw [List.mem_singleton.mp hu]
  simp [decides_cons, get?]

end Tree

/-! ## Taking the tombstones out -/

namespace Value

@[simp] theorem prune?_unset : unset.prune? = none := by rw [prune?]

@[simp] theorem prune?_map (t : Tree) : (map t).prune? = some (map (Tree.prune t)) := by rw [prune?]

theorem prune?_of_isLeaf {v : Value} (h : v.isLeaf) (hne : v ≠ unset) : v.prune? = some v := by
  cases v with
  | unset => exact absurd rfl hne
  | map t => simp at h
  | _ => simp [prune?]

end Value

namespace Tree

theorem prune_cons_of_none {k : String} {v : Value} {rest : Tree} (h : v.prune? = none) :
    prune ((k, v) :: rest) = prune rest := by
  rw [prune, h]

theorem prune_cons_of_some {k : String} {v w : Value} {rest : Tree} (h : v.prune? = some w) :
    prune ((k, v) :: rest) = (k, w) :: prune rest := by
  rw [prune, h]

theorem mem_prune {t : Tree} {e : String × Value} (h : e ∈ prune t) : ∃ v, (e.1, v) ∈ t ∧ v.prune? = some e.2 := by
  induction t with
  | nil => simp [prune] at h
  | cons d rest ih =>
    obtain ⟨k, v⟩ := d
    cases hv : v.prune? with
    | none =>
      rw [prune_cons_of_none hv] at h
      obtain ⟨w, hw, hp⟩ := ih h
      exact ⟨w, List.mem_cons_of_mem _ hw, hp⟩
    | some w =>
      rw [prune_cons_of_some hv] at h
      rcases List.mem_cons.mp h with h | h
      · subst h
        exact ⟨v, List.mem_cons_self, hv⟩
      · obtain ⟨u, hu, hp⟩ := ih h
        exact ⟨u, List.mem_cons_of_mem _ hu, hp⟩

end Tree

mutual

theorem Value.Frozen.prune? : {v : Value} → v.Frozen → {w : Value} → v.prune? = some w → w.Frozen
  | .map entries, h, w, hw => by
    rw [Value.prune?_map] at hw
    cases hw
    exact Tree.frozen_map.mpr (Tree.Frozen.prune (Tree.frozen_map.mp h))
  | .unset, _, _, hw => by simp at hw
  | .scalar _, h, _, hw => by
    rw [Value.prune?_of_isLeaf rfl (by simp)] at hw
    cases hw
    exact h
  | .list _, h, _, hw => by
    rw [Value.prune?_of_isLeaf rfl (by simp)] at hw
    cases hw
    exact h

theorem Tree.Frozen.prune : {t : List (String × Value)} → Tree.Frozen t → Tree.Frozen (Tree.prune t)
  | [], _ => by rw [Tree.prune]; exact Tree.frozen_nil
  | (k, v) :: rest, h => by
    have ⟨hk, hlt, hv, hrest⟩ := Tree.frozen_cons.mp h
    cases hp : v.prune? with
    | none =>
      rw [Tree.prune_cons_of_none hp]
      exact Tree.Frozen.prune hrest
    | some w =>
      rw [Tree.prune_cons_of_some hp]
      refine Tree.frozen_cons.mpr ⟨hk, ?_, Value.Frozen.prune? hv hp, Tree.Frozen.prune hrest⟩
      intro e he
      obtain ⟨u, hu, _⟩ := Tree.mem_prune he
      exact hlt (e.1, u) hu

end

namespace Tree

theorem get?_prune {t : Tree} (h : t.Frozen) (key : String) : (prune t).get? key = (t.get? key).bind Value.prune? := by
  induction t with
  | nil => simp [prune, get?]
  | cons e rest ih =>
    obtain ⟨k, v⟩ := e
    have hrest := (frozen_cons.mp h).2.2.2
    cases hv : v.prune? with
    | none =>
      rw [prune_cons_of_none hv, ih hrest, get?]
      split
      · rename_i hk
        rw [← hk, get?_tail_of_frozen h, Option.bind_some, hv]
        rfl
      · rfl
    | some w =>
      rw [prune_cons_of_some hv, get?, get?]
      split
      · rw [Option.bind_some, hv]
      · exact ih hrest

/-- What stands at a place of a pruned tree is what stood there, pruned. -/
theorem find?_prune {t : Tree} (h : t.Frozen) (place : List String) :
    (prune t).find? place = (t.find? place).bind Value.prune? := by
  induction place generalizing t with
  | nil => rw [find?_nil, find?_nil, Option.bind_some, Value.prune?_map]
  | cons key rest ih =>
    rw [find?_cons, find?_cons, get?_prune h]
    cases hg : t.get? key with
    | none => rfl
    | some v =>
      rw [Option.bind_some, Option.bind_some]
      by_cases hv : v.isLeaf
      · by_cases hr : rest = []
        · rw [hr, Value.find?_nil, Option.bind_some]
          cases v.prune? with
          | none => rfl
          | some w => exact Value.find?_nil w
        · -- nothing stands beneath a leaf, pruned or not
          rw [Value.find?_of_isLeaf hv hr]
          by_cases hunset : v = .unset
          · rw [hunset]
            rfl
          · rw [Value.prune?_of_isLeaf hv hunset]
            exact Value.find?_of_isLeaf hv hr
      · obtain ⟨below, rfl⟩ := Value.eq_map_of_not_isLeaf hv
        rw [Value.prune?_map, Option.bind_some, Value.find?_map, Value.find?_map]
        exact ih (frozen_map.mp (h.of_get? hg))

/-- A pruned tree holds the leaves that the tree held, all but the tombstones. -/
theorem find?_prune_iff {t : Tree} (h : t.Frozen) {place : List String} {v : Value} (hv : v.isLeaf) :
    (prune t).find? place = some v ↔ t.find? place = some v ∧ v ≠ .unset := by
  rw [find?_prune h]
  cases t.find? place with
  | none => simp
  | some w =>
    rw [Option.bind_some]
    by_cases hw : w.isLeaf
    · by_cases hu : w = .unset
      · rw [hu, Value.prune?_unset]
        constructor
        · intro hf
          cases hf
        · intro hf
          exact absurd (Option.some.inj hf.1).symm hf.2
      · rw [Value.prune?_of_isLeaf hw hu]
        constructor
        · intro hf
          exact ⟨hf, Option.some.inj hf ▸ hu⟩
        · intro hf
          exact hf.1
    · obtain ⟨below, rfl⟩ := Value.eq_map_of_not_isLeaf hw
      rw [Value.prune?_map]
      simp [Value.map_ne_of_isLeaf hv]

theorem find?_prune_ne_unset {t : Tree} (h : t.Frozen) (place : List String) :
    (prune t).find? place ≠ some .unset := by
  intro hfound
  exact ((find?_prune_iff h rfl).mp hfound).2 rfl

end Tree
end LayeredConfig
