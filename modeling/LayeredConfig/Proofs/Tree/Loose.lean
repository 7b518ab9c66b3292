import LayeredConfig.Proofs.Tree.Overlay
import LayeredConfig.Proofs.Value.Freeze
import LayeredConfig.Tree.Loose
/-!
# Unfrozen content

Whatever is done to a raw map that has each of its keys once leaves it so: taking out a key, taking out tombstones,
and laying another such map over it. A stored tree is such a map once it is raw again. So what content is frozen or
pruned to is a frozen tree, whether the content is a tree or a raw map (`Content.Sound.pruned`).
-/
namespace LayeredConfig

namespace RawMap

theorem Distinct.erase {m : RawMap} (h : Distinct m) (key : Key) : Distinct (m.erase key) := by
  rw [distinct_iff] at h ⊢
  exact ⟨h.1.sublist List.filter_sublist, fun e he => h.2 e (List.mem_of_mem_filter he)⟩

theorem mem_prune {m : RawMap} {e : Key × Raw} (h : e ∈ prune m) : ∃ v, (e.1, v) ∈ m := by
  induction m with
  | nil => cases h
  | cons d rest ih =>
    obtain ⟨k, v⟩ := d
    rw [prune] at h
    split at h
    · obtain ⟨w, hw⟩ := ih h
      exact ⟨w, List.mem_cons_of_mem _ hw⟩
    · rcases List.mem_cons.mp h with rfl | h
      · exact ⟨v, List.mem_cons_self⟩
      · obtain ⟨w, hw⟩ := ih h
        exact ⟨w, List.mem_cons_of_mem _ hw⟩

end RawMap

mutual

theorem Raw.Distinct.prune? : {v : Raw} → v.Distinct → {w : Raw} → v.prune? = some w → w.Distinct
  | .map entries, h, w, hw => by
    rw [Raw.prune?] at hw
    cases hw
    exact RawMap.distinct_map.mpr (RawMap.Distinct.prune (RawMap.distinct_map.mp h))
  | .unset, _, _, hw => by simp [Raw.prune?] at hw
  | .null, h, _, hw => by cases hw; exact h
  | .scalar _, h, _, hw => by cases hw; exact h
  | .list _, h, _, hw => by cases hw; exact h
  | .option _, h, _, hw => by cases hw; exact h
  | .foreign _, h, _, hw => by cases hw; exact h

theorem RawMap.Distinct.prune : {m : List (Key × Raw)} → RawMap.Distinct m → RawMap.Distinct (RawMap.prune m)
  | [], h => by rw [RawMap.prune]; exact h
  | (k, v) :: rest, h => by
    have ⟨hk, hv, hrest⟩ := RawMap.distinct_cons.mp h
    rw [RawMap.prune]
    split
    · exact RawMap.Distinct.prune hrest
    · rename_i w hw
      refine RawMap.distinct_cons.mpr ⟨?_, Raw.Distinct.prune? hv hw, RawMap.Distinct.prune hrest⟩
      intro e he
      obtain ⟨u, hu⟩ := RawMap.mem_prune he
      exact hk (e.1, u) hu

end

theorem Raw.over_of_not_map (v : Raw) {below : Option Raw} (h : ∀ m, below ≠ some (.map m)) : v.over below = v := by
  cases v with
  | map entries =>
    cases below with
    | none => simp [Raw.over]
    | some w =>
      cases w with
      | map lower => exact absurd rfl (h lower)
      | _ => simp [Raw.over]
  | _ => simp [Raw.over]

mutual

theorem Raw.Distinct.over : {v : Raw} → v.Distinct → {below : Option Raw} → (∀ w, below = some w → w.Distinct) →
    (v.over below).Distinct
  | .map entries, h, below, hb => by
    by_cases hm : ∃ lower, below = some (.map lower)
    · obtain ⟨lower, hlower⟩ := hm
      rw [hlower, Raw.over]
      exact RawMap.distinct_map.mpr
        (RawMap.Distinct.merge (RawMap.distinct_map.mp h) (RawMap.distinct_map.mp (hb _ hlower)))
    · rw [Raw.over_of_not_map _ fun lower hlower => hm ⟨lower, hlower⟩]
      exact h
  | .unset, h, _, _ => by rw [Raw.over]; exacts [h, nofun]
  | .null, h, _, _ => by rw [Raw.over]; exacts [h, nofun]
  | .scalar _, h, _, _ => by rw [Raw.over]; exacts [h, nofun]
  | .list _, h, _, _ => by rw [Raw.over]; exacts [h, nofun]
  | .option _, h, _, _ => by rw [Raw.over]; exacts [h, nofun]
  | .foreign _, h, _, _ => by rw [Raw.over]; exacts [h, nofun]

theorem RawMap.Distinct.merge : {higher : List (Key × Raw)} → RawMap.Distinct higher → {lower : RawMap} →
    RawMap.Distinct lower → RawMap.Distinct (RawMap.merge lower higher)
  | [], _, _, hl => by rw [RawMap.merge]; exact hl
  | (k, v) :: rest, h, lower, hl => by
    have ⟨_, hv, hrest⟩ := RawMap.distinct_cons.mp h
    rw [RawMap.merge]
    exact RawMap.Distinct.merge hrest (hl.insert k (Raw.Distinct.over hv fun w hw => hl.of_get? hw))

end

mutual

theorem Value.Frozen.thaw_distinct : (v : Value) → v.Frozen → v.thaw.Distinct
  | .unset, _ => by rw [Value.thaw]; exact Raw.distinct_unset
  | .scalar s, _ => by rw [Value.thaw]; exact Raw.distinct_scalar s
  | .list items, h => by
    rw [Value.Frozen] at h
    rw [Value.thaw, Raw.Distinct]
    exact Value.FrozenItems.thaw_distinct items h
  | .map entries, h => by
    rw [Value.thaw]
    exact RawMap.distinct_map.mpr (Tree.Frozen.thaw_distinct entries (Tree.frozen_map.mp h))

theorem Value.FrozenItems.thaw_distinct : (items : List Value) → Value.FrozenItems items →
    Raw.DistinctItems (Value.thawItems items)
  | [], _ => by rw [Value.thawItems, Raw.DistinctItems]; trivial
  | v :: rest, h => by
    rw [Value.FrozenItems] at h
    rw [Value.thawItems, Raw.DistinctItems]
    exact ⟨Value.Frozen.thaw_distinct v h.2.1, Value.FrozenItems.thaw_distinct rest h.2.2⟩

theorem Tree.Frozen.thaw_distinct : (t : List (String × Value)) → Tree.Frozen t →
    RawMap.Distinct (Value.thawEntries t)
  | [], _ => by rw [Value.thawEntries]; exact RawMap.distinct_nil
  | (k, v) :: rest, h => by
    have ⟨_, hlt, hv, hrest⟩ := Tree.frozen_cons.mp h
    rw [Value.thawEntries]
    refine RawMap.distinct_cons.mpr ⟨?_, Value.Frozen.thaw_distinct v hv, Tree.Frozen.thaw_distinct rest hrest⟩
    intro e he
    obtain ⟨d, hd, rfl⟩ := Tree.mem_thawEntries he
    exact fun hsame => ne_of_lt (hlt d hd) (of_decide_eq_true hsame)

end

namespace Content

/-- Whether content is as a source can hand it out: a frozen tree, or a raw map that has each key once. -/
def Sound : Content → Prop
  | tree t => t.Frozen
  | loose m => m.Distinct

theorem Sound.erase {c : Content} (h : c.Sound) (key : String) : (c.erase key).Sound := by
  cases c with
  | tree t => exact Tree.Frozen.erase h key
  | loose m => exact RawMap.Distinct.erase h key

theorem Sound.pruned {c : Content} (h : c.Sound) {t : Tree} (ht : c.pruned = .ok t) : t.Frozen := by
  cases c with
  | tree u =>
    cases ht
    exact Tree.Frozen.prune h
  | loose m => exact freezeTree_frozen (RawMap.distinct_map.mpr (RawMap.Distinct.prune h)) ht

end Content
end LayeredConfig
