import LayeredConfig.Proofs.Profile.Inheritance
import LayeredConfig.Proofs.Tree.Writing
/-!
# Pruning the default profile first

A tombstone of a lower tree shows nowhere after pruning: where the higher tree decides, what it shows stands in its
place, and elsewhere the tombstone is dropped in the end. So a tree that is pruned before another one is laid over it
gives what it would have given unpruned (`prune_merge_prune`), and the profiles of a tree, each laid over the pruned
default one, are those over the root as it stands (`pruning_the_root_first_changes_no_profile`).
-/
namespace LayeredConfig
namespace Tree

/-- Pruning before an overlay and after it is as good as pruning after it. -/
theorem prune_merge_prune {lower higher : Tree} (hl : lower.Frozen) (hh : higher.Frozen) :
    prune (merge (prune lower) higher) = prune (merge lower higher) := by
  have hearly : (merge (prune lower) higher).Frozen := hh.merge hl.prune
  have hlate : (merge lower higher).Frozen := hh.merge hl
  apply eq_of_face? hearly.prune hlate.prune
  intro place
  rw [face?_prune hearly, face?_prune hlate]
  by_cases hdec : higher.Decides place
  · rw [(face?_merge hh place).1 hdec, (face?_merge hh place).1 hdec]
  · -- the lower tree shows there, and pruning it a second time changes nothing
    rw [(face?_merge hh place).2 hdec, (face?_merge hh place).2 hdec, ← face?_prune hl.prune, ← face?_prune hl,
      prune_prune hl]

end Tree

/-- Profiles do not tell overlays apart that agree on the tables that are laid over. -/
theorem profilesFrom_congr {α : Type} {overlay other : α → Outcome Tree} {entries : List (Key × ProfileBody α)}
    (h : ∀ key body, (key, .table body) ∈ entries → overlay body = other body) :
    profilesFrom overlay entries = profilesFrom other entries := by
  induction entries with
  | nil => rw [profilesFrom, profilesFrom]
  | cons e rest ih =>
    obtain ⟨key, body⟩ := e
    have hrest : profilesFrom overlay rest = profilesFrom other rest :=
      ih fun key body hm => h key body (List.mem_cons_of_mem _ hm)
    rw [profilesFrom, profilesFrom, hrest]
    cases body with
    | hidden => rfl
    | other _ => rfl
    | table body =>
      have hbody : overlay body = other body := h key body List.mem_cons_self
      simp only [hbody]

namespace Tree

/-- The declared profiles of a tree over a pruned root are those over the root as it stands. -/
theorem declaredProfiles_prune {t root : Tree} (ht : t.Frozen) (hroot : root.Frozen) :
    t.declaredProfiles (prune root) = t.declaredProfiles root := by
  rw [declaredProfiles, declaredProfiles]
  split
  · rfl
  · rfl
  · rename_i declared hdeclared
    apply profilesFrom_congr
    intro key body hm
    obtain ⟨⟨name, v⟩, he, heq⟩ := List.mem_map.mp hm
    cases Value.eq_map_of_asBody (Prod.mk.inj heq).2
    have htable : Frozen declared := frozen_map.mp (ht.of_get? hdeclared)
    have hbody : Frozen body := frozen_map.mp (htable.value_of_mem he)
    rw [effectiveTree, effectiveTree, prune_merge_prune hroot hbody]
  · rfl

/-- **Pruning the root first changes no profile.** A frozen tree that is pruned before another one is laid over it
    gives, pruned, the same tree as it gives unpruned, empty maps included, and none of the trees on either way is
    changed by freezing it again. So the profiles of a frozen tree, or the failure in their place, are those that
    come from its root as it stands: the effective tree of a profile is its table laid over the unpruned root, pruned
    once. -/
theorem pruning_the_root_first_changes_no_profile {lower higher t : Tree} (hl : lower.Frozen) (hh : higher.Frozen)
    (ht : t.Frozen) :
    prune (merge (prune lower) higher) = prune (merge lower higher) ∧
      (∀ u ∈ [prune lower, merge (prune lower) higher, prune (merge (prune lower) higher), merge lower higher],
        freezeTree "tree" (.map (Value.thawEntries u)) = .ok u) ∧
      profilesOf (.tree t) = (t.declaredProfiles (t.erase profilesKey)).map
        ((defaultProfile, prune (t.erase profilesKey)) :: ·) ∧
      ∀ ps, profilesOf (.tree t) = .ok ps → ∀ name eff, name ≠ defaultProfile →
        ((name, eff) ∈ ps ↔ ∃ body, t.find? [profilesKey, name] = some (.map body) ∧
          eff = prune (merge (t.erase profilesKey) body)) := by
  have hroot : (t.erase profilesKey).Frozen := ht.erase profilesKey
  have hdeclared := declaredProfiles_prune ht hroot
  refine ⟨prune_merge_prune hl hh, ?_, ?_, ?_⟩
  · intro u hu
    apply freezeTree_thaw
    have hearly : (merge (prune lower) higher).Frozen := hh.merge hl.prune
    simp only [List.mem_cons, List.not_mem_nil, or_false] at hu
    rcases hu with rfl | rfl | rfl | rfl
    · exact hl.prune
    · exact hearly
    · exact hearly.prune
    · exact hh.merge hl
  · rw [← hdeclared]
    cases h : t.declaredProfiles (prune (t.erase profilesKey)) with
    | ok named => exact profilesOf_tree_eq_ok_iff.mpr ⟨named, h, rfl⟩
    | error failure =>
      refine Outcome.bind_eq_error_iff.mpr (.inr ⟨_, rfl, ?_⟩)
      exact Outcome.bind_eq_error_iff.mpr (.inl h)
  · intro ps hps name eff hname
    obtain ⟨named, hnamed, rfl⟩ := profilesOf_tree_eq_ok_iff.mp hps
    have hdefault : (name, eff) ≠ (defaultProfile, prune (t.erase profilesKey)) :=
      fun heq => hname (Prod.mk.inj heq).1
    rw [List.mem_cons, or_iff_right hdefault]
    exact mem_declaredProfiles_iff ht (hdeclared ▸ hnamed)

/-- Tombstones below meet a value, a map and nothing above, and a tombstone above meets an empty map. -/
theorem tombstones_of_the_root_show_in_no_profile :
    Frozen [("a", .unset), ("b", .map [("c", .unset)]), ("d", .unset), ("e", .map [])] ∧
      Frozen [("a", .scalar (.int 1)), ("d", .map [("f", .unset)]), ("e", .unset)] ∧
      Frozen [("a", .unset), ("b", .map [("c", .unset)]),
        ("profiles", .map [("fast", .map [("a", .map []), ("b", .map [("c", .scalar (.int 1))])])])] ∧
      prune (merge (prune [("a", .unset), ("b", .map [("c", .unset)]), ("d", .unset), ("e", .map [])])
          [("a", .scalar (.int 1)), ("d", .map [("f", .unset)]), ("e", .unset)]) =
        [("a", .scalar (.int 1)), ("b", .map []), ("d", .map [])] ∧
      profilesOf (.tree [("a", .unset), ("b", .map [("c", .unset)]),
        ("profiles", .map [("fast", .map [("a", .map []), ("b", .map [("c", .scalar (.int 1))])])])]) =
        .ok [("default", [("b", .map [])]), ("fast", [("a", .map []), ("b", .map [("c", .scalar (.int 1))])])] := by
  have hl : Frozen [("a", .unset), ("b", .map [("c", .unset)]), ("d", .unset), ("e", .map [])] := by decide
  have hh : Frozen [("a", .scalar (.int 1)), ("d", .map [("f", .unset)]), ("e", .unset)] := by decide
  have ht : Frozen [("a", .unset), ("b", .map [("c", .unset)]),
      ("profiles", .map [("fast", .map [("a", .map []), ("b", .map [("c", .scalar (.int 1))])])])] := by decide
  obtain ⟨heq, _, hprofiles, _⟩ := pruning_the_root_first_changes_no_profile hl hh ht
  refine ⟨hl, hh, ht, heq.trans ?_, hprofiles.trans ?_⟩
  · rfl
  · rfl

end Tree
end LayeredConfig
