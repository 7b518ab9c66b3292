import LayeredConfig.Proofs.Source.Layers
import LayeredConfig.Proofs.Tree.Grouping
/-!
# Layered sources as layers

A layered source can be one layer of another. What it hands out then is the overlay of its own layers, so it does as
well as these exactly when the trees that they hand out can be grouped (`layers_can_be_grouped_iff`).
-/
namespace LayeredConfig

/-- Whether layers, fetched one after the other in a world, hand out certain trees and leave a certain world. -/
inductive HandsOut : List Source → World → List Tree → World → Prop
  | nil (w : World) : HandsOut [] w [] w
  | cons {layer : Source} {rest : List Source} {w w₁ w₂ : World} {t : Tree} {trees : List Tree}
      (first : layer.fetch w = (.ok (.tree t), w₁)) (others : HandsOut rest w₁ trees w₂) :
      HandsOut (layer :: rest) w (t :: trees) w₂

variable {inner : List Source}

/-- Layers that hand out nothing but frozen trees fail over whatever is below them, or hand out the same trees over
whatever is below them. -/
theorem fetchLayers_cases (h : ∀ s ∈ inner, s.GivesTrees) (w : World) :
    (∃ failure w', ∀ below, fetchLayers below inner w = (.error failure, w')) ∨
      ∃ trees w', HandsOut inner w trees w' ∧ (∀ t ∈ trees, t.Frozen) ∧
        ∀ below : Tree, fetchLayers (.tree below) inner w = (.ok (.tree (trees.foldl Tree.merge below)), w') := by
  induction inner generalizing w with
  | nil => exact .inr ⟨[], w, .nil w, by simp, fun below => by rw [fetchLayers]; rfl⟩
  | cons layer rest ih =>
    obtain ⟨hlayer, hrest⟩ := List.forall_mem_cons.mp h
    cases hf : layer.fetch w with
    | mk fetched w₁ =>
      cases fetched with
      | error failure => exact .inl ⟨failure, w₁, fun below => by rw [fetchLayers_cons, hf]⟩
      | ok content =>
        obtain ⟨t, rfl, ht⟩ := hlayer w content w₁ hf
        rcases ih hrest w₁ with ⟨failure, w', hfail⟩ | ⟨trees, w', hout, htrees, hfetch⟩
        · refine .inl ⟨failure, w', ?_⟩
          intro below
          rw [fetchLayers_cons, hf]
          exact hfail _
        · refine .inr ⟨t :: trees, w', .cons hf hout, List.forall_mem_cons.mpr ⟨ht, htrees⟩, ?_⟩
          intro below
          rw [fetchLayers_cons, hf]
          exact hfetch (Tree.merge below t)

theorem fetchLayers_group (h : ∀ s ∈ inner, s.GivesTrees) {w : World}
    (hc : ∀ trees w', HandsOut inner w trees w' → Tree.Composes trees) {below : Tree} (hb : below.Frozen) :
    fetchLayers (.tree below) [.layered inner] w = fetchLayers (.tree below) inner w := by
  rw [fetchLayers_cons, Source.fetch]
  rcases fetchLayers_cases h w with ⟨failure, w', hfail⟩ | ⟨trees, w', hout, htrees, hfetch⟩
  · rw [hfail, hfail]
  · rw [hfetch, hfetch, Tree.foldl_merge_of_composes (hc trees w' hout) htrees hb]
    show fetchLayers _ [] w' = _
    rw [fetchLayers]
    rfl

/-- **Layers can be grouped exactly when no leaf of theirs is covered by a map.** Whatever the layers beneath and above
    are, frozen layers can be overlaid first among themselves and then as one layer among the others, if and only if
    none of them has a leaf, be it a tombstone, at a place where their overlay has a map. A layered source among the
    layers of another hands out the same as its layers in its place would, and leaves the same world, whenever the
    trees that these hand out can be grouped. -/
theorem layers_can_be_grouped_iff {layers : List Tree} (h : ∀ t ∈ layers, t.Frozen) :
    ((∀ lower higher : List Tree, (∀ t ∈ lower, t.Frozen) → (∀ t ∈ higher, t.Frozen) →
        Tree.mergeAll (lower ++ [Tree.mergeAll layers] ++ higher) = Tree.mergeAll (lower ++ layers ++ higher)) ↔
      ∀ place below, (Tree.mergeAll layers).find? place = some (.map below) →
        ∀ t ∈ layers, ∀ v, t.find? place = some v → ¬ v.isLeaf) ∧
    ∀ (lower inner higher : List Source) (w : World), (∀ s ∈ lower, s.GivesTrees) → (∀ s ∈ inner, s.GivesTrees) →
      (∀ content w₁ trees w₂, fetchLayers (.tree []) lower w = (.ok content, w₁) → HandsOut inner w₁ trees w₂ →
        Tree.Composes trees) →
      (Source.layered (lower ++ [.layered inner] ++ higher)).fetch w =
        (Source.layered (lower ++ inner ++ higher)).fetch w := by
  constructor
  · constructor
    · intro hgroup
      by_contra hnot
      obtain ⟨below, hb, hne⟩ := Tree.exists_ungrouped_of_not_composes hnot h
      exact hne (hgroup [below] [] (by simpa using hb) (by simp))
    · intro hc lower higher hlower _
      rw [Tree.mergeAll_append_group, Tree.mergeAll_append_layers,
        Tree.foldl_merge_of_composes hc h (Tree.Frozen.mergeAll hlower)]
  · intro lower inner higher w hlower hinner hc
    have hsame : fetchLayers (.tree []) (lower ++ [Source.layered inner]) w =
        fetchLayers (.tree []) (lower ++ inner) w := by
      rw [fetchLayers_append, fetchLayers_append]
      cases hl : fetchLayers (.tree []) lower w with
      | mk fetched w₁ =>
        cases fetched with
        | error failure => rfl
        | ok content =>
          obtain ⟨trees, htrees, rfl⟩ := fetchLayers_of_givesTrees hlower Tree.frozen_nil hl
          exact fetchLayers_group hinner (fun ts w₂ => hc _ w₁ ts w₂ hl)
            (Tree.Frozen.foldl_merge htrees Tree.frozen_nil)
    rw [Source.fetch, Source.fetch, fetchLayers_append _ (lower ++ [Source.layered inner]), hsame, ← fetchLayers_append]

/-- A tombstone and a value beside it can be grouped: over a map at its place the tombstone hides it either way. -/
theorem tombstone_in_a_group_hides :
    (∀ t ∈ [[("a", .unset)], [("b", .scalar (.int 1))]], Tree.Frozen t) ∧
      Tree.mergeAll ([[("a", .map [("c", .scalar (.int 2))])]] ++
          [Tree.mergeAll [[("a", .unset)], [("b", .scalar (.int 1))]]] ++ []) =
        Tree.mergeAll
          ([[("a", .map [("c", .scalar (.int 2))])]] ++ [[("a", .unset)], [("b", .scalar (.int 1))]] ++ []) ∧
      Tree.mergeAll ([[("a", .map [("c", .scalar (.int 2))])]] ++ [[("a", .unset)], [("b", .scalar (.int 1))]] ++ []) =
        [("a", .unset), ("b", .scalar (.int 1))] := by
  have hfrozen : ∀ t ∈ [[("a", .unset)], [("b", .scalar (.int 1))]], Tree.Frozen t := by decide
  refine ⟨hfrozen, ((layers_can_be_grouped_iff hfrozen).1).mpr ?_ _ _ (by decide) (by simp), rfl⟩
  intro place below hmap t ht v hv
  cases place with
  | nil =>
    cases hv
    simp
  | cons key rest =>
    -- the overlay has two keys, with a leaf under each
    have hleaf : ∀ w, Tree.get? [("a", .unset), ("b", .scalar (.int 1))] key = some w → w.isLeaf := by
      intro w hw
      have hmem := Tree.mem_of_get? hw
      simp only [List.mem_cons, Prod.mk.injEq, List.not_mem_nil, or_false] at hmem
      rcases hmem with ⟨_, rfl⟩ | ⟨_, rfl⟩ <;> rfl
    rw [show Tree.mergeAll [[("a", .unset)], [("b", .scalar (.int 1))]] = [("a", .unset), ("b", .scalar (.int 1))] from
      rfl, Tree.find?_cons] at hmap
    obtain ⟨w, hw, hfound⟩ := Option.bind_eq_some_iff.mp hmap
    obtain ⟨_, heq⟩ := (Value.find?_eq_some_iff_of_isLeaf (hleaf w hw)).mp hfound
    exact absurd heq.symm (Value.map_ne_of_isLeaf (hleaf w hw) below)

/-- A tombstone and a map over it cannot be grouped: over a map at their place the group uncovers what the tombstone
    hid, and so does a layered source of the two as a layer. -/
theorem map_over_a_tombstone_uncovers_in_a_group :
    (∀ t ∈ [[("a", .map [("c", .scalar (.int 2))])], [("a", .unset)], [("a", .map [("b", .scalar (.int 1))])]],
        Tree.Frozen t) ∧
      Tree.mergeAll ([[("a", .map [("c", .scalar (.int 2))])]] ++
          [Tree.mergeAll [[("a", .unset)], [("a", .map [("b", .scalar (.int 1))])]]] ++ []) =
        [("a", .map [("b", .scalar (.int 1)), ("c", .scalar (.int 2))])] ∧
      Tree.mergeAll ([[("a", .map [("c", .scalar (.int 2))])]] ++
          [[("a", .unset)], [("a", .map [("b", .scalar (.int 1))])]] ++ []) = [("a", .map [("b", .scalar (.int 1))])] ∧
      ((Source.layered [.fixed "d" [("a", .map [("c", .scalar (.int 2))])],
          .layered [.fixed "u" [("a", .unset)], .fixed "m" [("a", .map [("b", .scalar (.int 1))])]]]).fetch
        (.ofEnvironment [])).1 = .ok (.tree [("a", .map [("b", .scalar (.int 1)), ("c", .scalar (.int 2))])]) ∧
      ((Source.layered [.fixed "d" [("a", .map [("c", .scalar (.int 2))])],
          .fixed "u" [("a", .unset)], .fixed "m" [("a", .map [("b", .scalar (.int 1))])]]).fetch
        (.ofEnvironment [])).1 = .ok (.tree [("a", .map [("b", .scalar (.int 1))])]) ∧
      [("a", Value.map [("b", .scalar (.int 1)), ("c", .scalar (.int 2))])] ≠
        [("a", .map [("b", .scalar (.int 1))])] := by
  refine ⟨by decide, rfl, rfl, rfl, rfl, ?_⟩
  intro heq
  cases heq

end LayeredConfig
