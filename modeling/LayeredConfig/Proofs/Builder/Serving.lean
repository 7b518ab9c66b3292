import LayeredConfig.Proofs.Builder.Calls
import LayeredConfig.Proofs.Coordinator.Passes
import LayeredConfig.Proofs.Profile.Resolution
import LayeredConfig.Proofs.Source.Layers
/-!
# What the loader of a builder serves

A builder that builds lays its writes over a base that they have no part in (`Builder.build_eq_ok`). What its loader
serves first is resolved from what the sources below make together, with the writes laid over it
(`Builder.Serves.resolve_over`).
-/
namespace LayeredConfig.Builder

/-- Whether the loader that a builder makes in a world, of sources that hand out frozen trees, serves a configuration
first. -/
def Serves (b : Builder) (w : World) (config : Config) : Prop :=
  ∃ settings layers w', b.build w = (.ok (settings, .layered layers), w') ∧ (∀ layer ∈ layers, layer.GivesTrees) ∧
    (Coordinator.fresh.demand (Source.layered layers).feed w').result = .ok config

/-- The settings and the base of the loader that a builder makes in a world; what was written has no part in them. -/
def foundation (b : Builder) (w : World) : Outcome (Settings × Source) × World :=
  match b.base with
  | some base => (.ok (b.settings.getD .default, base), w)
  | none =>
    match b.settings.elim (Settings.ofEnvironment w.environment []) .ok with
    | .error f => (.error f, w)
    | .ok s => (.ok (s, (s.source w).1), (s.source w).2)

/-- The source of a loader lays the writes over its base, unless the reserved name is used. -/
theorem build_eq_ok {b : Builder} {w w' : World} {settings : Settings} {source : Source}
    (h : b.build w = (.ok (settings, source), w')) :
    (b.declared.contains defaultProfile || declaresReserved b.writes.tree) = false ∧
      ∃ base, b.foundation w = (.ok (settings, base), w') ∧ source = .layered (b.layers base) := by
  rw [build] at h
  split at h
  · cases h
  · rename_i hnot
    refine ⟨by simpa using hnot, ?_⟩
    rw [foundation]
    cases hbase : b.base with
    | some base =>
      cases hsettings : b.settings <;> simp only [hbase, hsettings] at h <;> cases h <;> exact ⟨base, rfl, rfl⟩
    | none =>
      cases hsettings : b.settings with
      | some s =>
        simp only [hbase, hsettings] at h
        cases h
        exact ⟨_, rfl, rfl⟩
      | none =>
        simp only [hbase, hsettings] at h
        split at h
        · cases h
        · rename_i s henv
          cases h
          exact ⟨_, by rw [Option.elim_none, henv], rfl⟩

theorem givesTrees_layers {b : Builder} (hw : b.writes.Sound) {base : Source} (hbase : base.GivesTrees)
    (hdefaults : ∀ d ∈ b.defaults, d.GivesTrees) : ∀ layer ∈ b.layers base, layer.GivesTrees := by
  intro layer hlayer
  rw [layers] at hlayer
  rcases List.mem_append.mp hlayer with hlayer | hlayer
  · exact hdefaults layer (Option.mem_toList.mp hlayer)
  · rcases List.mem_cons.mp hlayer with hlayer | hlayer
    · exact hlayer ▸ hbase
    · rw [List.mem_singleton.mp hlayer]
      exact Source.givesTrees_fixed "overrides" hw.tree_frozen

/-- What is served is resolved from what the sources below make together, with the writes laid over it. -/
theorem Serves.resolve_over {b : Builder} {w : World} {config : Config} (h : b.Serves w config) :
    ∃ (settings : Settings) (base : Source) (w1 w2 : World) (below : Tree),
      b.foundation w = (.ok (settings, base), w1) ∧
        fetchLayers (.tree []) (b.defaults.toList ++ [base]) w1 = (.ok (.tree below), w2) ∧ below.Frozen ∧
        Config.resolve (.tree (Tree.merge below b.writes.tree)) 1 = .ok config := by
  obtain ⟨settings, layers, w1, hbuild, hgive, hserved⟩ := h
  obtain ⟨_, base, hfoundation, hsource⟩ := build_eq_ok hbuild
  cases hsource
  -- whatever the builder lies over, its writes are the last layer
  have hlayers : b.layers base = (b.defaults.toList ++ [base]) ++ [.fixed "overrides" b.writes.tree] := by
    simp [layers]
  rw [hlayers] at hgive hserved
  obtain ⟨content, _, hf, hr⟩ := Coordinator.advance_eq_ok_iff.mp hserved
  obtain ⟨below, w2, hbelow, hfetch, rfl⟩ :=
    Source.fetch_fixed_on_top (fun s hs => hgive s (List.mem_append_left _ hs)) hf
  exact ⟨settings, base, w1, w2, below, hfoundation, hfetch, hbelow, hr⟩

theorem Serves.resolve {b : Builder} {w : World} {config : Config} (h : b.Serves w config) :
    ∃ lower : Tree, lower.Frozen ∧ Config.resolve (.tree (Tree.merge lower b.writes.tree)) 1 = .ok config := by
  obtain ⟨_, _, _, _, below, _, _, hbelow, hr⟩ := h.resolve_over
  exact ⟨below, hbelow, hr⟩

theorem serves_of_resolve {b : Builder} (hnot : (b.declared.contains defaultProfile ||
    declaresReserved b.writes.tree) = false) (hw : b.writes.Sound) {base : Tree} (ht : base.Frozen)
    (hbase : b.base = some (.fixed "base" base)) (hdefaults : b.defaults = none) {config : Config}
    (hr : Config.resolve (.tree (Tree.merge base b.writes.tree)) 1 = .ok config) (w : World) :
    b.Serves w config := by
  refine ⟨b.settings.getD .default, b.layers (.fixed "base" base), w, ?_, ?_, ?_⟩
  · rw [build, hnot, hbase]
    cases b.settings <;> rfl
  · exact givesTrees_layers hw (Source.givesTrees_fixed "base" ht) (by simp [hdefaults])
  · apply Coordinator.advance_eq_ok_iff.mpr
    refine ⟨.tree (Tree.merge base b.writes.tree), w, ?_, hr⟩
    show (Source.layered (b.layers (.fixed "base" base))).fetch w = _
    rw [layers, hdefaults]
    simp [Source.fetch, fetchLayers, Content.merge, Content.frozen, Except.map, Tree.merge_nil ht]

end LayeredConfig.Builder
