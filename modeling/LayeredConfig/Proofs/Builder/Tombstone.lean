import LayeredConfig.Proofs.Builder.Serving
/-!
# Tombstones of builders

A tombstone that a builder holds at a path is to hide whatever the layers below hold at the path and beneath it.
It does so exactly as long as the builder holds nothing beneath the path (`tombstone_hides_iff`): a write beneath
makes a map of the path, and the tombstone is gone before it is laid over anything.
-/
namespace LayeredConfig

namespace Builder

/-- Whether whatever the default profile of a configuration lists at a path or beneath it was written by the
builder. -/
def Hides (b : Builder) (p : Path) (config : Config) : Prop :=
  ∀ snapshot, config.profile defaultProfile = .ok snapshot →
    ∀ e ∈ snapshot.entries, p.segments <+: dottedPieces e.1 → e ∈ b.writes.tree.flatten

end Builder

/-- The default profile lists, outside the table of profiles, the leaves of the writes and, where these decide
nothing, the leaves below them. -/
theorem Config.mem_default_entries_iff {lower writes : Tree} (hl : lower.Frozen) (hw : writes.Frozen)
    {generation : Int} {config : Config} (h : Config.resolve (.tree (Tree.merge lower writes)) generation = .ok config)
    {snapshot : Snapshot} (hs : config.profile defaultProfile = .ok snapshot) {path : String} {place : List String}
    (hplace : dottedPieces path = place) (hp : place.head? ≠ some profilesKey) {v : Value} :
    (path, v) ∈ snapshot.entries ↔
      v.isLeaf ∧ v ≠ .unset ∧
        (writes.find? place = some v ∨ ¬ writes.Decides place ∧ lower.find? place = some v) := by
  have hmerge : (Tree.merge lower writes).Frozen := hw.merge hl
  rw [Config.profile_default h] at hs
  cases hs
  show (path, v) ∈ Tree.flatten (Tree.prune ((Tree.merge lower writes).erase profilesKey)) ↔ _
  rw [Tree.mem_flatten_iff (hmerge.erase profilesKey).prune, hplace]
  have hne : place ≠ [] := hplace ▸ dottedPieces_ne_nil path
  by_cases hv : v.isLeaf
  · rw [Tree.find?_prune_iff (hmerge.erase profilesKey) hv, Tree.find?_erase hne hp,
      Tree.find?_merge_iff hw hv]
    constructor
    · intro h
      obtain ⟨⟨hf, hne⟩, _⟩ := h
      exact ⟨hv, hne, hf⟩
    · intro h
      obtain ⟨_, hne, hf⟩ := h
      exact ⟨⟨hf, hne⟩, hv⟩
  · simp [hv]

namespace Builder

/-! ## When a tombstone hides -/

theorem hides_of_top {b : Builder} (hw : b.writes.Sound) {p : Path} (hp : p.segments.head? ≠ some profilesKey)
    (hunset : (p, .unset) ∈ b.writes) (htop : ∀ e ∈ b.writes, p.segments <+: e.1.segments → e.1 = p) {w : World}
    {config : Config} (h : b.Serves w config) : b.Hides p config := by
  obtain ⟨lower, hl, hr⟩ := h.resolve
  intro snapshot hs e he hpre
  obtain ⟨path, v⟩ := e
  obtain ⟨rest, hrest⟩ := hpre
  have hhead : (p.segments ++ rest).head? ≠ some profilesKey := by
    rw [List.head?_append_of_ne_nil _ p.nonempty]
    exact hp
  obtain ⟨hv, _, hf | ⟨hnot, _⟩⟩ := (Config.mem_default_entries_iff hl hw.tree_frozen hr hs hrest.symm hhead).mp he
  · rw [Tree.mem_flatten_iff hw.tree_frozen, ← hrest]
    exact ⟨hf, hv⟩
  -- what the layers below hold there lies beneath a leaf of the writes, the tombstone
  · have hat : b.writes.tree.find? p.segments = some .unset := Writes.find?_tree_of_top hw hunset htop
    exact absurd (Tree.decides_beneath_leaf hat rfl rest) hnot

/-- With something written beneath it a tombstone does not hide a base that has more to say there. -/
theorem exists_not_hides_of_beneath {b : Builder} (hw : b.writes.Sound) {p q : Path} {v : Value}
    (hp : p.segments.head? ≠ some profilesKey) (hq : (q, v) ∈ b.writes) (hpq : p.segments <+: q.segments)
    (hne : p ≠ q) {lower : Tree} (hl : lower.Frozen) {config : Config}
    (hr : Config.resolve (.tree (Tree.merge lower b.writes.tree)) 1 = .ok config) :
    ∃ (base : Tree) (config' : Config), base.Frozen ∧
      Config.resolve (.tree (Tree.merge base b.writes.tree)) 1 = .ok config' ∧ ¬ b.Hides p config' := by
  obtain ⟨below, hbelow⟩ := Writes.find?_tree_of_beneath hw hq hpq hne
  obtain ⟨key, hkey, hfresh⟩ := Tree.exists_get?_eq_none below
  -- the base with one leaf more, under a key that the writes do not use
  let place := p.segments ++ [key]
  have hplace : place ≠ [] := List.append_ne_nil_of_right_ne_nil _ (List.cons_ne_nil key [])
  have hkeys : ∀ k ∈ place, IsKey k := by
    intro k hk
    rcases List.mem_append.mp hk with hk | hk
    · exact p.isKey k hk
    · exact List.mem_singleton.mp hk ▸ hkey
  have hleaf : (Value.scalar (.bool true)).Frozen := by decide
  have hbase : (lower.setAt place (.scalar (.bool true))).Frozen := hl.setAt hkeys hleaf
  have hopen : ¬ b.writes.tree.Decides place := by
    rw [Tree.decides_append hbelow, Tree.decides_cons, hfresh]
    simp
  have hhead : place.head? ≠ some profilesKey := by
    rw [List.head?_append_of_ne_nil _ p.nonempty]
    exact hp
  have hprofiles : lower.get? profilesKey = (lower.setAt place (.scalar (.bool true))).get? profilesKey :=
    (Tree.get?_setAt_of_head_ne lower hplace hhead _).symm
  obtain ⟨config', hr'⟩ := Config.resolve_comes_out (Tree.get?_merge_congr hw.tree_frozen hprofiles) hr 1
  refine ⟨_, config', hbase, hr', ?_⟩
  intro hides
  have hpieces : dottedPieces (joinDots place) = place := dottedPieces_place hplace hkeys
  have hseen : (Value.scalar (.bool true)).isLeaf ∧ Value.scalar (.bool true) ≠ .unset ∧
      (b.writes.tree.find? place = some (.scalar (.bool true)) ∨ ¬ b.writes.tree.Decides place ∧
        (lower.setAt place (.scalar (.bool true))).find? place = some (.scalar (.bool true))) :=
    ⟨rfl, by decide, .inr ⟨hopen, Tree.find?_setAt_self lower hplace _⟩⟩
  have hdefault := Config.profile_default hr'
  have hlisted := (Config.mem_default_entries_iff hbase hw.tree_frozen hr' hdefault hpieces hhead).mpr hseen
  have hmem := hides _ hdefault _ hlisted (by rw [hpieces]; exact List.prefix_append _ _)
  rw [Tree.mem_flatten_iff hw.tree_frozen, hpieces] at hmem
  exact hopen (Tree.decides_of_find? hmem.1)

/-- What calls make of a builder, but for what it lies over, they make of an empty one. -/
theorem after_new (base defaults : Option Source) (settings : Option Settings) (calls : List Call) :
    (Builder.new base defaults settings).after calls =
      { (Builder.new none none none).after calls with base := base, defaults := defaults, settings := settings } :=
  after_with (Builder.new none none none) base defaults settings calls

/-- **A tombstone hides the layers below exactly when nothing is written beneath it.** Take any calls that leave a
    tombstone at a path outside the table of profiles. The tombstone hides every base and every defaults, whatever
    these hold, if and only if none of the calls has written anything strictly beneath the path, unless no loader of
    these calls ever serves anything. -/
theorem tombstone_hides_iff {calls : List Call} (hcalls : ∀ c ∈ calls, c.Distinct) {p : Path}
    (hp : p.segments.head? ≠ some profilesKey) {base defaults : Option Source} {settings : Option Settings}
    (hunset : (p, .unset) ∈ ((Builder.new base defaults settings).after calls).writes) :
    (∀ base' defaults' settings' w config, ((Builder.new base' defaults' settings').after calls).Serves w config →
        ((Builder.new base' defaults' settings').after calls).Hides p config) ↔
      (∀ e ∈ ((Builder.new base defaults settings).after calls).writes, p.segments <+: e.1.segments → e.1 = p) ∨
        ∀ base' defaults' settings' w config,
          ¬ ((Builder.new base' defaults' settings').after calls).Serves w config := by
  have hsound : ∀ base' defaults' settings', ((Builder.new base' defaults' settings').after calls).writes.Sound :=
    fun base' defaults' settings' => sound_after Writes.sound_nil hcalls
  have hwrites : ∀ base' defaults' settings', ((Builder.new base' defaults' settings').after calls).writes =
      ((Builder.new base defaults settings).after calls).writes := by
    intro base' defaults' settings'
    rw [after_new base', after_new base]
  constructor
  · intro hides
    by_contra hnone
    rw [not_or] at hnone
    obtain ⟨hbeneath, hserved⟩ := hnone
    push Not at hbeneath hserved
    obtain ⟨e, he, hpre, hne⟩ := hbeneath
    obtain ⟨base', defaults', settings', w, config, hserves⟩ := hserved
    rw [← hwrites base' defaults' settings'] at he
    obtain ⟨lower, hl, hr⟩ := hserves.resolve
    obtain ⟨_, _, _, hbuild, _⟩ := hserves
    obtain ⟨hnot, _⟩ := build_eq_ok hbuild
    obtain ⟨richer, config', hricher, hr', hno⟩ :=
      exists_not_hides_of_beneath (hsound _ _ _) hp he hpre hne.symm hl hr
    -- the same calls over the richer base serve what they do not hide
    have hserves' : ((Builder.new (some (.fixed "base" richer)) none settings').after calls).Serves w config' := by
      rw [after_new] at hnot hr' ⊢
      refine serves_of_resolve ?_ ?_ hricher ?_ ?_ ?_ w
      · exact hnot
      · exact hsound none none none
      · rfl
      · rfl
      · exact hr'
    have hhides := hides _ _ _ _ _ hserves'
    rw [after_new] at hhides hno
    exact hno hhides
  · intro h base' defaults' settings' w config hserves
    rcases h with htop | hnever
    · rw [← hwrites base' defaults' settings'] at hunset htop
      exact hides_of_top (hsound _ _ _) hp hunset htop hserves
    · exact absurd hserves (hnever base' defaults' settings' w config)

/-- A tombstone at `a` beside a value at `b` hides every base and every defaults. -/
theorem tombstone_beside_value_hides :
    (∀ c ∈ [Call.value (.scalar (.text "b")) (.scalar (.int 1)), .unset (.scalar (.text "a"))], c.Distinct) ∧
      ["a"].head? ≠ some profilesKey ∧
      (⟨["a"], by decide, by decide⟩, .unset) ∈ ((Builder.new none none none).after
        [.value (.scalar (.text "b")) (.scalar (.int 1)), .unset (.scalar (.text "a"))]).writes ∧
      ∀ base defaults settings w config, ((Builder.new base defaults settings).after
        [.value (.scalar (.text "b")) (.scalar (.int 1)), .unset (.scalar (.text "a"))]).Serves w config →
          ((Builder.new base defaults settings).after
            [.value (.scalar (.text "b")) (.scalar (.int 1)), .unset (.scalar (.text "a"))]).Hides
              ⟨["a"], by decide, by decide⟩ config := by
  have hcalls : ∀ c ∈ [Call.value (.scalar (.text "b")) (.scalar (.int 1)), .unset (.scalar (.text "a"))],
      c.Distinct := by simp [Call.Distinct]
  have hafter : (Builder.new none none none).after
      [.value (.scalar (.text "b")) (.scalar (.int 1)), .unset (.scalar (.text "a"))] =
      { base := none, defaults := none, settings := none,
        writes := [(⟨["b"], by decide, by decide⟩, .scalar (.int 1)), (⟨["a"], by decide, by decide⟩, .unset)],
        declared := [] } := by
    have hpath : (Raw.scalar (.text "b")).referredPath = .ok ⟨["b"], by decide, by decide⟩ := rfl
    have hone : freeze (Path.mk ["b"] (by decide) (by decide)).text (.scalar (.int 1)) = .ok (.scalar (.int 1)) := by
      simp [freeze, Scalar.fits]
    show (afterCall _ _).afterCall _ = _
    rw [afterCall_value _ hpath hone, afterCall_unset _ rfl]
    rfl
  have hunset : ((⟨["a"], by decide, by decide⟩ : Path), Value.unset) ∈ ((Builder.new none none none).after
      [.value (.scalar (.text "b")) (.scalar (.int 1)), .unset (.scalar (.text "a"))]).writes := by
    rw [hafter]
    exact List.mem_cons_of_mem _ List.mem_cons_self
  refine ⟨hcalls, by decide, hunset, (tombstone_hides_iff hcalls (by decide) hunset).mpr (.inl ?_)⟩
  rw [hafter]
  decide

/-- A write beneath a tombstone brings the base back: after the tombstone at `a` and the value at `a.b`, the value of
    the base at `a.c` is served. -/
theorem write_beneath_tombstone_uncovers_base :
    ∃ config, ((Builder.new (some (.fixed "mapping" [("a", .map [("c", .scalar (.int 2))])])) none none).after
        [.unset (.scalar (.text "a")), .value (.scalar (.text "a.b")) (.scalar (.int 1))]).Serves
          (.ofEnvironment []) config ∧
      ((Builder.new (some (.fixed "mapping" [("a", .map [("c", .scalar (.int 2))])])) none none).after
        [.unset (.scalar (.text "a")), .value (.scalar (.text "a.b")) (.scalar (.int 1))]).writes.entries =
          [("a", .unset), ("a.b", .scalar (.int 1))] ∧
      (config.profile defaultProfile).map (fun snapshot => snapshot.entries) =
        .ok [("a.b", .scalar (.int 1)), ("a.c", .scalar (.int 2))] ∧
      ¬ ((Builder.new (some (.fixed "mapping" [("a", .map [("c", .scalar (.int 2))])])) none none).after
        [.unset (.scalar (.text "a")), .value (.scalar (.text "a.b")) (.scalar (.int 1))]).Hides
          ⟨["a"], by decide, by decide⟩ config := by
  have hcalls : ∀ c ∈ [Call.unset (.scalar (.text "a")), .value (.scalar (.text "a.b")) (.scalar (.int 1))],
      c.Distinct := by simp [Call.Distinct]
  have hsound := sound_after
    (b := Builder.new (some (.fixed "mapping" [("a", .map [("c", .scalar (.int 2))])])) none none)
    Writes.sound_nil hcalls
  have hafter : (Builder.new (some (.fixed "mapping" [("a", .map [("c", .scalar (.int 2))])])) none none).after
      [.unset (.scalar (.text "a")), .value (.scalar (.text "a.b")) (.scalar (.int 1))] =
      { base := some (.fixed "mapping" [("a", .map [("c", .scalar (.int 2))])]), defaults := none, settings := none,
        writes := [(⟨["a"], by decide, by decide⟩, .unset), (⟨["a", "b"], by decide, by decide⟩, .scalar (.int 1))],
        declared := [] } := by
    have hpath : (Raw.scalar (.text "a.b")).referredPath = .ok ⟨["a", "b"], by decide, by decide⟩ := rfl
    have hone : freeze (Path.mk ["a", "b"] (by decide) (by decide)).text (.scalar (.int 1)) =
        .ok (.scalar (.int 1)) := by
      simp [freeze, Scalar.fits]
    show (afterCall _ _).afterCall _ = _
    rw [afterCall_unset _ rfl, afterCall_value _ hpath hone]
    rfl
  rw [hafter] at hsound ⊢
  refine ⟨_, ⟨.default, _, _, rfl, ?_, rfl⟩, rfl, rfl, ?_⟩
  · exact givesTrees_layers hsound (Source.givesTrees_fixed "mapping" (by decide)) (by simp)
  · intro hides
    have hlisted := hides _ rfl ("a.c", .scalar (.int 2)) (List.mem_cons_of_mem _ List.mem_cons_self) (by decide)
    rw [Tree.mem_flatten_iff hsound.tree_frozen] at hlisted
    cases hlisted.1

end Builder
end LayeredConfig
