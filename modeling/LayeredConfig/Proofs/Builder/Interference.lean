import LayeredConfig.Proofs.Builder.Edits
import LayeredConfig.Proofs.Builder.Serving
import LayeredConfig.Proofs.Tree.Frame
/-!
# Profiles do not interfere

Writing inside a profile changes that profile and no other. The write makes maps of the table of profiles and of the
profile's own table, whatever the layers below hold there, but trees that are the same apart from a profile's table
resolve to the same profiles but for that one (`Config.sameBut_of_resolve`), and a write inside the table leaves what
is resolved the same apart from it (`Writes.sameApart_merge_put`).
-/
namespace LayeredConfig

/-- Whether two configurations have the same default profile and, but for one name, the same other profiles. -/
structure Config.SameBut (n : String) (c d : Config) : Prop where
  atDefault : c.profile defaultProfile = d.profile defaultProfile
  elsewhere : ∀ name, name ≠ n → ∀ snapshot, c.profile name = .ok snapshot ↔ d.profile name = .ok snapshot
  names : ∀ name, name ≠ n → (name ∈ c.names ↔ name ∈ d.names)

/-- Trees that are the same apart from a profile's table resolve to the same profiles but for that one. -/
theorem Config.sameBut_of_resolve {t u : Tree} (ht : t.Frozen) (hu : u.Frozen) {n : String}
    (h : t.SameApart [profilesKey, n] u) {generation : Int} {c d : Config}
    (hc : resolve (.tree t) generation = .ok c) (hd : resolve (.tree u) generation = .ok d) : c.SameBut n d := by
  have hroot : t.erase profilesKey = u.erase profilesKey := h.erase_eq ht hu
  have hdefault : c.profile defaultProfile = d.profile defaultProfile := by
    rw [profile_default hc, profile_default hd, hroot]
  have hother : ∀ name, name ≠ n → ∀ snapshot, c.profile name = .ok snapshot ↔ d.profile name = .ok snapshot := by
    intro name hname snapshot
    by_cases hreserved : name = defaultProfile
    · rw [hreserved, hdefault]
    · have htable : t.find? [profilesKey, name] = u.find? [profilesKey, name] :=
        h.find?_eq ht hu (by simp [hname.symm]) (by simp [hname])
      rw [profile_eq_ok_iff ht hc hreserved, profile_eq_ok_iff hu hd hreserved, htable, hroot]
  refine ⟨hdefault, hother, ?_⟩
  intro name hname
  rw [mem_names, mem_names]
  exact exists_congr (hother name hname)

namespace Builder

variable {b b' : Builder} {w : World} {config config' : Config}

theorem Extends.foundation (h : b.Extends b') (w : World) : b'.foundation w = b.foundation w := by
  rw [Builder.foundation, Builder.foundation, h.base, h.settings]

theorem Extends.resolve (h : b.Extends b') (hserves : b.Serves w config) (hserves' : b'.Serves w config') :
    ∃ below : Tree, below.Frozen ∧ Config.resolve (.tree (Tree.merge below b.writes.tree)) 1 = .ok config ∧
      Config.resolve (.tree (Tree.merge below b'.writes.tree)) 1 = .ok config' := by
  obtain ⟨_, _, _, _, below, hbuild, hfetch, hbelow, hr⟩ := hserves.resolve_over
  obtain ⟨_, _, _, _, below', hbuild', hfetch', _, hr'⟩ := hserves'.resolve_over
  rw [h.foundation, hbuild] at hbuild'
  cases hbuild'
  rw [h.defaults, hfetch] at hfetch'
  cases hfetch'
  exact ⟨below, hbelow, hr, hr'⟩

theorem sameApart_writeIn (hw : b.writes.Sound) (hnone : ∀ e ∈ b.writes, e.1.segments ≠ [profilesKey]) (n : String)
    {c : Call} (hc : c.Distinct) (below : Tree) :
    (Tree.merge below b.writes.tree).SameApart [profilesKey, n]
      (Tree.merge below (b.edit (.writeIn n c)).writes.tree) := by
  rcases writes_edit_writeIn b n hc with heq | ⟨place, v, hplace, hv, heq⟩
  · rw [heq]
    exact .refl _ _
  · rw [heq]
    apply Writes.sameApart_merge_put hw hv hplace
    -- only the path of the table of profiles is strictly above the profile's own table
    intro e he hpre
    obtain ⟨key, rest, hsegments⟩ := List.exists_cons_of_ne_nil e.1.nonempty
    rw [hsegments] at hpre ⊢
    obtain ⟨rfl, hrest⟩ := List.cons_prefix_cons.mp hpre
    cases rest with
    | nil => exact absurd hsegments (hnone e he)
    | cons name rest =>
      obtain ⟨rfl, hend⟩ := List.cons_prefix_cons.mp hrest
      rw [List.prefix_nil.mp hend]

/-- **Profiles do not interfere.** Take any sources of frozen trees and any edits of a builder over them that write
    nothing at the table of profiles itself, and write anything more inside one profile. If the loaders that are built
    without this and with it both resolve, the default profile is the same in both, every other profile but the one
    written to is the same in both, and no other name is declared in one of them alone. -/
theorem profiles_do_not_interfere {base defaults : Option Source} {settings : Option Settings} {es : List Edit}
    (hes : ∀ e ∈ es, e.Distinct)
    (hnone : ∀ e ∈ ((Builder.new base defaults settings).edits es).writes, e.1.segments ≠ [profilesKey])
    {n : String} {c : Call} (hc : c.Distinct)
    (h : ((Builder.new base defaults settings).edits es).Serves w config)
    (h' : ((Builder.new base defaults settings).edits
      (es ++ [.declare (.scalar (.text n)), .writeIn n c])).Serves w config') : config.SameBut n config' := by
  have hsound : ((Builder.new base defaults settings).edits es).writes.Sound :=
    (extends_edits _ hes).sound Writes.sound_nil
  rw [edits_append, edits_cons, edits_cons, edits_nil] at h'
  generalize (Builder.new base defaults settings).edits es = b at hnone h h' hsound
  -- the declaration changes nothing that is laid over anything
  have hdeclare : b.Extends (b.edit (.declare (.scalar (.text n)))) := extends_edit b trivial
  have hwrites := writes_edit_declare b (.scalar (.text n))
  generalize b.edit (.declare (.scalar (.text n))) = declared at h' hdeclare hwrites
  have hextends : b.Extends (declared.edit (.writeIn n c)) := hdeclare.trans (extends_edit declared hc)
  obtain ⟨below, hbelow, hr, hr'⟩ := hextends.resolve h h'
  have hsame := sameApart_writeIn (hdeclare.sound hsound) (by rwa [hwrites]) n hc below
  rw [hwrites] at hsame
  exact Config.sameBut_of_resolve (hsound.tree_frozen.merge hbelow)
    ((hextends.sound hsound).tree_frozen.merge hbelow) hsame hr hr'

/-- A builder over a base that hides a profile, with a value written inside another one. -/
def overHidden : Builder :=
  (Builder.new (some (.fixed "mapping" [("a", .scalar (.int 1)), ("profiles", .map [("slow", .unset)])])) none
    none).edits [.declare (.scalar (.text "fast")),
      .writeIn "fast" (.value (.scalar (.text "a")) (.scalar (.int 2)))]

/-- A value written inside a profile that the base hides makes the profile appear and changes no other. -/
theorem hidden_profile_appears_alone :
    ∃ config config', overHidden.Serves (.ofEnvironment []) config ∧
      (overHidden.edits [.declare (.scalar (.text "slow")),
        .writeIn "slow" (.value (.scalar (.text "b.c")) (.scalar (.int 3)))]).Serves (.ofEnvironment []) config' ∧
      config.names = ["default", "fast"] ∧ config'.names = ["default", "fast", "slow"] ∧
      config.SameBut "slow" config' := by
  have hint : ∀ (path : Path) (k : Int), (Scalar.int k).fits → freeze path.text (.scalar (.int k)) =
      .ok (.scalar (.int k)) := by
    intro path k hk
    rw [freeze, if_pos hk]
  have hfast : overHidden =
      { base := some (.fixed "mapping" [("a", .scalar (.int 1)), ("profiles", .map [("slow", .unset)])])
        defaults := none
        settings := none
        writes := [(⟨["profiles", "fast", "a"], by decide, by decide⟩, .scalar (.int 2))]
        declared := ["fast"] } := by
    rw [overHidden, edits_cons, edits_cons, edits_nil, edit_writeIn_value _ _ rfl rfl (hint _ 2 rfl)]
    rfl
  have hslow : overHidden.edits [.declare (.scalar (.text "slow")),
        .writeIn "slow" (.value (.scalar (.text "b.c")) (.scalar (.int 3)))] =
      { base := some (.fixed "mapping" [("a", .scalar (.int 1)), ("profiles", .map [("slow", .unset)])])
        defaults := none
        settings := none
        writes := [(⟨["profiles", "fast", "a"], by decide, by decide⟩, .scalar (.int 2)),
          (⟨["profiles", "slow", "b", "c"], by decide, by decide⟩, .scalar (.int 3))]
        declared := ["fast", "slow"] } := by
    rw [hfast, edits_cons, edits_cons, edits_nil, edit_writeIn_value _ _ rfl rfl (hint _ 3 rfl)]
    rfl
  have hbase : (Source.fixed "mapping" [("a", .scalar (.int 1)), ("profiles", .map [("slow", .unset)])]).GivesTrees :=
    Source.givesTrees_fixed "mapping" (by decide)
  have hes : ∀ e ∈ [Edit.declare (.scalar (.text "fast")),
      .writeIn "fast" (.value (.scalar (.text "a")) (.scalar (.int 2)))], e.Distinct := by
    simp [Edit.Distinct, Call.Distinct]
  have hsound : overHidden.writes.Sound := (extends_edits _ hes).sound Writes.sound_nil
  have hcall : (Call.value (.scalar (.text "b.c")) (.scalar (.int 3))).Distinct := by simp [Call.Distinct]
  have hsound' : (overHidden.edits [.declare (.scalar (.text "slow")),
      .writeIn "slow" (.value (.scalar (.text "b.c")) (.scalar (.int 3)))]).writes.Sound :=
    (extends_edits _ (by simpa [Edit.Distinct] using hcall)).sound hsound
  obtain ⟨config, hserves, hnames⟩ : ∃ config, overHidden.Serves (.ofEnvironment []) config ∧
      config.names = ["default", "fast"] := by
    rw [hfast] at hsound ⊢
    exact ⟨_, ⟨.default, _, _, rfl, givesTrees_layers hsound hbase (by simp), rfl⟩, rfl⟩
  obtain ⟨config', hserves', hnames'⟩ : ∃ config', (overHidden.edits [.declare (.scalar (.text "slow")),
      .writeIn "slow" (.value (.scalar (.text "b.c")) (.scalar (.int 3)))]).Serves (.ofEnvironment []) config' ∧
      config'.names = ["default", "fast", "slow"] := by
    rw [hslow] at hsound' ⊢
    exact ⟨_, ⟨.default, _, _, rfl, givesTrees_layers hsound' hbase (by simp), rfl⟩, rfl⟩
  refine ⟨config, config', hserves, hserves', hnames, hnames', ?_⟩
  have hnone : ∀ e ∈ overHidden.writes, e.1.segments ≠ [profilesKey] := by
    rw [hfast]
    decide
  exact profiles_do_not_interfere hes hnone hcall hserves hserves'

end Builder
end LayeredConfig
