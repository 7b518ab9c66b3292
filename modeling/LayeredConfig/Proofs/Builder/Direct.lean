import LayeredConfig.Builder
import LayeredConfig.Coordinator.Basic
import LayeredConfig.Proofs.Profile.Splitting
/-!
# Loaders with and without a builder

A loader over a source written by the user resolves what the source hands out as it is. A builder without writes lays
nothing over the source, but its loader freezes what the layers make before it resolves it. Both loaders fail alike or
publish the same profiles when the raw map splits early, and the profiles have the same trees exactly when it also
prunes early (`direct_and_built_loaders_match`); a source that hands out a frozen tree needs neither condition
(`servedAlike_of_frozen`).
-/
namespace LayeredConfig

/-- What a new loader over a source answers first. -/
def Source.firstServed (source : Source) (w : World) : Outcome Config :=
  (Coordinator.fresh.demand source.feed w).result

/-- The source of a loader that a builder without writes makes over another. -/
def Source.underNoWrites (source : Source) : Source := .layered [source, .fixed "overrides" []]

namespace Config

variable {m : RawMap} {t : Tree}

theorem resolve_loose_eq (hm : m.Distinct) (ht : freezeTree "tree" (.map m) = .ok t) (generation : Int) :
    ∃ u, resolve (.loose m) generation =
      (profilesOf (.loose m)).map fun ps => { generation := generation, tree := u, profiles := ps } := by
  obtain ⟨u, hu⟩ := RawMap.freeze_prune_comes_out hm ht
  refine ⟨u, ?_⟩
  have hpruned : (Content.loose m).pruned = .ok u := hu
  rw [resolve, hpruned]
  cases profilesOf (.loose m) <;> rfl

theorem resolve_tree_eq (t : Tree) (generation : Int) :
    resolve (.tree t) generation =
      (profilesOf (.tree t)).map fun ps => { generation := generation, tree := Tree.prune t, profiles := ps } := by
  rw [resolve]
  cases profilesOf (.tree t) <;> rfl

end Config

namespace Source

variable {m : RawMap} {t : Tree}

theorem firstServed_of_fetch {source : Source} {w w' : World} {content : Content}
    (h : source.fetch w = (.ok content, w')) : source.firstServed w = Config.resolve content 1 := by
  have hgeneration : Coordinator.fresh.generation + 1 = 1 := rfl
  change (Coordinator.fresh.advance source.feed w).result = _
  simp only [Coordinator.advance, feed, h, hgeneration]
  cases Config.resolve content 1 <;> rfl

theorem firstServed_custom (m : RawMap) (rule : ChangeRule) (w : World) :
    (Source.custom m rule).firstServed w = Config.resolve (.loose m) 1 :=
  firstServed_of_fetch (by rw [fetch])

theorem firstServed_underNoWrites (hm : m.Distinct) (ht : freezeTree "tree" (.map m) = .ok t) (rule : ChangeRule)
    (w : World) : (Source.custom m rule).underNoWrites.firstServed w = Config.resolve (.tree t) 1 := by
  have hmerged : RawMap.merge (RawMap.merge [] m) [] = m := by rw [RawMap.merge_nil hm, RawMap.merge]
  have hfetch : (Source.custom m rule).underNoWrites.fetch w = (.ok (.tree t), w) := by
    rw [underNoWrites, fetch, fetchLayers, fetch]
    simp only [Content.merge, Content.toRawMap, Value.thawEntries, fetchLayers, fetch, hmerged, Content.frozen, ht]
    rfl
  exact firstServed_of_fetch hfetch

end Source

namespace RawMap

variable {m : RawMap} {t : Tree}

/-- Whether a loader over a source that hands out a raw map and the loader of a builder over the source publish the
    same profiles first, or fail alike. -/
def ServedAlike (m : RawMap) : Prop :=
  ∀ rule w, ((Source.custom m rule).firstServed w).Matches (fun c d => c.profiles = d.profiles)
    ((Source.custom m rule).underNoWrites.firstServed w)

/-- Whether a raw map freezes and is served differently all the same. -/
def ServedApart (m : RawMap) : Prop := (∃ t, freezeTree "tree" (.map m) = .ok t) ∧ ¬ m.ServedAlike

/-- What both loaders publish comes from the profiles of the raw map and of its stored form. -/
theorem firstServed_matches {R : List (String × Tree) → List (String × Tree) → Prop} (hm : m.Distinct)
    (ht : freezeTree "tree" (.map m) = .ok t) (rule : ChangeRule) (w : World) :
    ((Source.custom m rule).firstServed w).Matches (fun c d => R c.profiles d.profiles)
        ((Source.custom m rule).underNoWrites.firstServed w) ↔
      (profilesOf (.loose m)).Matches R (profilesOf (.tree t)) := by
  obtain ⟨u, hloose⟩ := Config.resolve_loose_eq hm ht 1
  rw [Source.firstServed_custom, Source.firstServed_underNoWrites hm ht, hloose, Config.resolve_tree_eq,
    Outcome.matches_map_iff]

section Apart

variable {root : Tree} {qs : List (String × Tree)} (hm : m.Distinct) (ht : freezeTree "tree" (.map m) = .ok t)
  (hroot : freezeTree "tree" (.map (prune (m.erase profilesKey))) = .ok root) (htree : profilesOf (.tree t) = .ok qs)

include hm ht hroot htree

theorem matches_of_servedAlike (h : m.ServedAlike) :
    Outcome.Matches Eq ((m.declaredProfiles root).map ((defaultProfile, root) :: ·)) (.ok qs) := by
  rw [← profilesOf_loose_eq hroot, ← htree]
  exact (firstServed_matches hm ht (.fixed true) (.ofEnvironment [])).mp (h _ _)

theorem servedApart_of_ne {named : List (String × Tree)} (hnamed : m.declaredProfiles root = .ok named)
    (h : (defaultProfile, root) :: named ≠ qs) : m.ServedApart := by
  refine ⟨⟨t, ht⟩, fun halike => ?_⟩
  have hmatches := matches_of_servedAlike hm ht hroot htree halike
  rw [hnamed] at hmatches
  cases hmatches with
  | ok heq => exact h heq

/-- A raw map is served differently when its profiles cannot be split off before it is frozen, but afterwards. -/
theorem servedApart_of_error {f : Failure} (hnamed : m.declaredProfiles root = .error f) : m.ServedApart := by
  refine ⟨⟨t, ht⟩, fun halike => ?_⟩
  have hmatches := matches_of_servedAlike hm ht hroot htree halike
  rw [hnamed] at hmatches
  cases hmatches

end Apart

end RawMap

/-- **A loader over a source and the loader of a builder over it.** A source hands out a raw map that freezes and splits
    early. A builder over it without writes builds, and its loader answers first as a loader over the source itself
    does: both fail, with failures that differ in a type's name at most, or both publish profiles of the same names.
    The trees of the profiles are then the same exactly when the raw map without the table of profiles prunes early. -/
theorem direct_and_built_loaders_match {m : RawMap} (hm : m.Distinct) {t : Tree}
    (ht : freezeTree "tree" (.map m) = .ok t) (h : m.SplitsEarly) (rule : ChangeRule) (settings : Option Settings)
    (w w' : World) :
    (Builder.new (some (.custom m rule)) none settings).build w =
        (.ok (settings.getD .default, (Source.custom m rule).underNoWrites), w) ∧
      ((Source.custom m rule).firstServed w').Matches
        (fun c d => c.profiles.map (·.1) = d.profiles.map (·.1) ∧
          (c.profiles = d.profiles ↔ (m.erase profilesKey).PrunesEarly))
        ((Source.custom m rule).underNoWrites.firstServed w') := by
  constructor
  · cases settings <;> rfl
  · exact (RawMap.firstServed_matches hm ht rule w').mpr (RawMap.profilesOf_matches hm ht h)

/-- A dotted key beside a profile that hides the map which the key gives: both loaders publish the same. -/
theorem hidden_dotted_key_is_served_alike :
    ∃ c d : Config,
      (Source.custom [(.text "a.b", .scalar (.int 1)),
        (.text "profiles", .map [(.text "fast", .map [(.text "a", .unset)])])] (.fixed true)).firstServed
          (.ofEnvironment []) = .ok c ∧
      (Source.custom [(.text "a.b", .scalar (.int 1)),
        (.text "profiles", .map [(.text "fast", .map [(.text "a", .unset)])])] (.fixed true)).underNoWrites.firstServed
          (.ofEnvironment []) = .ok d ∧
      c.profiles = d.profiles ∧
      d.profiles = [("default", [("a", .map [("b", .scalar (.int 1))])]), ("fast", [])] := by
  let m : RawMap := [(.text "a.b", .scalar (.int 1)),
    (.text "profiles", .map [(.text "fast", .map [(.text "a", .unset)])])]
  let t : Tree := [("a", .map [("b", .scalar (.int 1))]), ("profiles", .map [("fast", .map [("a", .unset)])])]
  let root : Tree := [("a", .map [("b", .scalar (.int 1))])]
  have hm : m.Distinct := by simp [m, RawMap.Distinct, Raw.Distinct, Key.same]
  have ht : freezeTree "tree" (.map m) = .ok t :=
    freezeTree_eq_ok_iff.mpr (freeze_of_nested rfl (by decide))
  have hroot : freezeTree "tree" (.map (RawMap.prune (m.erase profilesKey))) = .ok root :=
    freezeTree_eq_ok_iff.mpr (freeze_of_nested rfl (by decide))
  have hsplits : m.SplitsEarly := by
    have hdeclared : ∀ declared, m.get? profilesKey = some (.map declared) →
        declared = [(.text "fast", .map [(.text "a", .unset)])] := by
      intro declared hget
      cases hget
      rfl
    constructor
    · intro e he hhead
      simp only [m, List.mem_cons, List.not_mem_nil, or_false] at he
      rcases he with rfl | rfl
      · exact absurd hhead (by decide)
      · rfl
    · intro declared hget e he
      rw [hdeclared declared hget] at he
      rw [List.mem_singleton.mp he]
      rfl
    · intro declared hget e he
      rw [hdeclared declared hget] at he
      rw [List.mem_singleton.mp he]
      simp
    · intro declared other hget hother e he body hbody
      cases hroot.symm.trans hother
      rw [hdeclared declared hget] at he
      rw [List.mem_singleton.mp he] at hbody
      cases hbody
      exact ⟨[("a", .unset)], freezeTree_thaw "tree" (t := [("a", .unset)]) (by decide)⟩
  have hprunes : (m.erase profilesKey).PrunesEarly :=
    (RawMap.freeze_prune_eq_iff (hm.erase profilesKey) hroot hroot).mp rfl
  have hbuilt : (Source.custom m (.fixed true)).underNoWrites.firstServed (.ofEnvironment []) =
      .ok { generation := 1, tree := Tree.prune t, profiles := [("default", root), ("fast", [])] } := by
    rw [Source.firstServed_underNoWrites hm ht]
    rfl
  obtain ⟨_, hmatches⟩ := direct_and_built_loaders_match hm ht hsplits (.fixed true) none (.ofEnvironment [])
    (.ofEnvironment [])
  rw [hbuilt] at hmatches
  generalize (Source.custom m (.fixed true)).firstServed (.ofEnvironment []) = answer at hmatches
  cases hmatches with
  | ok h => exact ⟨_, _, rfl, hbuilt, h.2.mpr hprunes, rfl⟩

/-- Raw maps that both loaders serve differently: with an absent value, with a tombstone under a dotted key, with a
    dotted key that leads to a profile, with a dotted name of a profile, with an absent value in place of a profile, and
    with a dotted key in a profile that leads beneath a value of the default profile. -/
theorem raw_maps_served_differently :
    RawMap.ServedApart [(.text "a", .null)] ∧
    RawMap.ServedApart [(.text "a.b", .unset)] ∧
    RawMap.ServedApart [(.text "profiles.p.a", .scalar (.int 1))] ∧
    RawMap.ServedApart [(.text "profiles", .map [(.text "p.a", .scalar (.int 1))])] ∧
    RawMap.ServedApart [(.text "profiles", .map [(.text "p", .null)])] ∧
    RawMap.ServedApart [(.text "a", .scalar (.int 1)),
      (.text "profiles", .map [(.text "p", .map [(.text "a.b", .scalar (.int 2))])])] := by
  have hempty : freezeTree "tree" (.map []) = .ok [] := freezeTree_thaw "tree" Tree.frozen_nil
  have htable : freeze "tree" (.map [(.text "profiles", .map [(.text "p.a", .scalar (.int 1))])]) =
      .ok (.map [("profiles", .map [("p", .map [("a", .scalar (.int 1))])])]) :=
    freeze_singleton (by decide) (freeze_of_nested (t := [("p", .map [("a", .scalar (.int 1))])]) rfl (by decide))
  refine ⟨?_, ?_, ?_, ?_, ?_, ?_⟩
  · have ht : freezeTree "tree" (.map [(.text "a", .null)]) = .ok [("a", .unset)] :=
      freezeTree_eq_ok_iff.mpr (freeze_singleton (by decide) (by rw [freeze]))
    exact RawMap.servedApart_of_ne (by simp [RawMap.Distinct, Raw.Distinct]) ht ht rfl rfl (by rintro ⟨⟩)
  · have ht : freezeTree "tree" (.map [(.text "a.b", .unset)]) = .ok [("a", .map [("b", .unset)])] :=
      freezeTree_eq_ok_iff.mpr (freeze_of_nested rfl (by decide))
    exact RawMap.servedApart_of_ne (by simp [RawMap.Distinct, Raw.Distinct]) ht hempty rfl rfl (by rintro ⟨⟩)
  · have ht : freezeTree "tree" (.map [(.text "profiles.p.a", .scalar (.int 1))]) =
        .ok [("profiles", .map [("p", .map [("a", .scalar (.int 1))])])] :=
      freezeTree_eq_ok_iff.mpr ((freeze_map_of_nested rfl).trans ((freeze_map_of_nested rfl).symm.trans htable))
    exact RawMap.servedApart_of_ne (by simp [RawMap.Distinct, Raw.Distinct]) ht ht rfl rfl (by rintro ⟨⟩)
  · have ht := freezeTree_eq_ok_iff.mpr htable
    exact RawMap.servedApart_of_error (by simp [RawMap.Distinct, Raw.Distinct]) ht hempty rfl rfl
  · have ht : freezeTree "tree" (.map [(.text "profiles", .map [(.text "p", .null)])]) =
        .ok [("profiles", .map [("p", .unset)])] :=
      freezeTree_eq_ok_iff.mpr (freeze_singleton (by decide) (freeze_singleton (by decide) (by rw [freeze])))
    exact RawMap.servedApart_of_error (by simp [RawMap.Distinct, Raw.Distinct]) ht hempty rfl rfl
  · let m : RawMap := [(.text "a", .scalar (.int 1)),
      (.text "profiles", .map [(.text "p", .map [(.text "a.b", .scalar (.int 2))])])]
    let root : Tree := [("a", .scalar (.int 1))]
    let t : Tree := root ++ [("profiles", .map [("p", .map [("a", .map [("b", .scalar (.int 2))])])])]
    have ht : freezeTree "tree" (.map m) = .ok t := by
      rw [freezeTree_eq_ok_iff, freeze_map_eq_ok_iff]
      refine ⟨m, t, rfl, freezeEntries_eq_ok_iff.mpr ?_, rfl⟩
      refine .cons ⟨rfl, by decide, freeze_thaw _ (.scalar (.int 1)) (by decide)⟩ (.cons ⟨rfl, by decide, ?_⟩ .nil)
      apply freeze_singleton (by decide)
      exact freeze_of_nested (t := [("a", .map [("b", .scalar (.int 2))])]) rfl (by decide)
    have hroot : freezeTree "tree" (.map [(.text "a", .scalar (.int 1))]) = .ok root :=
      freezeTree_thaw "tree" (t := root) (by decide)
    -- the overlay of the table has a value at `a` and another beneath it
    have hclash : RawMap.layLoose root [(.text "a.b", .scalar (.int 2))] = .error (.givenTwice "tree.a") := by
      have hnested : RawMap.nestDotted "tree" [(.text "a", .scalar (.int 1)), (.text "a.b", .scalar (.int 2))] =
        .error (.givenTwice "tree.a") := rfl
      change (freezeTree "tree" (.map [(.text "a", .scalar (.int 1)), (.text "a.b", .scalar (.int 2))]) >>= _) = _
      rw [freezeTree, hnested]
      rfl
    have hdeclared : m.declaredProfiles root = .error (.givenTwice "tree.a") := by
      change profilesFrom (RawMap.layLoose root) [(.text "p", .table [(.text "a.b", .scalar (.int 2))])] = _
      have hname : (Key.text "p").toRaw.profileName = .ok "p" := rfl
      rw [profilesFrom, if_neg (by decide), hname]
      simp only [hclash]
    exact RawMap.servedApart_of_error (by simp [RawMap.Distinct, Raw.Distinct, Key.same]) ht hroot rfl hdeclared

/-- **A source that hands out a frozen tree** is served as well without a builder. -/
theorem servedAlike_of_frozen {t : Tree} (h : t.Frozen) : RawMap.ServedAlike (Value.thawEntries t) := fun rule w =>
  (RawMap.firstServed_matches h.thaw_distinct (freezeTree_thaw "tree" h) rule w).mpr h.profilesOf_thaw_matches

end LayeredConfig
