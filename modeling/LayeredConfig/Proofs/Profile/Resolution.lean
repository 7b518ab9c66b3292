import LayeredConfig.Profile.Basic
import LayeredConfig.Proofs.Profile.Inheritance
/-!
# What a pass resolves

A tree resolves when its profiles come out (`resolve_tree_eq_ok_iff`), and its default profile is the tree without
the table of profiles and without tombstones (`profile_default`). The generation is a mere number: the same content
resolves to the same tree and profiles at every generation (`resolve_generation`).
-/
namespace LayeredConfig.Config

theorem resolve_tree_eq_ok_iff {t : Tree} {generation : Int} {config : Config} :
    resolve (.tree t) generation = .ok config ↔
      ∃ named, t.declaredProfiles (Tree.prune (t.erase profilesKey)) = .ok named ∧
        config = ⟨generation, Tree.prune t, (defaultProfile, Tree.prune (t.erase profilesKey)) :: named⟩ := by
  unfold resolve
  constructor
  · intro h
    obtain ⟨profiles, hprofiles, h⟩ := Outcome.bind_eq_ok_iff.mp h
    obtain ⟨named, hnamed, rfl⟩ := Tree.profilesOf_tree_eq_ok_iff.mp hprofiles
    cases h
    exact ⟨named, hnamed, rfl⟩
  · intro h
    obtain ⟨named, hnamed, rfl⟩ := h
    exact Outcome.bind_eq_ok_iff.mpr ⟨_, Tree.profilesOf_tree_eq_ok_iff.mpr ⟨named, hnamed, rfl⟩, rfl⟩

theorem resolve_comes_out {t u : Tree} (hget : t.get? profilesKey = u.get? profilesKey) {generation : Int}
    {config : Config} (h : resolve (.tree t) generation = .ok config) (other : Int) :
    ∃ config', resolve (.tree u) other = .ok config' := by
  obtain ⟨named, hnamed, _⟩ := resolve_tree_eq_ok_iff.mp h
  obtain ⟨named', hnamed'⟩ := Tree.declaredProfiles_comes_out hget hnamed
  exact ⟨_, resolve_tree_eq_ok_iff.mpr ⟨named', hnamed', rfl⟩⟩

/-- The default profile is the tree without its table of profiles and without tombstones. -/
theorem profile_default {t : Tree} {generation : Int} {config : Config}
    (h : resolve (.tree t) generation = .ok config) :
    config.profile defaultProfile =
      .ok { name := defaultProfile, tree := Tree.prune (t.erase profilesKey), generation := generation } := by
  obtain ⟨named, _, rfl⟩ := resolve_tree_eq_ok_iff.mp h
  simp [profile]

theorem profile_eq_ok_iff {t : Tree} (ht : t.Frozen) {generation : Int} {config : Config}
    (h : resolve (.tree t) generation = .ok config) {name : String} (hname : name ≠ defaultProfile)
    {snapshot : Snapshot} :
    config.profile name = .ok snapshot ↔
      ∃ body, t.find? [profilesKey, name] = some (.map body) ∧
        snapshot = { name, tree := effectiveTree (Tree.prune (t.erase profilesKey)) body, generation } := by
  obtain ⟨named, hnamed, rfl⟩ := resolve_tree_eq_ok_iff.mp h
  have hmem : ∀ eff, (name, eff) ∈ named ↔ ∃ body, t.find? [profilesKey, name] = some (.map body) ∧
      eff = effectiveTree (Tree.prune (t.erase profilesKey)) body :=
    fun _ => Tree.mem_declaredProfiles_iff ht hnamed
  have hfind : ((defaultProfile, Tree.prune (t.erase profilesKey)) :: named).find? (·.1 == name) =
      named.find? (·.1 == name) := List.find?_cons_of_neg (by simpa using hname.symm)
  rw [profile, hfind]
  cases hfound : named.find? (·.1 == name) with
  | none =>
    have hnone : ∀ eff, (name, eff) ∉ named := by
      intro eff he
      simpa using List.find?_eq_none.mp hfound _ he
    constructor
    · nofun
    · intro hbody
      obtain ⟨body, hbody, _⟩ := hbody
      exact absurd ((hmem _).mpr ⟨body, hbody, rfl⟩) (hnone _)
  | some found =>
    obtain ⟨other, eff⟩ := found
    have hother : other = name := by simpa using List.find?_some hfound
    cases hother
    obtain ⟨body, hbody, rfl⟩ := (hmem eff).mp (List.mem_of_find?_eq_some hfound)
    simp [hbody, eq_comm]

theorem generation_of_resolve {content : Content} {generation : Int} {config : Config}
    (h : resolve content generation = .ok config) : config.generation = generation := by
  unfold resolve at h
  obtain ⟨profiles, _, h⟩ := Outcome.bind_eq_ok_iff.mp h
  obtain ⟨tree, _, h⟩ := Outcome.bind_eq_ok_iff.mp h
  cases h
  rfl

theorem name_of_profile {config : Config} {name : String} {snapshot : Snapshot}
    (h : config.profile name = .ok snapshot) : snapshot.name = name := by
  rw [profile] at h
  split at h
  · cases h
    rfl
  · cases h

theorem mem_names {config : Config} {name : String} :
    name ∈ config.names ↔ ∃ snapshot, config.profile name = .ok snapshot := by
  rw [names, sortTexts, (sortOrdered_perm _).mem_iff, profile]
  cases hfind : config.profiles.find? (·.1 == name) with
  | none =>
    have hnone := List.find?_eq_none.mp hfind
    constructor
    · intro hmem
      obtain ⟨e, he, heq⟩ := List.mem_map.mp hmem
      exact absurd (beq_iff_eq.mpr heq) (hnone e he)
    · nofun
  | some found =>
    have hmem := List.mem_of_find?_eq_some hfind
    have hname : found.1 = name := by simpa using List.find?_some hfind
    simpa using ⟨found.2, hname ▸ hmem⟩

theorem profile_eq_error_iff {config : Config} {name : String} {failure : Failure} :
    config.profile name = .error failure ↔
      config.contains name = false ∧ failure = .profileMissing name (config.profiles.map (·.1)) := by
  rw [profile, contains]
  cases hfind : config.profiles.find? (·.1 == name) with
  | none =>
    have hnone : config.profiles.any (·.1 == name) = false :=
      List.any_eq_false.mpr (List.find?_eq_none.mp hfind)
    simp [hnone, eq_comm]
  | some found =>
    have hsome : config.profiles.any (·.1 == name) = true := by
      have hname := List.find?_some hfind
      exact List.any_eq_true.mpr ⟨found, List.mem_of_find?_eq_some hfind, hname⟩
    simp [hsome]

theorem generation_of_profile {config : Config} {name : String} {snapshot : Snapshot}
    (h : config.profile name = .ok snapshot) : snapshot.generation = config.generation := by
  rw [profile] at h
  split at h
  · cases h
    rfl
  · cases h

/-- Whether two configurations have the same tree and the same profiles, whatever their generations. -/
def SameContent (c d : Config) : Prop := c.tree = d.tree ∧ c.profiles = d.profiles

theorem resolve_generation {content : Content} {generation : Int} {config : Config}
    (h : resolve content generation = .ok config) (other : Int) :
    resolve content other = .ok { config with generation := other } := by
  unfold resolve at h ⊢
  obtain ⟨profiles, hprofiles, h⟩ := Outcome.bind_eq_ok_iff.mp h
  obtain ⟨tree, htree, h⟩ := Outcome.bind_eq_ok_iff.mp h
  cases h
  exact Outcome.bind_eq_ok_iff.mpr ⟨profiles, hprofiles, Outcome.bind_eq_ok_iff.mpr ⟨tree, htree, rfl⟩⟩

theorem sameContent_of_resolve {content : Content} {generation other : Int} {config config' : Config}
    (h : resolve content generation = .ok config) (h' : resolve content other = .ok config') :
    config.SameContent config' := by
  rw [resolve_generation h other] at h'
  cases h'
  exact ⟨rfl, rfl⟩

end LayeredConfig.Config
