import LayeredConfig.Proofs.Profile.Offered
import LayeredConfig.Proofs.Session.Requests
import LayeredConfig.Proofs.Tree.Order
/-!
# The entries of profiles

The paths that a profile lists ascend, compared key by key, and as texts they ascend exactly when no leaf of the
profile overtakes another (`listed_paths_ascend_iff`). An entry that is listed can be read under its path exactly when
the path is not padded (`listed_entry_is_readable_iff`): freezing takes any key that is not empty, but no segment of a
path may begin or end with a blank.
-/
namespace LayeredConfig

/-! ## Reading what is listed -/

theorem Session.run_isDefined {ref : ProfileRef} {s s' : State} {p : Profile}
    (h : (effective ref).run s = (.ok p, s')) (option : Raw) :
    (isDefined ref option).run s = (option.referredPath.map p.isDefined, s') := by
  rw [isDefined, run_bind, h]
  dsimp only
  rw [run_bind, run_done]
  cases option.referredPath <;> rfl

namespace Profile

variable {p : Profile} {path : String} {v : Value}

theorem keys_of_mem_entries (hp : p.tree.Frozen) (h : (path, v) ∈ p.entries) : ∀ s ∈ dottedPieces path, IsKey s :=
  (hp.of_find? ((Tree.mem_flatten_iff hp).mp h).1).2

theorem lookup?_of_mem_entries (hp : p.tree.Frozen) (h : (path, v) ∈ p.entries) (hne : v ≠ .unset) {q : Path}
    (hq : q.segments = dottedPieces path) : p.tree.lookup? q.segments = some v := by
  obtain ⟨hfound, _⟩ := (Tree.mem_flatten_iff hp).mp h
  exact hq ▸ Tree.lookup?_of_find? hfound hne

theorem isDefined_of_lookup? {q : Path} (h : p.tree.lookup? q.segments = some v) : p.isDefined q = true := by
  rw [isDefined, h]
  rfl

end Profile

/-- **An entry that is listed can be read exactly when its path is not padded.** Let a raw map be frozen to a tree, and
    let the tree be resolved. No entry of a profile, be it one of the configuration or derived of one by any calls, is
    a tombstone; and its path spells an option that is defined and holds the entry's value exactly when no segment of
    the path begins or ends with a blank. Otherwise the path is refused, also when a session asks for it. -/
theorem listed_entry_is_readable_iff {what : String} {m : RawMap} (hm : m.Distinct) {t : Tree}
    (ht : freezeTree what (.map m) = .ok t) {generation : Int} {config : Config}
    (hr : Config.resolve (.tree t) generation = .ok config) {calls : List Call} {p : Profile}
    (hp : config.Offers calls p) {path : String} {v : Value} (h : (path, v) ∈ p.entries) :
    v ≠ .unset ∧
      ((∃ q, Path.parse path = .ok q ∧ p.isDefined q = true ∧ p.tree.lookup? q.segments = some v) ↔
        ¬ IsPadded path) ∧
      (IsPadded path → Path.parse path = .error (.paddedPath path)) ∧
      ∀ ref s s', (Session.effective ref).run s = (.ok p, s') →
        (Session.isDefined ref (.scalar (.text path))).run s =
          (if IsPadded path then .error (.paddedPath path) else .ok true, s') := by
  have hfrozen : t.Frozen := freezeTree_frozen (RawMap.distinct_map.mpr hm) ht
  have hsound : Content.Sound (.tree t) := hfrozen
  have hpf : p.tree.Frozen := hp.frozen hsound hr
  -- a profile is a tree without its tombstones, so no tombstone is left to be listed
  have hne : v ≠ .unset := by
    obtain ⟨u, hu, htree, _⟩ := hp.exists_unpruned hfrozen hr
    obtain ⟨hfound, hleaf⟩ := (Tree.mem_flatten_iff hpf).mp h
    rw [htree, Tree.find?_prune_iff hu hleaf] at hfound
    exact hfound.2
  have hread : ¬ IsPadded path →
      ∃ q, Path.parse path = .ok q ∧ p.isDefined q = true ∧ p.tree.lookup? q.segments = some v := by
    intro hnot
    obtain ⟨q, hparse, hq⟩ := Path.exists_parse_of_not_padded (Profile.keys_of_mem_entries hpf h) hnot
    have hlookup := Profile.lookup?_of_mem_entries hpf h hne hq
    exact ⟨q, hparse, Profile.isDefined_of_lookup? hlookup, hlookup⟩
  refine ⟨hne, ⟨?_, hread⟩, Path.parse_of_padded, ?_⟩
  · intro hq hpadded
    obtain ⟨q, hparse, _⟩ := hq
    rw [Path.parse_of_padded hpadded] at hparse
    cases hparse
  · intro ref s s' heff
    rw [Session.run_isDefined heff, Raw.referredPath]
    split
    · rename_i hpadded
      rw [Path.parse_of_padded hpadded]
      rfl
    · rename_i hnot
      obtain ⟨q, hparse, hdefined, _⟩ := hread hnot
      rw [hparse]
      show (Except.ok (p.isDefined q), s') = _
      rw [hdefined]

/-- The profile derived of the default one by a tombstone at `a.b` lists `a.c`, which can be read. -/
theorem entry_beside_a_tombstone_is_readable :
    ∃ (t : Tree) (config : Config) (p : Profile),
      freezeTree "tree" (.map [(.text "a", .map [(.text "b", .scalar (.int 1)), (.text "c", .scalar (.int 2))])]) =
        .ok t ∧
      Config.resolve (.tree t) 1 = .ok config ∧ config.Offers [.unset (.scalar (.text "a.b"))] p ∧
      p.entries = [("a.c", .scalar (.int 2))] ∧
      ∃ q, Path.parse "a.c" = .ok q ∧ p.isDefined q = true ∧ p.tree.lookup? q.segments = some (.scalar (.int 2)) := by
  let t : Tree := [("a", .map [("b", .scalar (.int 1)), ("c", .scalar (.int 2))])]
  let p : Profile := ⟨defaultProfile, [("a", .map [("c", .scalar (.int 2))])]⟩
  have ht : t.Frozen := by decide
  have hwritten : (Call.unset (.scalar (.text "a.b"))).written = .ok (⟨["a", "b"], by decide, by decide⟩, .unset) := by
    rw [Call.written_of_given rfl, freeze]
    rfl
  have hcalls : Overrides.ofCalls [.unset (.scalar (.text "a.b"))] =
      [(⟨["a", "b"], by decide, by decide⟩, .unset)] := by
    rw [Overrides.ofCalls, List.foldl_cons, Overrides.afterCall, hwritten]
    rfl
  have hoffered : Config.Offers ⟨1, t, [(defaultProfile, t)]⟩ [.unset (.scalar (.text "a.b"))] p := by
    have hprofile : Config.profile ⟨1, t, [(defaultProfile, t)]⟩ defaultProfile = .ok ⟨⟨defaultProfile, t⟩, 1⟩ := rfl
    have h := Config.Offers.derived hprofile [.unset (.scalar (.text "a.b"))] (by simp [Call.Distinct])
    rwa [hcalls] at h
  have hfreeze := freezeTree_thaw "tree" ht
  have hmem : ("a.c", .scalar (.int 2)) ∈ p.entries := List.mem_cons_self
  exact ⟨t, _, p, hfreeze, rfl, hoffered, rfl,
    (listed_entry_is_readable_iff (Tree.Frozen.thaw_distinct t ht) hfreeze rfl hoffered hmem).2.1.mpr (by decide)⟩

/-- An entry under a key that begins with a blank is listed, and cannot be read. -/
theorem entry_under_a_padded_key_is_refused :
    ∃ (t : Tree) (config : Config) (p : Profile),
      freezeTree "tree" (.map [(.text " a", .scalar (.int 1))]) = .ok t ∧
      Config.resolve (.tree t) 1 = .ok config ∧ config.Offers [] p ∧
      (" a", .scalar (.int 1)) ∈ p.entries ∧ Value.scalar (.int 1) ≠ .unset ∧
      ∀ q, Path.parse " a" ≠ .ok q := by
  let t : Tree := [(" a", .scalar (.int 1))]
  let snapshot : Snapshot := ⟨⟨defaultProfile, t⟩, 1⟩
  have ht : t.Frozen := by decide
  have hprofile : Config.profile ⟨1, t, [(defaultProfile, t)]⟩ defaultProfile = .ok snapshot := rfl
  refine ⟨t, _, _, freezeTree_thaw "tree" ht, rfl, .own hprofile, List.mem_cons_self, nofun, ?_⟩
  intro q hq
  cases hq

/-! ## The order of what is listed -/

/-- **The paths that are listed ascend exactly when no leaf overtakes another.** The entries of a frozen tree, and those
    of every profile that any content resolves to or that calls derive of such a profile, stand in ascending order
    of their paths compared key by key. The texts of the paths ascend exactly when no entry's path goes on beneath a
    key while another entry's path has, beside that key, a longer one that goes on with a character before the dot. -/
theorem listed_paths_ascend_iff {t : Tree} (ht : t.Frozen) :
    (t.flatten.map fun e => dottedPieces e.1).Pairwise (· < ·) ∧
      ((t.flatten.map (·.1)).Pairwise (· < ·) ↔ ¬ t.Overtaken) ∧
      ∀ (content : Content) (generation : Int) (config : Config) (calls : List Call) (p : Profile),
        content.Sound → Config.resolve content generation = .ok config → config.Offers calls p →
          (p.entries.map fun e => dottedPieces e.1).Pairwise (· < ·) ∧
            ((p.entries.map (·.1)).Pairwise (· < ·) ↔ ¬ p.tree.Overtaken) := by
  refine ⟨Tree.flatten_keys_ascending ht, Tree.flatten_ascending_iff ht, ?_⟩
  intro content generation config calls p hc hr hp
  have hpf : p.tree.Frozen := hp.frozen hc hr
  exact ⟨Tree.flatten_keys_ascending hpf, Tree.flatten_ascending_iff hpf⟩

/-- The path of a leaf beneath `a` comes before the path `a0`, for a dot comes before a digit. -/
theorem digit_is_not_overtaken :
    Tree.Frozen [("a", .map [("b", .scalar (.int 1))]), ("a0", .scalar (.int 2))] ∧
      Profile.entries ⟨defaultProfile, [("a", .map [("b", .scalar (.int 1))]), ("a0", .scalar (.int 2))]⟩ =
        [("a.b", .scalar (.int 1)), ("a0", .scalar (.int 2))] ∧
      ¬ Tree.Overtaken [("a", .map [("b", .scalar (.int 1))]), ("a0", .scalar (.int 2))] := by
  let t : Tree := [("a", .map [("b", .scalar (.int 1))]), ("a0", .scalar (.int 2))]
  let snapshot : Snapshot := ⟨⟨defaultProfile, t⟩, 1⟩
  have ht : t.Frozen := by decide
  have hprofile : Config.profile ⟨1, t, [(defaultProfile, t)]⟩ defaultProfile = .ok snapshot := rfl
  have hoffered : Config.Offers ⟨1, t, [(defaultProfile, t)]⟩ [] snapshot.toProfile := .own hprofile
  refine ⟨ht, rfl, ?_⟩
  exact ((listed_paths_ascend_iff ht).2.2 (.tree t) 1 _ [] _ ht rfl hoffered).2.mp (by decide)

/-- The path of a leaf beneath `a` is listed before the path `a-b`, which comes before it, for a dash comes before a
    dot. -/
theorem dash_is_overtaken :
    Tree.Frozen [("a", .map [("b", .scalar (.int 1))]), ("a-b", .scalar (.int 2))] ∧
      Tree.flatten [("a", .map [("b", .scalar (.int 1))]), ("a-b", .scalar (.int 2))] =
        [("a.b", .scalar (.int 1)), ("a-b", .scalar (.int 2))] ∧
      "a-b" < "a.b" ∧
      ¬ ((Tree.flatten [("a", .map [("b", .scalar (.int 1))]), ("a-b", .scalar (.int 2))]).map (·.1)).Pairwise
        (· < ·) := by
  exact ⟨by decide, rfl, by decide, by decide⟩

end LayeredConfig
