import LayeredConfig.Profile.Split
import LayeredConfig.Proofs.Reference
import LayeredConfig.Proofs.Tree.Leaves
import LayeredConfig.Proofs.Tree.Overlay
/-!
# What profiles inherit

The effective tree of a declared profile is its own table over the default profile: it lists a leaf when the table
holds it, and when the table does not decide the place and the default profile lists it
(`mem_flatten_effectiveTree_iff`). Each profile that a tree has, the default one apart, is of this form
(`mem_declaredProfiles`).
-/
namespace LayeredConfig

/-! ## Which profiles a tree has -/

theorem Key.eq_text_of_profileName {key : Key} {name : String} (h : key.toRaw.profileName = .ok name) :
    key = .text name := by
  have hname := (Raw.profileName_eq_ok_iff.mp h).1
  cases key with
  | text s =>
    cases hname
    rfl
  | _ => cases hname

theorem mem_profilesFrom {α : Type} {overlay : α → Outcome Tree} {entries : List (Key × ProfileBody α)}
    {ps : List (String × Tree)} (h : profilesFrom overlay entries = .ok ps) {name : String} {t : Tree}
    (hm : (name, t) ∈ ps) : ∃ body, (Key.text name, .table body) ∈ entries ∧ overlay body = .ok t := by
  induction entries generalizing ps with
  | nil =>
    rw [profilesFrom] at h
    cases h
    cases hm
  | cons e rest ih =>
    obtain ⟨key, body⟩ := e
    have lift : ∀ {qs}, profilesFrom overlay rest = .ok qs → (name, t) ∈ qs →
        ∃ body', (Key.text name, .table body') ∈ (key, body) :: rest ∧ overlay body' = .ok t := by
      intro qs hq hmem
      obtain ⟨body', hb, ho⟩ := ih hq hmem
      exact ⟨body', List.mem_cons_of_mem _ hb, ho⟩
    rw [profilesFrom] at h
    split at h
    · cases h
    · split at h
      · cases h
      · rename_i n hn
        split at h
        · exact lift h hm
        · cases h
        · rename_i entries
          split at h
          · cases h
          · rename_i u hu
            obtain ⟨qs, hq, rfl⟩ := Outcome.map_eq_ok_iff.mp h
            rcases List.mem_cons.mp hm with hm | hm
            · cases hm
              exact ⟨entries, by rw [Key.eq_text_of_profileName hn]; exact List.mem_cons_self, hu⟩
            · exact lift hq hm

theorem mem_profilesFrom_of_table {α : Type} {overlay : α → Outcome Tree} {entries : List (Key × ProfileBody α)}
    {ps : List (String × Tree)} (h : profilesFrom overlay entries = .ok ps) {name : String} {body : α}
    (hm : (Key.text name, .table body) ∈ entries) : ∃ t, overlay body = .ok t ∧ (name, t) ∈ ps := by
  induction entries generalizing ps with
  | nil => cases hm
  | cons e rest ih =>
    obtain ⟨key, first⟩ := e
    rw [profilesFrom] at h
    split at h
    · cases h
    · split at h
      · cases h
      · rename_i n hn
        split at h
        · rcases List.mem_cons.mp hm with hm | hm
          · cases hm
          · exact ih h hm
        · cases h
        · rename_i table
          split at h
          · cases h
          · rename_i t ht
            obtain ⟨qs, hq, rfl⟩ := Outcome.map_eq_ok_iff.mp h
            rcases List.mem_cons.mp hm with hm | hm
            · cases hm
              cases Key.eq_text_of_profileName hn
              exact ⟨t, ht, List.mem_cons_self⟩
            · obtain ⟨u, hu, hmem⟩ := ih hq hm
              exact ⟨u, hu, List.mem_cons_of_mem _ hmem⟩

/-- Whether profiles come out depends on their names and tables alone, if every table can be laid over. -/
theorem profilesFrom_comes_out {α : Type} {overlay other : α → Outcome Tree} (ho : ∀ body, ∃ t, other body = .ok t)
    {entries : List (Key × ProfileBody α)} {ps : List (String × Tree)} (h : profilesFrom overlay entries = .ok ps) :
    ∃ qs, profilesFrom other entries = .ok qs := by
  induction entries generalizing ps with
  | nil => exact ⟨[], by rw [profilesFrom]⟩
  | cons e rest ih =>
    obtain ⟨key, body⟩ := e
    rw [profilesFrom] at h ⊢
    split at h
    · cases h
    · rename_i hkey
      rw [if_neg hkey]
      split at h
      · cases h
      · rename_i name _
        split at h
        · exact ih h
        · cases h
        · rename_i table
          split at h
          · cases h
          · obtain ⟨qs, hq, _⟩ := Outcome.map_eq_ok_iff.mp h
            obtain ⟨rs, hr⟩ := ih hq
            obtain ⟨t, ht⟩ := ho table
            exact ⟨(name, t) :: rs, by simp [ht, hr, Except.map]⟩

theorem Value.eq_map_of_asBody {v : Value} {body : Tree} (h : v.asBody = .table body) : v = .map body := by
  cases v with
  | map t =>
    cases h
    rfl
  | _ => cases h

namespace Tree

theorem mem_declaredProfiles {t root : Tree} {ps : List (String × Tree)} (h : t.declaredProfiles root = .ok ps)
    {name : String} {eff : Tree} (hm : (name, eff) ∈ ps) :
    ∃ declared body : Tree, t.get? profilesKey = some (.map declared) ∧ (name, .map body) ∈ declared ∧
      eff = effectiveTree root body := by
  rw [declaredProfiles] at h
  split at h
  · cases h
    cases hm
  · cases h
    cases hm
  · rename_i declared hg
    obtain ⟨body, hb, heff⟩ := mem_profilesFrom h hm
    obtain ⟨⟨n, v⟩, he, heq⟩ := List.mem_map.mp hb
    obtain ⟨hname, hbody⟩ := Prod.mk.inj heq
    cases hname
    cases heff
    exact ⟨declared, body, hg, Value.eq_map_of_asBody hbody ▸ he, rfl⟩
  · cases h

theorem mem_declaredProfiles_iff {t root : Tree} (ht : t.Frozen) {ps : List (String × Tree)}
    (h : t.declaredProfiles root = .ok ps) {name : String} {eff : Tree} :
    (name, eff) ∈ ps ↔ ∃ body, t.find? [profilesKey, name] = some (.map body) ∧ eff = effectiveTree root body := by
  constructor
  · intro hm
    obtain ⟨declared, body, hg, hbody, heff⟩ := mem_declaredProfiles h hm
    have hdeclared : declared.Frozen := frozen_map.mp (ht.of_get? hg)
    exact ⟨body, by simp [find?_cons, hg, get?_of_mem hdeclared hbody], heff⟩
  · intro hf
    obtain ⟨body, hf, rfl⟩ := hf
    obtain ⟨declared, hd⟩ : ∃ declared, t.find? [profilesKey] = some (.map declared) :=
      exists_map_above (List.cons_ne_nil name []) hf
    have hg : t.get? profilesKey = some (.map declared) := by simpa [find?_cons] using hd
    have hbody : (name, .map body) ∈ declared := mem_of_get? (by simpa [find?_cons, hg] using hf)
    rw [declaredProfiles, hg] at h
    obtain ⟨_, heff, hmem⟩ := mem_profilesFrom_of_table h (List.mem_map.mpr ⟨_, hbody, rfl⟩)
    cases heff
    exact hmem

theorem declaredProfiles_comes_out {t u : Tree} (hget : t.get? profilesKey = u.get? profilesKey) {root root' : Tree}
    {ps : List (String × Tree)} (h : t.declaredProfiles root = .ok ps) :
    ∃ qs, u.declaredProfiles root' = .ok qs := by
  rw [declaredProfiles, hget] at h
  rw [declaredProfiles]
  split at h
  · exact ⟨_, rfl⟩
  · exact ⟨_, rfl⟩
  · exact profilesFrom_comes_out (fun body => ⟨_, rfl⟩) h
  · cases h

theorem profilesOf_tree_eq_ok_iff {t : Tree} {ps : List (String × Tree)} :
    profilesOf (.tree t) = .ok ps ↔
      ∃ named, t.declaredProfiles (prune (t.erase profilesKey)) = .ok named ∧
        ps = (defaultProfile, prune (t.erase profilesKey)) :: named := by
  have hroot : (Content.erase (.tree t) profilesKey).pruned = .ok (prune (t.erase profilesKey)) := rfl
  rw [profilesOf]
  constructor
  · intro h
    obtain ⟨root, hr, h⟩ := Outcome.bind_eq_ok_iff.mp h
    obtain ⟨named, hnamed, h⟩ := Outcome.bind_eq_ok_iff.mp h
    rw [hroot] at hr
    cases hr
    cases h
    exact ⟨named, hnamed, rfl⟩
  · intro h
    obtain ⟨named, hnamed, rfl⟩ := h
    exact Outcome.bind_eq_ok_iff.mpr ⟨_, hroot, Outcome.bind_eq_ok_iff.mpr ⟨named, hnamed, rfl⟩⟩

/-! ## What their effective trees list -/

/-- A profile lists what its table holds, and what the default profile lists where the table does not decide. -/
theorem mem_flatten_effectiveTree_iff {u body : Tree} (hu : u.Frozen) (hb : body.Frozen) (path : String) (v : Value) :
    (path, v) ∈ flatten (effectiveTree (prune u) body) ↔
      (body.find? (dottedPieces path) = some v ∧ v.isLeaf ∧ v ≠ .unset) ∨
        ¬ body.Decides (dottedPieces path) ∧ (path, v) ∈ flatten (prune u) := by
  have hmerge : (merge (prune u) body).Frozen := hb.merge hu.prune
  rw [effectiveTree, mem_flatten_iff hmerge.prune, mem_flatten_iff hu.prune]
  by_cases hv : v.isLeaf
  · rw [find?_prune_iff hmerge hv, find?_merge_iff hb hv, find?_prune_iff hu hv]
    constructor
    · intro h
      obtain ⟨⟨hf | ⟨hnot, hf⟩, hne⟩, _⟩ := h
      · exact .inl ⟨hf, hv, hne⟩
      · exact .inr ⟨hnot, hf, hv⟩
    · intro h
      rcases h with ⟨hf, _, hne⟩ | ⟨hnot, hf, _⟩
      · exact ⟨⟨.inl hf, hne⟩, hv⟩
      · exact ⟨⟨.inr ⟨hnot, hf⟩, hf.2⟩, hv⟩
  · simp [hv]

/-- **A profile inherits what its table does not decide.** Of a frozen tree whose profiles come out, every profile
    but the default one has a table of its own in the tree. Laid over the default profile the table makes a frozen
    tree, and the profile lists a leaf exactly when the table holds it, or when the table does not decide the place
    and the default profile lists it. -/
theorem profile_inherits_what_its_table_leaves_open {t : Tree} (ht : t.Frozen) {ps : List (String × Tree)}
    (hps : profilesOf (.tree t) = .ok ps) {name : String} {eff : Tree} (hm : (name, eff) ∈ ps)
    (hname : name ≠ defaultProfile) :
    ∃ body root : Tree, t.find? [profilesKey, name] = some (.map body) ∧ (defaultProfile, root) ∈ ps ∧
      root = prune (t.erase profilesKey) ∧
      freezeTree "tree" (.map (Value.thawEntries (merge root body))) = .ok (merge root body) ∧
      ∀ path v, (path, v) ∈ eff.flatten ↔
        (body.find? (dottedPieces path) = some v ∧ v.isLeaf ∧ v ≠ .unset) ∨
          ¬ body.Decides (dottedPieces path) ∧ (path, v) ∈ root.flatten := by
  obtain ⟨named, hnamed, rfl⟩ := profilesOf_tree_eq_ok_iff.mp hps
  -- the default profile comes first, so any other is one of those that the table declares
  have hmem : (name, eff) ∈ named := by
    rcases List.mem_cons.mp hm with hm | hm
    · exact absurd (Prod.mk.inj hm).1 hname
    · exact hm
  obtain ⟨declared, body, hg, hbody, rfl⟩ := mem_declaredProfiles hnamed hmem
  have hdeclared : declared.Frozen := frozen_map.mp (ht.of_get? hg)
  have hb : body.Frozen := frozen_map.mp (hdeclared.value_of_mem hbody)
  have hroot : (t.erase profilesKey).Frozen := ht.erase profilesKey
  refine ⟨body, _, ?_, List.mem_cons_self, rfl, freezeTree_thaw _ (hb.merge hroot.prune), ?_⟩
  · simp [find?_cons, hg, get?_of_mem hdeclared hbody]
  · exact mem_flatten_effectiveTree_iff hroot hb

/-- A profile that hides one option of the default profile inherits the other. -/
theorem profile_with_a_tombstone_inherits_the_rest :
    Frozen [("a", .scalar (.int 1)), ("b", .scalar (.int 2)), ("profiles", .map [("fast", .map [("a", .unset)])])] ∧
      profilesOf (.tree [("a", .scalar (.int 1)), ("b", .scalar (.int 2)),
        ("profiles", .map [("fast", .map [("a", .unset)])])]) =
        .ok [("default", [("a", .scalar (.int 1)), ("b", .scalar (.int 2))]), ("fast", [("b", .scalar (.int 2))])] ∧
      "fast" ≠ defaultProfile ∧
      ("b", .scalar (.int 2)) ∈ flatten [("b", .scalar (.int 2))] ∧
      ("a", .scalar (.int 1)) ∉ flatten [("b", .scalar (.int 2))] := by
  have hfrozen : Frozen [("a", .scalar (.int 1)), ("b", .scalar (.int 2)),
      ("profiles", .map [("fast", .map [("a", .unset)])])] := by decide
  have hne : "fast" ≠ defaultProfile := by decide
  refine ⟨hfrozen, rfl, hne, ?_⟩
  obtain ⟨body, root, hbody, _, hroot, _, hiff⟩ :=
    profile_inherits_what_its_table_leaves_open hfrozen rfl (List.mem_cons_of_mem _ List.mem_cons_self) hne
  cases hbody
  constructor
  · refine (hiff "b" (.scalar (.int 2))).mpr (.inr ⟨?_, ?_⟩)
    · rw [show dottedPieces "b" = ["b"] from rfl]
      simp [decides_cons, get?]
    · rw [hroot]
      exact List.mem_cons_of_mem _ List.mem_cons_self
  · intro h
    rcases (hiff "a" (.scalar (.int 1))).mp h with ⟨hf, _⟩ | ⟨hnot, _⟩
    · cases hf
    · exact hnot (decides_of_find? rfl)

end Tree
end LayeredConfig
