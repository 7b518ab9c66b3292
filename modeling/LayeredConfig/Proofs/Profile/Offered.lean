import LayeredConfig.Proofs.Profile.Resolution
import LayeredConfig.Proofs.Session.Derived
import LayeredConfig.Proofs.Tree.Loose
/-!
# The profiles that a configuration offers

A configuration offers its own profiles and those that any calls derive of them (`Config.Offers`). The effective tree
of each is frozen, whatever content the configuration was resolved from (`Config.Offers.frozen`). Of a configuration
that was resolved from a tree it is a frozen tree without its tombstones, and every leaf in it stood in the tree that
was resolved or in a value that one of the calls wrote (`Config.Offers.exists_unpruned`).
-/
namespace LayeredConfig

/-! ## What calls override -/

/-- The overrides that calls make, one after the other, of none. -/
def Overrides.ofCalls (calls : List Call) : Overrides := calls.foldl Overrides.afterCall []

theorem Call.written_frozen {c : Call} (hc : c.Distinct) {path : Path} {v : Value} (h : c.written = .ok (path, v)) :
    v.Frozen := by
  obtain ⟨⟨path', raw⟩, hgiven, hv⟩ := Outcome.bind_eq_ok_iff.mp h
  obtain ⟨w, hw, hwritten⟩ := Outcome.bind_eq_ok_iff.mp hv
  cases hwritten
  exact freeze_frozen raw (Call.given_distinct hc hgiven) hw

theorem Overrides.mem_foldl_afterCall {calls : List Call} {os : Overrides} {e : Path × Value}
    (h : e ∈ calls.foldl Overrides.afterCall os) : e ∈ os ∨ ∃ c ∈ calls, c.written = .ok e := by
  induction calls generalizing os with
  | nil => exact .inl h
  | cons c rest ih =>
    rcases ih h with hmem | ⟨d, hd, hwritten⟩
    · rw [afterCall] at hmem
      split at hmem
      · exact .inl hmem
      · rename_i path v hwritten
        rw [shadow] at hmem
        rcases List.mem_append.mp hmem with hold | hnew
        · exact .inl (List.mem_of_mem_filter hold)
        · exact .inr ⟨c, List.mem_cons_self, by rw [List.mem_singleton.mp hnew, hwritten]⟩
    · exact .inr ⟨d, List.mem_cons_of_mem _ hd, hwritten⟩

theorem Overrides.mem_ofCalls {calls : List Call} {e : Path × Value} (h : e ∈ ofCalls calls) :
    ∃ c ∈ calls, c.written = .ok e :=
  (mem_foldl_afterCall h).resolve_left List.not_mem_nil

theorem Overrides.ofCalls_frozen {calls : List Call} (hc : ∀ call ∈ calls, call.Distinct) :
    ∀ e ∈ ofCalls calls, e.2.Frozen := by
  intro e he
  obtain ⟨call, hcall, hwritten⟩ := mem_ofCalls he
  exact Call.written_frozen (hc call hcall) hwritten

/-! ## The profiles of a pass -/

theorem Raw.eq_map_of_asBody {v : Raw} {body : RawMap} (h : v.asBody = .table body) : v = .map body := by
  cases v with
  | map m =>
    cases h
    rfl
  | _ => cases h

theorem RawMap.frozen_of_declaredProfiles {m : RawMap} (hm : m.Distinct) {root : Tree} (hroot : root.Frozen)
    {ps : List (String × Tree)} (h : m.declaredProfiles root = .ok ps) {name : String} {t : Tree}
    (he : (name, t) ∈ ps) : t.Frozen := by
  rw [declaredProfiles] at h
  split at h
  · cases h
    cases he
  · cases h
    cases he
  · cases h
    cases he
  · rename_i declared hdeclared
    obtain ⟨ordered, hordered, h⟩ := Outcome.bind_eq_ok_iff.mp h
    obtain ⟨body, hbody, hoverlay⟩ := mem_profilesFrom h he
    obtain ⟨merged, hmerged, hpruned⟩ := Outcome.bind_eq_ok_iff.mp hoverlay
    cases hpruned
    obtain ⟨⟨key, v⟩, hmem, heq⟩ := List.mem_map.mp hbody
    obtain rfl : v = .map body := Raw.eq_map_of_asBody (Prod.mk.inj heq).2
    have hv : (Raw.map body).Distinct :=
      (distinct_map.mp (hm.of_get? hdeclared)).of_mem ((mem_orderedByKey hordered).mp hmem)
    rw [distinct_map] at hv
    exact (freezeTree_frozen (distinct_map.mpr (hv.merge (Tree.Frozen.thaw_distinct root hroot))) hmerged).prune
  · cases h

theorem frozen_of_profilesOf {content : Content} (hc : content.Sound) {ps : List (String × Tree)}
    (h : profilesOf content = .ok ps) {name : String} {t : Tree} (he : (name, t) ∈ ps) : t.Frozen := by
  cases content with
  | tree u =>
    have hroot : (Tree.prune (u.erase profilesKey)).Frozen := (Tree.Frozen.erase hc profilesKey).prune
    obtain ⟨named, hnamed, rfl⟩ := Tree.profilesOf_tree_eq_ok_iff.mp h
    rcases List.mem_cons.mp he with he | he
    · cases he
      exact hroot
    · obtain ⟨declared, body, hg, hbody, heff⟩ := Tree.mem_declaredProfiles hnamed he
      have hdeclared : Tree.Frozen declared := Tree.frozen_map.mp (Tree.Frozen.of_get? hc hg)
      rw [heff]
      exact ((Tree.frozen_map.mp (hdeclared.value_of_mem hbody)).merge hroot).prune
  | loose m =>
    rw [profilesOf] at h
    obtain ⟨root, hpruned, h⟩ := Outcome.bind_eq_ok_iff.mp h
    change (m.declaredProfiles root >>= fun named => .ok ((defaultProfile, root) :: named)) = .ok ps at h
    obtain ⟨named, hnamed, h⟩ := Outcome.bind_eq_ok_iff.mp h
    cases h
    have hroot : root.Frozen := (hc.erase profilesKey).pruned hpruned
    rcases List.mem_cons.mp he with he | he
    · cases he
      exact hroot
    · exact RawMap.frozen_of_declaredProfiles hc hroot hnamed he

/-! ## What is offered -/

namespace Config

/-- The profiles that a configuration offers: its own, and those that calls derive of its own. -/
inductive Offers (c : Config) : List Call → Profile → Prop
  | own {name : String} {snapshot : Snapshot} (h : c.profile name = .ok snapshot) : Offers c [] snapshot.toProfile
  | derived {name : String} {snapshot : Snapshot} (h : c.profile name = .ok snapshot) (calls : List Call)
      (hc : ∀ call ∈ calls, call.Distinct) :
      Offers c calls ⟨name, (Overrides.ofCalls calls).apply snapshot.tree⟩

variable {t : Tree} {generation : Int} {config : Config}

theorem mem_profiles_of_profile {name : String} {snapshot : Snapshot} (h : config.profile name = .ok snapshot) :
    (name, snapshot.tree) ∈ config.profiles := by
  rw [profile] at h
  split at h
  · rename_i found u hfound
    cases h
    have hname : found = name := by simpa using List.find?_some hfound
    exact hname ▸ List.mem_of_find?_eq_some hfound
  · cases h

/-- Every profile that is offered is a frozen tree, whatever content it comes from. -/
theorem Offers.frozen {content : Content} (hc : content.Sound) (hr : resolve content generation = .ok config)
    {calls : List Call} {p : Profile} (h : config.Offers calls p) : p.tree.Frozen := by
  unfold resolve at hr
  obtain ⟨profiles, hprofiles, hr⟩ := Outcome.bind_eq_ok_iff.mp hr
  obtain ⟨tree, _, hr⟩ := Outcome.bind_eq_ok_iff.mp hr
  cases hr
  cases h with
  | own h => exact frozen_of_profilesOf hc hprofiles (mem_profiles_of_profile h)
  | derived h _ hcalls =>
    exact (Writes.into_frozen (Overrides.ofCalls_frozen hcalls)
      (frozen_of_profilesOf hc hprofiles (mem_profiles_of_profile h))).prune

/-- A resolved profile is a frozen tree without its tombstones, and the other leaves of that tree stood in the tree
    that was resolved. -/
theorem exists_unpruned_of_profile (ht : t.Frozen) (hr : resolve (.tree t) generation = .ok config) {name : String}
    {snapshot : Snapshot} (h : config.profile name = .ok snapshot) :
    ∃ u : Tree, u.Frozen ∧ snapshot.tree = Tree.prune u ∧ ∀ place v, u.find? place = some v → v.isLeaf → v ≠ .unset →
      ∃ other, t.find? other = some v := by
  obtain ⟨named, hnamed, rfl⟩ := resolve_tree_eq_ok_iff.mp hr
  have hroot : (t.erase profilesKey).Frozen := ht.erase profilesKey
  -- outside the table of profiles the tree holds what it holds
  have houtside : ∀ place v, (t.erase profilesKey).find? place = some v → v.isLeaf → t.find? place = some v := by
    intro place v hv hl
    have hplace : place ≠ [] := fun hnil => Tree.find?_nil_ne hl _ (hnil ▸ hv)
    obtain ⟨key, rest, rfl⟩ := List.exists_cons_of_ne_nil hplace
    rw [← hv, Tree.find?_erase (List.cons_ne_nil key rest)]
    intro hkey
    cases hkey
    rw [Tree.find?_cons, Tree.get?_eq_none_iff.mpr (by simp [Tree.erase])] at hv
    cases hv
  rcases List.mem_cons.mp (mem_profiles_of_profile h) with hdefault | hdeclared
  · rw [Prod.mk.injEq] at hdefault
    exact ⟨_, hroot, hdefault.2, fun place v hv hl _ => ⟨place, houtside place v hv hl⟩⟩
  · obtain ⟨declared, body, hg, hbody, heff⟩ := Tree.mem_declaredProfiles hnamed hdeclared
    have hdeclaredFrozen : Tree.Frozen declared := Tree.frozen_map.mp (ht.of_get? hg)
    have hb : Tree.Frozen body := Tree.frozen_map.mp (hdeclaredFrozen.value_of_mem hbody)
    refine ⟨_, hb.merge hroot.prune, heff, ?_⟩
    intro place v hv hl hne
    rcases (Tree.find?_merge_iff hb hl).mp hv with hv | ⟨_, hv⟩
    · refine ⟨profilesKey :: name :: place, ?_⟩
      rw [Tree.find?_cons, hg, Option.bind_some, Value.find?_map, Tree.find?_cons,
        Tree.get?_of_mem hdeclaredFrozen hbody, Option.bind_some, Value.find?_map, hv]
    · exact ⟨place, houtside place v ((Tree.find?_prune_iff hroot hl).mp hv).1 hl⟩

/-- Whether a value stands in the tree that was resolved, or in a value that one of the calls wrote. -/
def Stems (t : Tree) (calls : List Call) (v : Value) : Prop :=
  (∃ place, t.find? place = some v) ∨
    ∃ call ∈ calls, ∃ path w rest, call.written = .ok (path, w) ∧ w.find? rest = some v

/-- A profile that is offered is a frozen tree without its tombstones, and the other leaves of that tree stem from the
    tree that was resolved and from the calls. -/
theorem Offers.exists_unpruned (ht : t.Frozen) (hr : resolve (.tree t) generation = .ok config) {calls : List Call}
    {p : Profile} (h : config.Offers calls p) :
    ∃ u : Tree, u.Frozen ∧ p.tree = Tree.prune u ∧ ∀ place v, u.find? place = some v → v.isLeaf → v ≠ .unset →
      Stems t calls v := by
  cases h with
  | own h =>
    obtain ⟨u, hu, htree, hleaf⟩ := exists_unpruned_of_profile ht hr h
    exact ⟨u, hu, htree, fun place v hv hl hne => .inl (hleaf place v hv hl hne)⟩
  | @derived name snapshot h _ hc =>
    obtain ⟨u, hu, htree, hleaf⟩ := exists_unpruned_of_profile ht hr h
    have htreeFrozen : snapshot.tree.Frozen := htree ▸ hu.prune
    refine ⟨_, Writes.into_frozen (Overrides.ofCalls_frozen hc) htreeFrozen, rfl, ?_⟩
    intro place v hv hl hne
    rcases Writes.find?_into_leaf hl hv with hv | ⟨e, he, rest, _, hv⟩
    · rw [htree, Tree.find?_prune_iff hu hl] at hv
      exact .inl (hleaf place v hv.1 hl hne)
    · obtain ⟨call, hcall, hwritten⟩ := Overrides.mem_ofCalls he
      exact .inr ⟨call, hcall, e.1, e.2, rest, hwritten, hv⟩

end Config
end LayeredConfig
