import LayeredConfig.Profile.Basic
import LayeredConfig.Proofs.Source.Failures
/-!
# Why a tree has no profiles

The profiles of a tree cannot be told when its table of profiles is none, or when something in it is no table, or has a
name that no profile can have. That is a failure of the configuration in any case, and one for the reserved name only
if something stands in the place of a profile of that name (`Config.resolve_tree_fails`).
-/
namespace LayeredConfig

variable {f : Failure}

/-- The place that a profile of the reserved name would have. -/
def reservedPlace : List String := [profilesKey, defaultProfile]

theorem Tree.find?_pair {t : Tree} {key name : String} :
    (t.find? [key, name]).isSome ↔ ∃ below : Tree, t.get? key = some (.map below) ∧ (below.get? name).isSome := by
  rw [find?_cons]
  cases hkey : t.get? key with
  | none => simp
  | some v =>
    cases v with
    | map below => simp [Value.find?, find?]
    | _ => simp [Value.find?]

theorem Raw.profileName_fails {name : Raw} (h : name.profileName = .error f) :
    f.isOfConfiguration = true ∧ f.isReserved = false := by
  unfold Raw.profileName at h
  split at h
  · rename_i text
    cases hpath : Path.parse text with
    | error g =>
      rw [hpath] at h
      cases h
      have hexpanding := Path.parse_fails hpath
      exact ⟨Failure.isOfConfiguration_of_isOfExpanding hexpanding,
        Failure.isReserved_eq_false_of_isOfExpanding hexpanding⟩
    | ok path =>
      rw [hpath] at h
      simp only [bind, Except.bind] at h
      split at h <;> cases h
      exact ⟨rfl, rfl⟩
  · cases h
    exact ⟨rfl, rfl⟩

/-- Profiles that cannot be told are wrong as configuration. For the reserved name they fail only in a table that
    declares it. -/
theorem profilesFrom_fails {α : Type} {overlay : α → Outcome Tree} (ho : ∀ body, ∃ t, overlay body = .ok t)
    {entries : List (Key × ProfileBody α)} (h : profilesFrom overlay entries = .error f) :
    f.isOfConfiguration = true ∧ (f.isReserved = true → ∃ body, (Key.text defaultProfile, body) ∈ entries) := by
  induction entries with
  | nil => cases h
  | cons e rest ih =>
    obtain ⟨key, body⟩ := e
    have hrest (hr : profilesFrom overlay rest = .error f) : f.isOfConfiguration = true ∧
        (f.isReserved = true → ∃ body', (Key.text defaultProfile, body') ∈ (key, body) :: rest) :=
      (ih hr).imp id fun hreserved hf => (hreserved hf).imp fun _ hmem => List.mem_cons_of_mem _ hmem
    rw [profilesFrom] at h
    split at h
    · rename_i hkey
      cases h
      exact ⟨rfl, fun _ => ⟨body, hkey ▸ List.mem_cons_self⟩⟩
    · split at h
      · rename_i g hg
        cases h
        obtain ⟨hconfiguration, hreserved⟩ := Raw.profileName_fails hg
        exact ⟨hconfiguration, fun hf => by rw [hreserved] at hf; cases hf⟩
      · split at h
        · exact hrest h
        · cases h
          exact ⟨rfl, nofun⟩
        · rename_i entries
          obtain ⟨t, ht⟩ := ho entries
          rw [ht] at h
          exact hrest (Outcome.map_eq_error_iff.mp h)

theorem Tree.declaredProfiles_fails {t root : Tree} (h : t.declaredProfiles root = .error f) :
    f.isOfConfiguration = true ∧ (f.isReserved = true → (t.find? reservedPlace).isSome) := by
  rw [declaredProfiles] at h
  split at h
  · cases h
  · cases h
  · rename_i declared hdeclared
    obtain ⟨hconfiguration, hreserved⟩ := profilesFrom_fails (fun _ => ⟨_, rfl⟩) h
    refine ⟨hconfiguration, fun hf => ?_⟩
    obtain ⟨body, hmem⟩ := hreserved hf
    obtain ⟨e, he, heq⟩ := List.mem_map.mp hmem
    rw [reservedPlace, find?_pair]
    refine ⟨declared, hdeclared, ?_⟩
    have hkey : e.1 = defaultProfile := Key.text.inj (Prod.mk.inj heq).1
    rw [Option.isSome_iff_ne_none, Ne, get?_eq_none_iff]
    exact fun hnone => hnone e he hkey
  · cases h
    exact ⟨rfl, nofun⟩

/-- A tree that does not resolve is wrong as configuration. It fails for the reserved name only if something stands in
    the place of a profile of that name. -/
theorem Config.resolve_tree_fails {t : Tree} {generation : Int} (h : resolve (.tree t) generation = .error f) :
    f.isOfConfiguration = true ∧ (f.isReserved = true → (t.find? reservedPlace).isSome) := by
  have hprofiles : profilesOf (.tree t) = .error f := by
    rw [resolve] at h
    cases hp : profilesOf (.tree t) with
    | error g => simpa [hp, bind, Except.bind] using h
    | ok ps => simp [hp, bind, Except.bind, Content.pruned] at h
  cases hd : t.declaredProfiles (Tree.prune (t.erase profilesKey)) with
  | error g =>
    have hg : g = f := by simpa [profilesOf, Content.erase, Content.pruned, hd, bind, Except.bind] using hprofiles
    exact Tree.declaredProfiles_fails (hg ▸ hd)
  | ok named => simp [profilesOf, Content.erase, Content.pruned, hd, bind, Except.bind] at hprofiles

end LayeredConfig
