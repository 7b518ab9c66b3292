import LayeredConfig.Proofs.Profile.Resolution
import LayeredConfig.Proofs.Tree.LateFreezing
/-!
# Splitting off profiles before freezing

The profiles of a raw map are split off before anything is frozen, those of a tree afterwards. Where no dotted key
leads into the table of profiles, where its names have no dots and each of them has something of its own, and where
every table can be laid over the default profile key by key, both give the same profiles, or fail alike; the trees of
the profiles are the same exactly when the rest of the raw map prunes early (`RawMap.profilesOf_matches`). A tree that
was handed out frozen always splits early (`Tree.Frozen.splitsEarly`) and prunes early (`Tree.Frozen.prunesEarly`).
-/
namespace LayeredConfig

/-! ## Results that match -/

/-- Whether two failures are the same, up to the name of the type that stands in place of a table. -/
inductive Failure.SameButType : Failure → Failure → Prop
  | refl (f : Failure) : SameButType f f
  | profilesNotTable (a b : String) : SameButType (.profilesNotTable a) (.profilesNotTable b)
  | profileNotTable (name a b : String) : SameButType (.profileNotTable name a) (.profileNotTable name b)

namespace Outcome

variable {α β γ δ : Type} {R : α → β → Prop} {S : γ → δ → Prop} {x : Outcome α} {y : Outcome β}

/-- Whether two results are values in a relation, or failures that are the same up to a type. -/
inductive Matches (R : α → β → Prop) : Outcome α → Outcome β → Prop
  | ok {a : α} {b : β} (h : R a b) : Matches R (.ok a) (.ok b)
  | error {f g : Failure} (h : f.SameButType g) : Matches R (.error f) (.error g)

theorem Matches.map (h : Matches R x y) {f : α → γ} {g : β → δ} (hfg : ∀ a b, R a b → S (f a) (g b)) :
    Matches S (x.map f) (y.map g) := by
  cases h with
  | ok h => exact .ok (hfg _ _ h)
  | error h => exact .error h

theorem matches_map_iff {R : γ → δ → Prop} {f : α → γ} {g : β → δ} :
    Matches R (x.map f) (y.map g) ↔ Matches (fun a b => R (f a) (g b)) x y := by
  constructor
  · intro h
    cases x <;> cases y <;> cases h
    · rename_i h
      exact .error h
    · rename_i h
      exact .ok h
  · intro h
    exact h.map fun _ _ hab => hab

theorem Matches.imp {T : α → β → Prop} (h : Matches R x y) (hRT : ∀ a b, R a b → T a b) : Matches T x y := by
  cases h with
  | ok h => exact .ok (hRT _ _ h)
  | error h => exact .error h

end Outcome

/-! ## Tables of profiles side by side -/

section SideBySide

variable {α β : Type} {overlay : α → Outcome Tree} {overlay' : β → Outcome Tree} {S : Tree → Tree → Prop}

/-- Whether two bodies of profiles are both hidden, both no tables, or tables in a relation. -/
inductive ProfileBody.Beside (R : α → β → Prop) : ProfileBody α → ProfileBody β → Prop
  | hidden : Beside R .hidden .hidden
  | table {x : α} {y : β} (h : R x y) : Beside R (.table x) (.table y)
  | other (a b : String) : Beside R (.other a) (.other b)

/-- Whether two tables can be laid over their default profiles, to trees in a relation. -/
def LaidOver (overlay : α → Outcome Tree) (overlay' : β → Outcome Tree) (S : Tree → Tree → Prop) (x : α) (y : β) :
    Prop :=
  ∃ t u, overlay x = .ok t ∧ overlay' y = .ok u ∧ S t u

theorem profilesFrom_matches {xs : List (Key × ProfileBody α)} {ys : List (Key × ProfileBody β)}
    (h : List.Forall₂ (fun x y => x.1 = y.1 ∧ x.2.Beside (LaidOver overlay overlay' S) y.2) xs ys) :
    (profilesFrom overlay xs).Matches (List.Forall₂ fun p q => p.1 = q.1 ∧ S p.2 q.2) (profilesFrom overlay' ys) := by
  induction h with
  | nil => exact .ok .nil
  | @cons x y xs ys hxy _ ih =>
    obtain ⟨key, body⟩ := x
    obtain ⟨key', body'⟩ := y
    obtain ⟨rfl, hbody⟩ := hxy
    rw [profilesFrom, profilesFrom]
    by_cases hkey : key = .text defaultProfile
    · rw [if_pos hkey, if_pos hkey]
      exact .error (.refl _)
    · rw [if_neg hkey, if_neg hkey]
      cases hname : key.toRaw.profileName with
      | error f => exact .error (.refl f)
      | ok name =>
        cases hbody with
        | hidden => exact ih
        | other a b => exact .error (.profileNotTable name a b)
        | table hlaid =>
          obtain ⟨t, u, ht, hu, htu⟩ := hlaid
          simp only [ht, hu]
          exact ih.map fun _ _ hrest => .cons ⟨rfl, htu⟩ hrest

end SideBySide

/-! ## Splitting early -/

namespace RawMap

variable {m : RawMap} {t root : Tree}

/-- Whether the profiles of a raw map can as well be split off before it is frozen: no dotted key leads into the table
    of profiles, its names have no dots, none of them has an absent value in place of a table, and every table can be
    laid over the default profile key by key. -/
structure SplitsEarly (m : RawMap) : Prop where
  alone : m.Alone profilesKey
  undotted : ∀ declared, m.get? profilesKey = some (.map declared) → Undotted declared
  given : ∀ declared, m.get? profilesKey = some (.map declared) → ∀ e ∈ declared, e.2 ≠ .null
  overlays : ∀ declared root, m.get? profilesKey = some (.map declared) →
    freezeTree "tree" (.map (prune (m.erase profilesKey))) = .ok root →
    ∀ e ∈ declared, ∀ body, e.2 = .map body →
      ∃ merged, freezeTree "tree" (.map (merge (Value.thawEntries root) body)) = .ok merged

/-- Laying a table over the default profile before it is frozen. -/
def layLoose (root : Tree) (body : RawMap) : Outcome Tree := do
  let merged ← freezeTree "tree" (.map (merge (Value.thawEntries root) body))
  .ok (Tree.prune merged)

theorem layLoose_eq {label : Key} {body : RawMap} {b merged : Tree} (hroot : root.Frozen) (hb : body.Distinct)
    (h : freeze label (.map body) = .ok (.map b))
    (hmerged : freezeTree "tree" (.map (merge (Value.thawEntries root) body)) = .ok merged) :
    layLoose root body = .ok (effectiveTree root b) := by
  have hbody : freezeTree "tree" (.map body) = .ok b := freezeTree_eq_ok_iff.mpr (freeze_relabel _ _ h)
  rw [layLoose, hmerged, freeze_merge_eq hroot hb hbody hmerged]
  rfl

theorem beside_of_freeze {label : Key} {v : Raw} {w : Value} {R : RawMap → Tree → Prop} (h : freeze label v = .ok w)
    (hgiven : v ≠ .null)
    (htable : ∀ body b, v = .map body → freeze label (.map body) = .ok (.map b) → R body b) :
    v.asBody.Beside R w.asBody := by
  cases v with
  | null => exact absurd rfl hgiven
  | unset =>
    rw [freeze] at h
    cases h
    exact .hidden
  | scalar s =>
    obtain ⟨rfl, _⟩ := freeze_scalar h
    exact .other _ _
  | list items =>
    rw [freeze] at h
    obtain ⟨_, _, rfl⟩ := Outcome.map_eq_ok_iff.mp h
    exact .other _ _
  | map body =>
    obtain ⟨_, b, _, _, rfl⟩ := freeze_map_eq_ok_iff.mp h
    exact .table (htable body b rfl h)
  | option o | foreign f => simp [freeze] at h

/-- The tables declared in a raw map that splits early, in the order of their names, stand beside those declared in its
    stored form, and can be laid over default profiles as these can; over the same one they make the same trees. -/
theorem SplitsEarly.tables_beside (h : m.SplitsEarly) (hm : m.Distinct) {declared : RawMap}
    (hg : m.get? profilesKey = some (.map declared)) {label : Key} {stored : Tree}
    (hstored : freeze label (.map declared) = .ok (.map stored))
    (hroot : freezeTree "tree" (.map (prune (m.erase profilesKey))) = .ok root) (root' : Tree) :
    List.Forall₂
      (fun e d => e.1 = .text d.1 ∧ e.2.asBody.Beside
        (LaidOver (layLoose root) (fun body => .ok (effectiveTree root' body)) fun u u' => root = root' → u = u')
        d.2.asBody)
      declared.sortedByText stored := by
  have hfrozen : root.Frozen := freezeTree_frozen (distinct_map.mpr (hm.erase _).prune) hroot
  have hmem : ∀ e ∈ declared.sortedByText, e ∈ declared := fun _ => (sortOrdered_perm declared).mem_iff.mp
  refine ((List.forall₂_and_left _ _).mpr ⟨hmem, forall₂_of_freeze (h.undotted declared hg) hstored⟩).imp ?_
  rintro e d ⟨he, hkey, _, hfreeze⟩
  refine ⟨hkey, beside_of_freeze hfreeze (h.given declared hg e he) ?_⟩
  intro body b hbody hb
  obtain ⟨merged, hmerged⟩ := h.overlays declared root hg hroot e he body hbody
  have hdistinct : (Raw.map body).Distinct := hbody ▸ (distinct_map.mp (hm.of_get? hg)).of_mem he
  exact ⟨_, _, layLoose_eq hfrozen (distinct_map.mp hdistinct) hb hmerged, rfl, fun heq => heq ▸ rfl⟩

/-- Profiles declared in a raw map that splits early are those declared in its stored form; over one and the same
    default profile their trees are the same. -/
theorem declaredProfiles_matches (hm : m.Distinct) (ht : freezeTree "tree" (.map m) = .ok t) (h : m.SplitsEarly)
    (hroot : freezeTree "tree" (.map (prune (m.erase profilesKey))) = .ok root) (root' : Tree) :
    (m.declaredProfiles root).Matches (List.Forall₂ fun p q => p.1 = q.1 ∧ (root = root' → p.2 = q.2))
      (t.declaredProfiles root') := by
  have hparts : (Key.text profilesKey).parts = [.text profilesKey] := Key.parts_of_undotted rfl
  rw [declaredProfiles, Tree.declaredProfiles]
  cases hg : m.get? profilesKey with
  | none =>
    rw [h.alone.get?_eq_none hm ht hg]
    exact .ok .nil
  | some v =>
    obtain ⟨w, hw, htw⟩ := h.alone.get?_of_get? hparts (by decide) hm ht hg
    rw [htw]
    cases v with
    | null | unset =>
      rw [freeze] at hw
      cases hw
      exact .ok .nil
    | scalar s =>
      obtain ⟨rfl, _⟩ := freeze_scalar hw
      exact .error (.profilesNotTable _ _)
    | list items =>
      rw [freeze] at hw
      obtain ⟨_, _, rfl⟩ := Outcome.map_eq_ok_iff.mp hw
      exact .error (.profilesNotTable _ _)
    | option o | foreign f => simp [freeze] at hw
    | map declared =>
      obtain ⟨_, stored, _, _, rfl⟩ := freeze_map_eq_ok_iff.mp hw
      simp only [orderedByKey_of_texts (texts_of_freeze (h.undotted declared hg) hw)]
      change Outcome.Matches _ (profilesFrom (layLoose root) _) _
      refine profilesFrom_matches (S := fun u u' => root = root' → u = u') ?_
      rw [List.forall₂_map_left_iff, List.forall₂_map_right_iff]
      exact h.tables_beside hm hg hw hroot root'

theorem profilesOf_loose_eq (hroot : freezeTree "tree" (.map (prune (m.erase profilesKey))) = .ok root) :
    profilesOf (.loose m) = (m.declaredProfiles root).map ((defaultProfile, root) :: ·) := by
  change (freezeTree "tree" (.map (prune (m.erase profilesKey))) >>= fun root =>
    m.declaredProfiles root >>= fun named => .ok ((defaultProfile, root) :: named)) = _
  rw [hroot]
  rfl

/-- **A raw map that splits early** has the profiles of its stored form or fails as that does, and has the same trees
    for all of them exactly when it prunes early without the table of profiles. -/
theorem profilesOf_matches (hm : m.Distinct) (ht : freezeTree "tree" (.map m) = .ok t) (h : m.SplitsEarly) :
    (profilesOf (.loose m)).Matches
      (fun ps qs => ps.map (·.1) = qs.map (·.1) ∧ (ps = qs ↔ (m.erase profilesKey).PrunesEarly))
      (profilesOf (.tree t)) := by
  have herased : freezeTree "tree" (.map (m.erase profilesKey)) = .ok (t.erase profilesKey) :=
    h.alone.freeze_erase (Key.parts_of_undotted rfl) hm ht
  obtain ⟨root, hroot⟩ := freeze_prune_comes_out (hm.erase profilesKey) herased
  have hiff := freeze_prune_eq_iff (hm.erase profilesKey) herased hroot
  rw [profilesOf_loose_eq hroot]
  refine (declaredProfiles_matches hm ht h hroot (Tree.prune (t.erase profilesKey))).map ?_
  intro ps qs hnamed
  have hnames : ps.map (·.1) = qs.map (·.1) := by
    rw [← List.forall₂_eq_eq_eq, List.forall₂_map_left_iff, List.forall₂_map_right_iff]
    exact hnamed.imp fun _ _ hpq => hpq.1
  refine ⟨congrArg (defaultProfile :: ·) hnames, ?_⟩
  rw [← hiff]
  constructor
  · intro heq
    exact (Prod.mk.inj (List.cons.inj heq).1).2
  · intro heq
    have hsame : ps = qs := by
      rw [← List.forall₂_eq_eq_eq]
      exact hnamed.imp fun _ _ hpq => Prod.ext hpq.1 (hpq.2 heq)
    rw [heq, hsame]

end RawMap

/-- The profiles of a frozen tree can as well be split off in raw form. -/
theorem Tree.Frozen.splitsEarly {t : Tree} (h : t.Frozen) : RawMap.SplitsEarly (Value.thawEntries t) := by
  have hdeclared : ∀ m, RawMap.get? (Value.thawEntries t) profilesKey = some (.map m) →
      ∃ declared : Tree, declared.Frozen ∧ m = Value.thawEntries declared := by
    intro m hm
    rw [Tree.get?_thawEntries] at hm
    obtain ⟨v, hv, hmap⟩ := Option.map_eq_some_iff.mp hm
    obtain ⟨declared, rfl⟩ := Value.eq_map_of_thaw hmap
    rw [Value.thaw] at hmap
    exact ⟨declared, Tree.frozen_map.mp (h.of_get? hv), (Raw.map.inj hmap).symm⟩
  constructor
  · exact h.plain_thawEntries.alone profilesKey
  · intro m hm
    obtain ⟨declared, hfrozen, rfl⟩ := hdeclared m hm
    exact fun e he => (hfrozen.plain_thawEntries e he).2
  · intro m hm e he
    obtain ⟨declared, hfrozen, rfl⟩ := hdeclared m hm
    obtain ⟨d, _, rfl⟩ := Tree.mem_thawEntries he
    cases d.2 <;> simp [Value.thaw]
  · intro m root hm hroot e he body hbody
    obtain ⟨declared, hfrozen, rfl⟩ := hdeclared m hm
    obtain ⟨d, hd, rfl⟩ := Tree.mem_thawEntries he
    obtain ⟨b, hb⟩ := Value.eq_map_of_thaw hbody
    have hvalue := hfrozen.value_of_mem hd
    rw [hb, Value.thaw] at hbody
    rw [hb] at hvalue
    rw [← Raw.map.inj hbody]
    exact (freezeTree_frozen (RawMap.distinct_map.mpr (h.thaw_distinct.erase _).prune) hroot).freeze_merge_comes_out
      (Tree.frozen_map.mp hvalue) "tree"

/-- Handed out frozen, a tree has the same profiles before freezing and after, or fails alike. -/
theorem Tree.Frozen.profilesOf_thaw_matches {t : Tree} (h : t.Frozen) :
    (profilesOf (.loose (Value.thawEntries t))).Matches Eq (profilesOf (.tree t)) := by
  have hmatch := RawMap.profilesOf_matches h.thaw_distinct (freezeTree_thaw "tree" h) h.splitsEarly
  rw [Tree.erase_thawEntries] at hmatch
  exact hmatch.imp fun _ _ hps => hps.2.mpr (h.erase profilesKey).prunesEarly

end LayeredConfig
