import LayeredConfig.Proofs.Tree.Overlay
import Mathlib.Data.List.Sort
/-!
# Groups of layers

Layers can be overlaid first among themselves and then as one layer among others. A tree is determined by what shows
at its places (`eq_of_face?`), and at each place shows what the highest layer that decides it holds there
(`face?_foldl_of_top`). A group therefore does as well as its layers as long as it decides what they decide, which it
does when none of them has a leaf where their overlay has a map (`foldl_merge_of_composes`); a map laid over a leaf in
the group forgets that the leaf was there (`exists_ungrouped_of_not_composes`).
-/
namespace LayeredConfig

/-! ## What shows at a place -/

/-- A value as it shows from outside: a leaf as it is, a map whatever it holds. -/
def Value.face : Value → Value
  | .map _ => .map []
  | v => v

@[simp] theorem Value.face_map (t : Tree) : (Value.map t).face = .map [] := rfl

theorem Value.face_of_isLeaf {v : Value} (h : v.isLeaf) : v.face = v := by
  cases v with
  | map t => simp at h
  | _ => rfl

theorem Value.eq_of_face_eq {v w : Value} (hv : v.isLeaf) (h : w.face = v) : w = v := by
  cases w with
  | map t => exact absurd h (Value.map_ne_of_isLeaf hv [])
  | _ => exact h

namespace Tree

/-- What shows at a place. -/
def face? (t : Tree) (place : List String) : Option Value := (t.find? place).map Value.face

@[simp] theorem face?_nil (t : Tree) : t.face? [] = some (.map []) := rfl

theorem face?_cons (t : Tree) (key : String) (rest : List String) :
    t.face? (key :: rest) = (t.get? key).bind fun v => (v.find? rest).map Value.face := by
  rw [face?, find?_cons]
  cases t.get? key <;> rfl

theorem decides_of_face? {t : Tree} {place : List String} {v : Value} (h : t.face? place = some v) :
    t.Decides place := by
  obtain ⟨w, hw, _⟩ := Option.map_eq_some_iff.mp h
  exact decides_of_find? hw

theorem face?_of_not_decides {t : Tree} {place : List String} (h : ¬ t.Decides place) : t.face? place = none := by
  cases hf : t.face? place with
  | none => rfl
  | some v => exact absurd (decides_of_face? hf) h

theorem eq_of_get? {t u : Tree} (ht : t.Frozen) (hu : u.Frozen) (h : ∀ key, t.get? key = u.get? key) : t = u := by
  have : Std.Antisymm fun a b : String × Value => a.1 < b.1 := ⟨fun a b hab hba => absurd hba (lt_asymm hab)⟩
  have : Std.Irrefl fun a b : String × Value => a.1 < b.1 := ⟨fun a => lt_irrefl a.1⟩
  apply List.Pairwise.eq_of_mem_iff (frozen_iff.mp ht).1 (frozen_iff.mp hu).1
  intro e
  constructor
  · intro he
    exact mem_of_get? ((h e.1).symm.trans (get?_of_mem ht he))
  · intro he
    exact mem_of_get? ((h e.1).trans (get?_of_mem hu he))

theorem find?_of_face?_isLeaf {t : Tree} {place : List String} {v : Value} (hv : v.isLeaf)
    (h : t.face? place = some v) : t.find? place = some v := by
  obtain ⟨w, hw, hface⟩ := Option.map_eq_some_iff.mp h
  rw [hw, Value.eq_of_face_eq hv hface]

theorem find?_eq_of_maps {t u : Tree} {place : List String} (hface : t.face? place = u.face? place)
    (hmaps : ∀ below below', t.find? place = some (.map below) → u.find? place = some (.map below') → below = below') :
    t.find? place = u.find? place := by
  cases hfound : t.find? place with
  | none =>
    rw [face?, hfound, face?] at hface
    exact (Option.map_eq_none_iff.mp hface.symm).symm
  | some v =>
    rw [face?, hfound, Option.map_some] at hface
    by_cases hv : v.isLeaf
    · rw [Value.face_of_isLeaf hv] at hface
      exact (find?_of_face?_isLeaf hv hface.symm).symm
    · obtain ⟨below, rfl⟩ := Value.eq_map_of_not_isLeaf hv
      obtain ⟨w, hw, hwface⟩ := Option.map_eq_some_iff.mp hface.symm
      have hmap : ¬ w.isLeaf := by
        intro hl
        rw [Value.face_of_isLeaf hl] at hwface
        exact Value.map_ne_of_isLeaf hl [] hwface.symm
      obtain ⟨below', rfl⟩ := Value.eq_map_of_not_isLeaf hmap
      rw [hw, hmaps below below' hfound hw]

/-- A frozen tree is determined by what shows at its places. -/
theorem eq_of_face? {t u : Tree} (ht : t.Frozen) (hu : u.Frozen) (h : ∀ place, t.face? place = u.face? place) :
    t = u := by
  apply eq_of_get? ht hu
  intro key
  have hkey : t.find? [key] = u.find? [key] := by
    apply find?_eq_of_maps (h [key])
    intro below below' hbelow hbelow'
    have hg : t.get? key = some (.map below) := by simpa [find?_cons] using hbelow
    have hg' : u.get? key = some (.map below') := by simpa [find?_cons] using hbelow'
    -- beneath the key the two maps show the same at every place, and they are smaller
    have hsize : sizeOf below < sizeOf t := by
      have hmem := List.sizeOf_lt_of_mem (mem_of_get? hg)
      simp at hmem
      omega
    have hrest : ∀ rest, face? below rest = face? below' rest := by
      intro rest
      have hrest := h (key :: rest)
      rw [face?_cons, face?_cons, hg, hg'] at hrest
      simpa [face?] using hrest
    exact eq_of_face? (frozen_map.mp (ht.of_get? hg)) (frozen_map.mp (hu.of_get? hg')) hrest
  simpa [find?_cons] using hkey
termination_by sizeOf t

theorem eq_of_leaves_maps {t u : Tree} (ht : t.Frozen) (hu : u.Frozen)
    (hleaf : ∀ place v, v.isLeaf → (t.find? place = some v ↔ u.find? place = some v))
    (hmap : ∀ place, (∃ below, t.find? place = some (.map below)) ↔ ∃ below, u.find? place = some (.map below)) :
    t = u := by
  have hface : ∀ {t u : Tree} {place v}, (∀ w, w.isLeaf → t.find? place = some w → u.find? place = some w) →
      ((∃ below, t.find? place = some (.map below)) → ∃ below, u.find? place = some (.map below)) →
      t.face? place = some v → u.face? place = some v := by
    intro t u place v hleaf hmap hv
    obtain ⟨w, hw, rfl⟩ := Option.map_eq_some_iff.mp hv
    by_cases hl : w.isLeaf
    · rw [face?, hleaf w hl hw, Option.map_some]
    · obtain ⟨below, rfl⟩ := Value.eq_map_of_not_isLeaf hl
      obtain ⟨other, hother⟩ := hmap ⟨below, hw⟩
      rw [face?, hother]
      rfl
  apply eq_of_face? ht hu
  intro place
  ext v
  exact ⟨hface (fun w hl => (hleaf place w hl).mp) (hmap place).mp,
    hface (fun w hl => (hleaf place w hl).mpr) (hmap place).mpr⟩

/-! ## What an overlay shows -/

theorem face?_merge {lower higher : Tree} (hh : higher.Frozen) (place : List String) :
    (higher.Decides place → (merge lower higher).face? place = higher.face? place) ∧
      (¬ higher.Decides place → (merge lower higher).face? place = lower.face? place) := by
  induction place generalizing lower higher with
  | nil => exact ⟨fun _ => rfl, fun _ => rfl⟩
  | cons key rest ih =>
    rw [face?_cons, face?_cons, face?_cons, decides_cons]
    cases hg : higher.get? key with
    | none => simp [get?_merge_of_none hg]
    | some w =>
      rw [get?_merge_of_some hh hg]
      by_cases hw : w.isLeaf
      · simp [Value.over_of_isLeaf hw, Value.map_ne_of_isLeaf hw, eq_comm (a := w)]
      · obtain ⟨t, rfl⟩ := Value.eq_map_of_not_isLeaf hw
        have ht : t.Frozen := frozen_map.mp (hh.of_get? hg)
        by_cases hm : ∃ below, lower.get? key = some (.map below)
        · obtain ⟨below, hbelow⟩ := hm
          simpa [hbelow, Value.over_map, face?] using ih ht
        · rw [Value.over_of_not_map _ fun below hbelow => hm ⟨below, hbelow⟩]
          refine ⟨fun _ => rfl, ?_⟩
          intro hnot
          have hnot : ¬ t.Decides rest := by simpa using hnot
          -- the higher tree has nothing there, and the lower one has no map in which anything could stand
          have hnone : t.face? rest = none := face?_of_not_decides hnot
          have hrest : rest ≠ [] := fun hnil => hnot (hnil ▸ decides_nil t)
          cases hl : lower.get? key with
          | none => simpa [face?] using hnone
          | some u =>
            have hu : u.isLeaf := by
              cases u with
              | map below => exact absurd ⟨below, hl⟩ hm
              | _ => rfl
            simpa [face?, Value.find?_of_isLeaf hu hrest] using hnone

theorem Frozen.foldl_merge {layers : List Tree} (h : ∀ t ∈ layers, t.Frozen) {below : Tree} (hb : below.Frozen) :
    (layers.foldl Tree.merge below).Frozen := by
  induction layers generalizing below with
  | nil => exact hb
  | cons t rest ih =>
    obtain ⟨ht, hrest⟩ := List.forall_mem_cons.mp h
    exact ih hrest (ht.merge hb)

/-- Layers that do not decide a place show there what is below them. -/
theorem face?_foldl_of_undecided {layers : List Tree} (h : ∀ t ∈ layers, t.Frozen) {place : List String}
    (hnot : ∀ t ∈ layers, ¬ t.Decides place) (below : Tree) :
    (layers.foldl merge below).face? place = below.face? place := by
  induction layers generalizing below with
  | nil => rfl
  | cons t rest ih =>
    obtain ⟨ht, hrest⟩ := List.forall_mem_cons.mp h
    obtain ⟨hnt, hnrest⟩ := List.forall_mem_cons.mp hnot
    rw [List.foldl_cons, ih hrest hnrest, (face?_merge ht place).2 hnt]

/-- Layers show at a place what the highest of them that decides it shows there, whatever is below them. -/
theorem face?_foldl_of_top {lower higher : List Tree} {t : Tree} (h : ∀ u ∈ lower ++ t :: higher, u.Frozen)
    {place : List String} (ht : t.Decides place) (hnot : ∀ u ∈ higher, ¬ u.Decides place) (below : Tree) :
    ((lower ++ t :: higher).foldl merge below).face? place = t.face? place := by
  have hfrozen : t.Frozen := h t (by simp)
  have hhigher : ∀ u ∈ higher, u.Frozen := fun u hu => h u (by simp [hu])
  rw [List.foldl_append, List.foldl_cons, face?_foldl_of_undecided hhigher hnot, (face?_merge hfrozen place).1 ht]

/-- If any layer decides a place, one of them is the highest that does. -/
theorem exists_top {layers : List Tree} {place : List String} (h : ∃ t ∈ layers, t.Decides place) :
    ∃ lower t higher, layers = lower ++ t :: higher ∧ t.Decides place ∧ ∀ u ∈ higher, ¬ u.Decides place := by
  induction layers with
  | nil =>
    obtain ⟨t, ht, _⟩ := h
    cases ht
  | cons t rest ih =>
    by_cases hrest : ∃ u ∈ rest, u.Decides place
    · obtain ⟨lower, top, higher, hsplit, htop, hnot⟩ := ih hrest
      exact ⟨t :: lower, top, higher, by rw [hsplit, List.cons_append], htop, hnot⟩
    · obtain ⟨u, hu, hdec⟩ := h
      rcases List.mem_cons.mp hu with hu | hu
      · exact ⟨[], t, rest, rfl, hu ▸ hdec, fun u hu hdec => hrest ⟨u, hu, hdec⟩⟩
      · exact absurd ⟨u, hu, hdec⟩ hrest

/-! ## Layers that can be grouped -/

/-- Whether layers can be grouped: none of them has a leaf where their overlay has a map. -/
def Composes (layers : List Tree) : Prop :=
  ∀ place below, (mergeAll layers).find? place = some (.map below) →
    ∀ t ∈ layers, ∀ v, t.find? place = some v → ¬ v.isLeaf

variable {layers : List Tree}

/-- Only what some layer decides is decided by the overlay, the empty place apart. -/
theorem exists_decides_of_mergeAll (h : ∀ t ∈ layers, t.Frozen) {place : List String} (hne : place ≠ [])
    (hdec : (mergeAll layers).Decides place) : ∃ t ∈ layers, t.Decides place := by
  rcases hdec with ⟨v, hv⟩ | ⟨front, rest, v, rfl, _, hv, hl⟩
  · by_contra hnone
    push Not at hnone
    have hface : (mergeAll layers).face? place = face? [] place := face?_foldl_of_undecided h hnone []
    obtain ⟨key, rest, rfl⟩ := List.exists_cons_of_ne_nil hne
    rw [face?, hv, face?_cons] at hface
    cases hface
  · obtain ⟨lower, t, higher, rfl, _, ht, _⟩ := (find?_mergeAll_iff h hl).mp hv
    exact ⟨t, by simp, decides_beneath_leaf ht hl rest⟩

theorem Composes.decides (hc : Composes layers) (h : ∀ t ∈ layers, t.Frozen) {place : List String} {t : Tree}
    (ht : t ∈ layers) (hdec : t.Decides place) : (mergeAll layers).Decides place := by
  -- a layer that decides by a leaf on the way: at the leaf the overlay has no map, or it would not compose
  have hleaf : ∀ u ∈ layers, ∀ front rest v, place = front ++ rest → rest ≠ [] → u.find? front = some v → v.isLeaf →
      (mergeAll layers).Decides place := by
    intro u hu front rest v hplace hrest hv hl
    have hshorter : front.length < place.length := by
      have := List.length_pos_iff.mpr hrest
      rw [hplace, List.length_append]
      omega
    rw [hplace]
    rcases Composes.decides hc h hu (decides_of_find? hv) with ⟨w, hw⟩ | ⟨front', rest', w, rfl, _, hw, hwl⟩
    · by_cases hwl : w.isLeaf
      · exact decides_beneath_leaf hw hwl rest
      · obtain ⟨below, rfl⟩ := Value.eq_map_of_not_isLeaf hwl
        exact absurd hl (hc front below hw u hu v hv)
    · rw [List.append_assoc]
      exact decides_beneath_leaf hw hwl (rest' ++ rest)
  obtain ⟨lower, top, higher, hsplit, htop, hnot⟩ := exists_top ⟨t, ht, hdec⟩
  have hmem : top ∈ layers := by simp [hsplit]
  rcases htop with ⟨v, hv⟩ | ⟨front, rest, v, hplace, hrest, hv, hl⟩
  · have hface : (mergeAll layers).face? place = top.face? place := by
      subst hsplit
      exact face?_foldl_of_top h (decides_of_find? hv) hnot []
    exact decides_of_face? (hface.trans (by rw [face?, hv]; rfl))
  · exact hleaf top hmem front rest v hplace hrest hv hl
termination_by place.length

/-- Over anything, layers that can be grouped do as well as their overlay. -/
theorem foldl_merge_of_composes (hc : Composes layers) (h : ∀ t ∈ layers, t.Frozen) {below : Tree}
    (hb : below.Frozen) : layers.foldl merge below = merge below (mergeAll layers) := by
  have hall : (mergeAll layers).Frozen := Frozen.mergeAll h
  apply eq_of_face? (Frozen.foldl_merge h hb) (hall.merge hb)
  intro place
  by_cases hne : place = []
  · rw [hne, face?_nil, face?_nil]
  by_cases hdec : ∃ t ∈ layers, t.Decides place
  · obtain ⟨t, ht, htd⟩ := hdec
    rw [(face?_merge hall place).1 (hc.decides h ht htd)]
    obtain ⟨lower, top, higher, rfl, htop, hnot⟩ := exists_top ⟨t, ht, htd⟩
    rw [mergeAll, face?_foldl_of_top h htop hnot below, face?_foldl_of_top h htop hnot []]
  · have hnot : ¬ (mergeAll layers).Decides place := fun hall' => hdec (exists_decides_of_mergeAll h hne hall')
    push Not at hdec
    rw [face?_foldl_of_undecided h hdec, (face?_merge hall place).2 hnot]

/-- The overlay of layers with a group among them, one part after the other. -/
theorem mergeAll_append_group (lower higher : List Tree) :
    mergeAll (lower ++ [mergeAll layers] ++ higher) =
      higher.foldl merge (merge (mergeAll lower) (mergeAll layers)) := by
  simp only [mergeAll, List.foldl_append, List.foldl_cons, List.foldl_nil]

theorem mergeAll_append_layers (lower higher : List Tree) :
    mergeAll (lower ++ layers ++ higher) = higher.foldl merge (layers.foldl merge (mergeAll lower)) := by
  simp only [mergeAll, List.foldl_append]

/-- Of layers that cannot be grouped the overlay uncovers what is beneath the leaf it has forgotten. -/
theorem exists_ungrouped_of_not_composes (hc : ¬ Composes layers) (h : ∀ t ∈ layers, t.Frozen) :
    ∃ below : Tree, below.Frozen ∧
      mergeAll ([below] ++ [mergeAll layers] ++ []) ≠ mergeAll ([below] ++ layers ++ []) := by
  rw [Composes] at hc
  push Not at hc
  obtain ⟨place, inner, hinner, t, ht, v, hv, hl⟩ := hc
  -- something stands in the map at the place where neither the group nor any later layer has anything
  obtain ⟨key, hkey, hnone⟩ := exists_get?_eq_none inner
  have hkeys : ∀ k ∈ place ++ [key], IsKey k := by
    intro k hk
    rcases List.mem_append.mp hk with hk | hk
    · exact ((h t ht).of_find? hv).2 k hk
    · exact List.mem_singleton.mp hk ▸ hkey
  have hne : place ++ [key] ≠ [] := by simp
  have hbelow : (setAt [] (place ++ [key]) (.list [])).Frozen :=
    frozen_nil.setAt hkeys (by simp [Value.Frozen, Value.FrozenItems])
  have hgroup : (mergeAll layers).find? (place ++ [key]) = none := by
    rw [find?_append, hinner, Option.bind_some, Value.find?_map, find?_cons, hnone]
    rfl
  refine ⟨_, hbelow, ?_⟩
  intro heq
  have hshown : (mergeAll ([setAt [] (place ++ [key]) (.list [])] ++ [mergeAll layers] ++ [])).find? (place ++ [key]) =
      some (.list []) := by
    rw [find?_mergeAll_iff (by simpa using ⟨hbelow, Frozen.mergeAll h⟩) rfl]
    refine ⟨[], _, [mergeAll layers], rfl, ?_, find?_setAt_self _ hne _, ?_⟩
    · exact decides_of_find? (find?_setAt_self _ hne _)
    · intro u hu
      rw [List.mem_singleton.mp hu, decides_append hinner, decides_cons, hnone]
      simp
  rw [heq, find?_mergeAll_iff (by simpa using ⟨hbelow, h⟩) rfl] at hshown
  obtain ⟨lower, top, higher, hsplit, htop, hfound, hnot⟩ := hshown
  rw [List.append_nil] at hsplit
  cases lower with
  | nil =>
    obtain ⟨_, hhigher⟩ := List.cons.inj hsplit
    exact hnot t (hhigher ▸ ht) (decides_beneath_leaf hv hl [key])
  | cons first lower =>
    obtain ⟨_, hlayers⟩ := List.cons.inj hsplit
    have hfound' := (find?_mergeAll_iff h rfl).mpr ⟨lower, top, higher, hlayers, htop, hfound, hnot⟩
    rw [hgroup] at hfound'
    cases hfound'

end Tree
end LayeredConfig
