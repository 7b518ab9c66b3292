import LayeredConfig.Proofs.Tree.LooseLayers
import LayeredConfig.Proofs.Tree.Writing
/-!
# Freezing late

A raw map can be taken apart, pruned and laid over a tree before it is frozen, or frozen first. To take out a key
that no dotted key leads beneath comes to the same (`RawMap.freeze_erase`). To prune comes to the same exactly when
the map holds no absent values, which freeze to tombstones that are pruned only afterwards, and gives no map for the
sake of a tombstone alone (`RawMap.freeze_prune_eq_iff`). To lay a map over a tree comes to the same whenever the
overlay freezes (`RawMap.freeze_merge_eq`).
-/
namespace LayeredConfig

/-! ## Parts of an outline -/

namespace Outline

variable {a b c d : Outline} {place : List Key} {x : Option Raw}

/-- Whether an outline gives nothing that another does not, and no leaf more often. -/
structure Within (a b : Outline) : Prop where
  leaves : a.leaves ≤ b.leaves
  maps : a.maps ⊆ b.maps

theorem Within.refl (a : Outline) : a.Within a := ⟨le_rfl, subset_rfl⟩

theorem Within.trans (h : a.Within b) (h' : b.Within c) : a.Within c := ⟨h.leaves.trans h'.leaves, h.maps.trans h'.maps⟩

theorem Within.add (h : a.Within c) (h' : b.Within d) : (a + b).Within (c + d) :=
  ⟨add_le_add h.leaves h'.leaves, Set.union_subset_union h.maps h'.maps⟩

theorem within_add_left (a b : Outline) : b.Within (a + b) := ⟨Multiset.le_add_left _ _, Set.subset_union_right⟩

theorem Within.under (h : a.Within b) (keys : List Key) : (a.under keys).Within (b.under keys) :=
  ⟨Multiset.map_le_map h.leaves, fun _ hplace => hplace.imp id fun ⟨rest, hrest, heq⟩ => ⟨rest, h.maps hrest, heq⟩⟩

theorem Clear.mono (h : b.Clear) (hab : a.Within b) : a.Clear where
  nodup := Multiset.nodup_of_le (Multiset.map_le_map hab.leaves) h.nodup
  apart l hl hmap := h.apart l (Multiset.mem_of_le hab.leaves hl) (hab.maps hmap)
  names l hl := h.names l (Multiset.mem_of_le hab.leaves hl)
  map_names place hmap := h.map_names place (hab.maps hmap)
  freezes l hl := h.freezes l (Multiset.mem_of_le hab.leaves hl)

theorem gives_add_iff : (a + b).Gives place x ↔ a.Gives place x ∨ b.Gives place x := by
  cases x with
  | none => exact Iff.rfl
  | some v => exact Multiset.mem_add

end Outline

theorem RawMap.outline_sublist {m n : RawMap} (h : m.Sublist n) : m.outline.Within n.outline := by
  induction h with
  | slnil => exact .refl _
  | cons e _ ih =>
    rw [outline_cons]
    exact ih.trans (Outline.within_add_left _ _)
  | cons_cons e _ ih =>
    rw [outline_cons, outline_cons]
    exact (Outline.Within.refl _).add ih

/-! ## Pruning -/

mutual

theorem Raw.outline_prune? : {v w : Raw} → v.prune? = some w → w.outline.Within v.outline
  | .map entries, w, h => by
    rw [Raw.prune?] at h
    cases h
    rw [Raw.outline_map, Raw.outline_map]
    exact RawMap.outline_prune entries
  | .unset, _, h => by simp [Raw.prune?] at h
  | .null, _, h => by cases h; exact .refl _
  | .scalar _, _, h => by cases h; exact .refl _
  | .list _, _, h => by cases h; exact .refl _
  | .option _, _, h => by cases h; exact .refl _
  | .foreign _, _, h => by cases h; exact .refl _

theorem RawMap.outline_prune : (m : List (Key × Raw)) → (RawMap.prune m).outline.Within (RawMap.outline m)
  | [] => by
    rw [RawMap.prune]
    exact .refl _
  | (k, v) :: rest => by
    rw [RawMap.prune, RawMap.outline_cons]
    split
    · exact (RawMap.outline_prune rest).trans (Outline.within_add_left _ _)
    · rename_i w hw
      rw [RawMap.outline_cons]
      exact ((Raw.outline_prune? hw).under _).add (RawMap.outline_prune rest)

end

theorem Raw.prune?_eq_none_iff {v : Raw} : v.prune? = none ↔ v = .unset := by
  cases v <;> simp [Raw.prune?]

mutual

theorem Raw.gives_prune?_iff {place : List Key} {u : Raw} : {v w : Raw} → v.prune? = some w →
    (w.outline.Gives place (some u) ↔ v.outline.Gives place (some u) ∧ u ≠ .unset)
  | .map entries, w, h => by
    rw [Raw.prune?] at h
    cases h
    rw [Raw.outline_map, Raw.outline_map]
    exact RawMap.gives_prune_iff entries
  | .unset, _, h => by simp [Raw.prune?] at h
  | .null, _, h | .scalar _, _, h | .list _, _, h | .option _, _, h | .foreign _, _, h => by
    cases h
    rw [Raw.outline_of_isLeaf rfl]
    refine (and_iff_left_of_imp ?_).symm
    intro hu
    obtain ⟨_, rfl⟩ := Prod.mk.inj (Multiset.mem_singleton.mp hu)
    simp

theorem RawMap.gives_prune_iff {place : List Key} {u : Raw} : (m : List (Key × Raw)) →
    ((RawMap.prune m).outline.Gives place (some u) ↔ (RawMap.outline m).Gives place (some u) ∧ u ≠ .unset)
  | [] => by
    rw [RawMap.prune, RawMap.outline_nil]
    exact ⟨fun h => absurd h (Multiset.notMem_zero _), fun h => h.1⟩
  | (k, v) :: rest => by
    rw [RawMap.prune, RawMap.outline_cons, Outline.gives_add_iff]
    split
    · rename_i hnone
      rw [Raw.prune?_eq_none_iff] at hnone
      rw [RawMap.gives_prune_iff rest, or_and_right]
      refine (or_iff_right ?_).symm
      rintro ⟨hu, hne⟩
      rw [hnone, Raw.outline_of_isLeaf rfl] at hu
      obtain ⟨rest, _, hu⟩ := Outline.mem_leaves_under.mp hu
      exact hne (Prod.mk.inj (Multiset.mem_singleton.mp hu)).2
    · rename_i w hw
      rw [RawMap.outline_cons, Outline.gives_add_iff, RawMap.gives_prune_iff rest, or_and_right]
      refine or_congr_left ?_
      rw [Outline.gives_under_iff, Outline.gives_under_iff, or_iff_right (by simp), or_iff_right (by simp)]
      simp only [Raw.gives_prune?_iff hw, ← and_assoc, exists_and_right]

end

/-! ## What shows at a place -/

theorem exists_texts {place : List Key} (h : ∀ k ∈ place, k.IsName) :
    ∃ texts : List String, place = texts.map .text := by
  induction place with
  | nil => exact ⟨[], rfl⟩
  | cons k rest ih =>
    obtain ⟨hk, hrest⟩ := List.forall_mem_cons.mp h
    obtain ⟨s, rfl, _⟩ := hk
    obtain ⟨texts, rfl⟩ := ih hrest
    exact ⟨s :: texts, rfl⟩

/-- Whether a value is what an outline's giving freezes to: a leaf's stored form, and for a map the empty map. -/
def FreezesTo (x : Option Raw) (y : Value) : Prop :=
  match x with
  | none => y = .map []
  | some u => y.isLeaf ∧ ∃ label, freeze label u = .ok y

theorem Value.Stands.face_iff {w : Value} {a : Outline} (h : w.Stands a) {place : List String} {y : Value} :
    (w.find? place).map Value.face = some y ↔ ∃ x, a.Gives (place.map Key.text) x ∧ FreezesTo x y := by
  rw [Option.map_eq_some_iff]
  constructor
  · rintro ⟨z, hz, rfl⟩
    by_cases hleaf : z.isLeaf
    · obtain ⟨u, hu, hfreeze⟩ := (h.leaf place z).mp ⟨hz, hleaf⟩
      rw [Value.face_of_isLeaf hleaf]
      exact ⟨some u, hu, hleaf, hfreeze⟩
    · obtain ⟨below, rfl⟩ := Value.eq_map_of_not_isLeaf hleaf
      exact ⟨none, (h.map place).mp ⟨below, hz⟩, rfl⟩
  · rintro ⟨x, hx, hy⟩
    cases x with
    | none =>
      obtain ⟨below, hbelow⟩ := (h.map place).mpr hx
      exact ⟨.map below, hbelow, hy.symm⟩
    | some u =>
      obtain ⟨hfound, hleaf⟩ := (h.leaf place y).mpr ⟨u, hx, hy.2⟩
      exact ⟨y, hfound, Value.face_of_isLeaf hleaf⟩

theorem Value.Stands.face?_iff {t : Tree} {a : Outline} (h : (Value.map t).Stands a) {place : List String}
    {y : Value} : t.face? place = some y ↔ ∃ x, a.Gives (place.map Key.text) x ∧ FreezesTo x y := by
  rw [Tree.face?, ← h.face_iff, Value.find?_map]

theorem Tree.face?_prune_iff {t : Tree} (h : t.Frozen) {place : List String} {y : Value} :
    (prune t).face? place = some y ↔ t.face? place = some y ∧ y ≠ .unset := by
  rw [face?_prune h]
  cases hw : t.face? place with
  | none => simp
  | some w =>
    obtain ⟨v, _, rfl⟩ := Option.map_eq_some_iff.mp hw
    cases v <;> simp [Value.face, Value.prune?, prune] <;> rintro rfl <;> simp

theorem freeze_eq_unset_iff {label : Key} {v : Raw} : freeze label v = .ok .unset ↔ v = .unset ∨ v = .null := by
  constructor
  · intro h
    cases v with
    | null => exact .inr rfl
    | unset => exact .inl rfl
    | scalar s => cases (freeze_scalar h).1
    | list items =>
      rw [freeze] at h
      obtain ⟨_, _, hmap⟩ := Outcome.map_eq_ok_iff.mp h
      cases hmap
    | map m =>
      obtain ⟨_, _, _, _, hmap⟩ := freeze_map_eq_ok_iff.mp h
      cases hmap
    | option o | foreign f => simp [freeze] at h
  · rintro (rfl | rfl) <;> rw [freeze]

/-! ## Pruning early -/

namespace RawMap

variable {m : RawMap} {what : String} {t : Tree}

/-- Whether a raw map can as well be pruned before it is frozen: it gives no absent values, which become tombstones
    only when they are frozen, and no map for the sake of tombstones alone, as a dotted key with a tombstone does. -/
structure PrunesEarly (m : RawMap) : Prop where
  no_null : ∀ place, ¬ m.outline.Gives place (some .null)
  keeps_maps : ∀ place, m.outline.Gives place none → (prune m).outline.Gives place none

theorem freeze_prune_comes_out (hm : m.Distinct) (h : freezeTree what (.map m) = .ok t) :
    ∃ u, freezeTree what (.map (prune m)) = .ok u :=
  freezeTree_comes_out what hm.prune ((clear_of_freezeTree hm h).mono (outline_prune m))

/-- To prune first comes to the same exactly when the raw map prunes early. -/
theorem freeze_prune_eq_iff {u : Tree} (hm : m.Distinct) (h : freezeTree what (.map m) = .ok t)
    (hu : freezeTree what (.map (prune m)) = .ok u) : u = Tree.prune t ↔ m.PrunesEarly := by
  have ht : t.Frozen := freezeTree_frozen (distinct_map.mpr hm) h
  have hfull := stands_of_freezeTree hm h
  have hpruned := stands_of_freezeTree hm.prune hu
  constructor
  · rintro rfl
    have hclear := clear_of_freezeTree hm h
    refine ⟨?_, ?_⟩
    · intro place hnull
      obtain ⟨keys, rfl⟩ := exists_texts (hclear.names _ hnull)
      have hshown := hpruned.face?_iff.mpr ⟨some .null, (gives_prune_iff m).mpr ⟨hnull, nofun⟩, rfl, what,
        freeze_eq_unset_iff.mpr (.inr rfl)⟩
      exact ((Tree.face?_prune_iff ht).mp hshown).2 rfl
    · intro place hmap
      obtain ⟨keys, rfl⟩ := exists_texts (hclear.map_names _ hmap)
      have hshown : (Tree.prune t).face? keys = some (.map []) :=
        (Tree.face?_prune_iff ht).mpr ⟨hfull.face?_iff.mpr ⟨none, hmap, rfl⟩, nofun⟩
      obtain ⟨x, hx, hto⟩ := hpruned.face?_iff.mp hshown
      cases x with
      | none => exact hx
      | some v => exact absurd hto.1 (by simp)
  · intro hearly
    refine Tree.eq_of_face? (freezeTree_frozen (distinct_map.mpr hm.prune) hu) ht.prune ?_
    intro place
    ext y
    rw [Tree.face?_prune_iff ht, hpruned.face?_iff, hfull.face?_iff]
    constructor
    · rintro ⟨x, hx, hto⟩
      cases x with
      | none => exact ⟨⟨none, (outline_prune m).maps hx, hto⟩, hto ▸ nofun⟩
      | some v =>
        obtain ⟨hv, hne⟩ := (gives_prune_iff m).mp hx
        refine ⟨⟨some v, hv, hto⟩, ?_⟩
        rintro rfl
        obtain ⟨label, hlabel⟩ := hto.2
        rcases freeze_eq_unset_iff.mp hlabel with rfl | rfl
        · exact hne rfl
        · exact hearly.no_null _ hv
    · rintro ⟨⟨x, hx, hto⟩, hne⟩
      cases x with
      | none => exact ⟨none, hearly.keeps_maps _ hx, hto⟩
      | some v =>
        refine ⟨some v, (gives_prune_iff m).mpr ⟨hx, ?_⟩, hto⟩
        rintro rfl
        obtain ⟨label, hlabel⟩ := hto.2
        exact hne (Except.ok.inj (hlabel.symm.trans (freeze_eq_unset_iff.mpr (.inl rfl))))

/-! ## Overlaying early -/

theorem decides_iff (hm : m.Distinct) (h : freezeTree what (.map m) = .ok t) {place : List String} :
    t.Decides place ↔ m.outline.Decides (place.map Key.text) := by
  have hstands := stands_of_freezeTree hm h
  constructor
  · rintro (⟨v, hv⟩ | ⟨front, rest, v, rfl, hrest, hv, hl⟩)
    · by_cases hl : v.isLeaf
      · obtain ⟨u, hu, _⟩ := (hstands.leaf place v).mp ⟨(Value.find?_map t place).trans hv, hl⟩
        exact .inr ⟨_, u, hu, List.prefix_rfl⟩
      · obtain ⟨below, rfl⟩ := Value.eq_map_of_not_isLeaf hl
        exact .inl ((hstands.map place).mp ⟨below, (Value.find?_map t place).trans hv⟩)
    · obtain ⟨u, hu, _⟩ := (hstands.leaf front v).mp ⟨(Value.find?_map t front).trans hv, hl⟩
      exact .inr ⟨_, u, hu, List.map_append ▸ List.prefix_append _ _⟩
  · rintro (hmap | ⟨front, u, hu, hpre⟩)
    · obtain ⟨below, hbelow⟩ := (hstands.map place).mpr hmap
      exact Tree.decides_of_find? ((Value.find?_map t place).symm.trans hbelow)
    · obtain ⟨front, ⟨rest, rfl⟩, rfl⟩ := List.prefix_map_iff.mp hpre
      obtain ⟨label, x, hx⟩ := (clear_of_freezeTree hm h).freezes _ hu
      obtain ⟨hfound, hl⟩ := (hstands.leaf front x).mpr ⟨u, hu, label, hx⟩
      exact Tree.decides_beneath_leaf ((Value.find?_map t front).symm.trans hfound) hl rest

/-- To lay a raw map over a tree before freezing it comes to the same, once the overlay freezes. -/
theorem freeze_merge_eq {root u : Tree} (hroot : root.Frozen) (hm : m.Distinct) (h : freezeTree what (.map m) = .ok t)
    (hu : freezeTree what (.map (merge (Value.thawEntries root) m)) = .ok u) : u = Tree.merge root t := by
  have ht : t.Frozen := freezeTree_frozen (distinct_map.mpr hm) h
  have hthaw := Tree.Frozen.thaw_distinct root hroot
  have hover : (merge (Value.thawEntries root) m).Distinct := RawMap.Distinct.merge hm hthaw
  have hlow := stands_of_freezeTree hthaw (freezeTree_thaw what hroot)
  have hhigh := stands_of_freezeTree hm h
  have hboth := stands_of_freezeTree hover hu
  have hoverlays : (merge (Value.thawEntries root) m).outline.Overlays (outline (Value.thawEntries root)) m.outline :=
    outline_merge hm hthaw fun d hd _ hb => Raw.outline_over d.2 (hm.of_mem hd) hb
  have hof : ∀ place y, t.face? place = some y → u.face? place = some y := by
    intro place y hy
    obtain ⟨x, hx, hto⟩ := hhigh.face?_iff.mp hy
    exact hboth.face?_iff.mpr ⟨x, hoverlays.of_higher _ _ hx, hto⟩
  refine Tree.eq_of_face? (freezeTree_frozen (distinct_map.mpr hover) hu) (ht.merge hroot) ?_
  intro place
  by_cases hdec : t.Decides place
  · rw [(Tree.face?_merge ht place).1 hdec]
    cases hy : t.face? place with
    | some y => exact hof place y hy
    | none =>
      -- a leaf on the way decides the place, and stands there in the overlay as well
      rcases hdec with ⟨v, hv⟩ | ⟨front, rest, v, rfl, hrest, hv, hl⟩
      · rw [Tree.face?, hv] at hy
        cases hy
      · have hfront : u.face? front = some v := by
          apply hof
          rw [Tree.face?, hv, Option.map_some, Value.face_of_isLeaf hl]
        rw [Tree.face?, Tree.find?_append, Tree.find?_of_face?_isLeaf hl hfront, Option.bind_some,
          Value.find?_of_isLeaf hl hrest]
        rfl
  · rw [(Tree.face?_merge ht place).2 hdec]
    rw [decides_iff hm h] at hdec
    ext y
    rw [hboth.face?_iff, hlow.face?_iff]
    constructor
    · rintro ⟨x, hx, hto⟩
      rcases hoverlays.among _ x hx with hhigher | hlower
      · exact absurd hhigher.decides hdec
      · exact ⟨x, hlower, hto⟩
    · rintro ⟨x, hx, hto⟩
      exact ⟨x, hoverlays.of_lower _ x hx hdec, hto⟩

/-! ## Taking out a key early -/

section Alone

variable {s : String} {k : Key} {rest : List Key} {x : Option Raw} {v : Raw}

/-- Whether no dotted key of a raw map leads beneath a text. -/
def Alone (m : RawMap) (s : String) : Prop := ∀ e ∈ m, e.1.parts.head? = some (.text s) → e.1 = .text s

theorem Alone.gives_erase_iff (h : m.Alone s) (hs : (Key.text s).parts = [.text s]) :
    (m.erase (.text s)).outline.Gives (k :: rest) x ↔ k ≠ .text s ∧ m.outline.Gives (k :: rest) x := by
  rw [gives_iff, gives_iff]
  constructor
  · rintro (⟨hnil, _⟩ | ⟨e, he, hgives⟩)
    · cases hnil
    · obtain ⟨hmem, hnot⟩ := List.mem_filter.mp he
      refine ⟨?_, .inr ⟨e, hmem, hgives⟩⟩
      rintro rfl
      rw [h e hmem (Outline.head?_of_gives_under (Key.parts_ne_nil e.1) hgives), Key.same_self] at hnot
      cases hnot
  · rintro ⟨hk, ⟨hnil, _⟩ | ⟨e, he, hgives⟩⟩
    · cases hnil
    · refine .inr ⟨e, List.mem_filter.mpr ⟨he, ?_⟩, hgives⟩
      rw [Bool.not_eq_true', Bool.eq_false_iff]
      intro hsame
      have hhead := Outline.head?_of_gives_under (Key.parts_ne_nil e.1) hgives
      rw [Key.parts_eq_of_same hsame, hs] at hhead
      exact hk (Option.some.inj hhead).symm

theorem Alone.gives_iff_of_get? (h : m.Alone s) (hs : (Key.text s).parts = [.text s]) (hm : m.Distinct)
    (hg : m.get? (.text s) = some v) : m.outline.Gives (.text s :: rest) x ↔ v.outline.Gives rest x := by
  constructor
  · intro hgives
    rcases gives_iff.mp hgives with ⟨hnil, _⟩ | ⟨e, he, hgives⟩
    · cases hnil
    · have hkey : e.1 = .text s := h e he (Outline.head?_of_gives_under (Key.parts_ne_nil e.1) hgives)
      have hvalue : m.get? (.text s) = some e.2 := hm.get?_of_mem he (by rw [hkey, Key.same_self])
      cases hg.symm.trans hvalue
      rw [hkey, hs] at hgives
      rcases Outline.gives_under_iff.mp hgives with ⟨_, hpre, hne⟩ | ⟨rest', heq, hbeneath⟩
      · rw [List.cons_prefix_cons, List.prefix_nil] at hpre
        exact absurd (by rw [hpre.2]) hne
      · obtain rfl : rest = rest' := (List.cons.inj heq).2
        exact hbeneath
  · intro hgives
    obtain ⟨l, hl, hmem⟩ := exists_mem_of_get? hg
    refine gives_of_mem hmem hl ?_
    rw [hs]
    exact hgives.under [.text s]

theorem Alone.not_gives_of_get? (h : m.Alone s) (hm : m.Distinct) (hg : m.get? (.text s) = none) :
    ¬ m.outline.Gives (.text s :: rest) x := by
  intro hgives
  rcases gives_iff.mp hgives with ⟨hnil, _⟩ | ⟨e, he, hgives⟩
  · cases hnil
  · have hkey : e.1 = .text s := h e he (Outline.head?_of_gives_under (Key.parts_ne_nil e.1) hgives)
    cases hg.symm.trans (hm.get?_of_mem he (by rw [hkey, Key.same_self]))

/-- A key that no dotted key leads beneath can as well be taken out before freezing. -/
theorem Alone.freeze_erase (h : m.Alone s) (hs : (Key.text s).parts = [.text s]) (hm : m.Distinct)
    (ht : freezeTree what (.map m) = .ok t) : freezeTree what (.map (m.erase (.text s))) = .ok (t.erase s) := by
  have hdistinct : (m.erase (.text s)).Distinct := hm.erase _
  have hfrozen : t.Frozen := freezeTree_frozen (distinct_map.mpr hm) ht
  obtain ⟨u, hu⟩ := freezeTree_comes_out what hdistinct
    ((clear_of_freezeTree hm ht).mono (outline_sublist List.filter_sublist))
  rw [hu]
  congr 1
  refine Tree.eq_of_face? (freezeTree_frozen (distinct_map.mpr hdistinct) hu) (hfrozen.erase s) ?_
  intro place
  cases place with
  | nil => rfl
  | cons key rest =>
    ext y
    rw [(stands_of_freezeTree hdistinct hu).face?_iff, List.map_cons]
    simp only [h.gives_erase_iff hs]
    by_cases hkey : key = s
    · subst hkey
      rw [Tree.face?_cons, Tree.get?_erase_self]
      simp
    · rw [Tree.face?_cons, Tree.get?_erase hkey, ← Tree.face?_cons, (stands_of_freezeTree hm ht).face?_iff]
      simp [hkey]

theorem Alone.get?_of_get? (h : m.Alone s) (hs : (Key.text s).parts = [.text s]) (hkey : IsKey s) (hm : m.Distinct)
    (ht : freezeTree what (.map m) = .ok t) (hg : m.get? (.text s) = some v) :
    ∃ y, freeze what v = .ok y ∧ t.get? s = some y := by
  obtain ⟨l, _, hmem⟩ := exists_mem_of_get? hg
  have hv : v.Distinct := hm.of_get? hg
  have hfrozen : t.Frozen := freezeTree_frozen (distinct_map.mpr hm) ht
  obtain ⟨y, hy⟩ := freeze_comes_out v hv (clear_of_mem (clear_of_freezeTree hm ht) hmem) what
  refine ⟨y, hy, ?_⟩
  -- with that value under the key the tree shows nothing else than before
  have heq : t = t.insert s y := by
    refine Tree.eq_of_face? hfrozen (hfrozen.insert hkey (freeze_frozen v hv hy)) ?_
    intro place
    cases place with
    | nil => rfl
    | cons key rest =>
      by_cases hne : key = s
      · subst hne
        ext z
        rw [(stands_of_freezeTree hm ht).face?_iff, Tree.face?_cons, Tree.get?_insert, if_pos rfl, Option.bind_some,
          (stands_of_freeze v hv hy).face_iff, List.map_cons]
        simp only [h.gives_iff_of_get? hs hm hg]
      · rw [Tree.face?_cons, Tree.face?_cons, Tree.get?_insert, if_neg (Ne.symm hne)]
  rw [heq, Tree.get?_insert, if_pos rfl]

theorem Alone.get?_eq_none (h : m.Alone s) (hm : m.Distinct) (ht : freezeTree what (.map m) = .ok t)
    (hg : m.get? (.text s) = none) : t.get? s = none := by
  cases hfound : t.get? s with
  | none => rfl
  | some y =>
    have hshown : t.face? [s] = some y.face := by simp [Tree.face?, Tree.find?_cons, hfound]
    obtain ⟨x, hx, _⟩ := (stands_of_freezeTree hm ht).face?_iff.mp hshown
    exact absurd hx (h.not_gives_of_get? hm hg)

end Alone

end RawMap

/-! ## What was frozen before -/

mutual

theorem Value.prune?_thaw : (v : Value) → v.thaw.prune? = v.prune?.map Value.thaw
  | .map entries => by
    rw [Value.thaw, Raw.prune?, Value.prune?_map, Option.map_some, Value.thaw, Tree.prune_thawEntries entries]
  | .unset => by rw [Value.thaw, Raw.prune?, Value.prune?_unset, Option.map_none]
  | .scalar s => by simp [Value.thaw, Raw.prune?, Value.prune?]
  | .list items => by simp [Value.thaw, Raw.prune?, Value.prune?]

theorem Tree.prune_thawEntries : (t : List (String × Value)) →
    RawMap.prune (Value.thawEntries t) = Value.thawEntries (Tree.prune t)
  | [] => by simp [Value.thawEntries, RawMap.prune, Tree.prune]
  | (k, v) :: rest => by
    rw [Value.thawEntries, RawMap.prune, Value.prune?_thaw v, Tree.prune_thawEntries rest]
    cases hv : v.prune? with
    | none => rw [Tree.prune_cons_of_none hv, Option.map_none]
    | some w => rw [Tree.prune_cons_of_some hv, Option.map_some, Value.thawEntries]

end

theorem Value.Frozen.clear_thaw {v : Value} (h : v.Frozen) : v.thaw.outline.Clear :=
  clear_of_freeze v.thaw h.thaw_distinct (freeze_thaw "value" v h)

namespace Tree

variable {t root : Tree}

theorem get?_thawEntries (t : Tree) (key : String) :
    RawMap.get? (Value.thawEntries t) (.text key) = (t.get? key).map Value.thaw := by
  induction t with
  | nil => rfl
  | cons e rest ih =>
    obtain ⟨k, v⟩ := e
    rw [Value.thawEntries, RawMap.get?, get?, ih]
    by_cases hk : k = key
    · simp [Key.same, hk]
    · simp [Key.same, hk]

theorem erase_thawEntries (t : Tree) (key : String) :
    RawMap.erase (Value.thawEntries t) (.text key) = Value.thawEntries (t.erase key) := by
  rw [thawEntries_eq_map, thawEntries_eq_map, RawMap.erase, erase, List.filter_map]
  congr 1
  refine List.filter_congr fun e _ => ?_
  simp [Key.same]

theorem Frozen.prunesEarly (h : t.Frozen) : RawMap.PrunesEarly (Value.thawEntries t) := by
  have hpruned : freezeTree "tree" (.map (RawMap.prune (Value.thawEntries t))) = .ok (Tree.prune t) := by
    rw [prune_thawEntries]
    exact freezeTree_thaw "tree" h.prune
  exact (RawMap.freeze_prune_eq_iff h.thaw_distinct (freezeTree_thaw "tree" h) hpruned).mp rfl

theorem Frozen.plain_thawEntries (h : t.Frozen) : RawMap.Plain (Value.thawEntries t) := by
  intro e he
  obtain ⟨d, hd, rfl⟩ := mem_thawEntries he
  obtain ⟨hne, hdot⟩ := h.isKey_of_mem hd
  exact ⟨⟨d.1, rfl, hne⟩, Key.split?_text_eq_none_iff.mpr hdot⟩

end Tree

theorem RawMap.Plain.alone {m : RawMap} (h : m.Plain) (s : String) : m.Alone s := by
  intro e he hhead
  rw [h.parts he] at hhead
  exact Option.some.inj hhead

theorem RawMap.Plain.merge {lower higher : RawMap} (hl : lower.Plain) (hh : higher.Plain) (hd : Distinct higher) :
    (merge lower higher).Plain := by
  intro e he
  rcases mem_merge hd he with he | ⟨d, hmem, hsame, _⟩
  · exact hl e he
  · have hkey := hh d hmem
    obtain ⟨s, hs, _⟩ := hkey.1
    rw [hs] at hsame
    rw [Key.eq_of_same_text hsame, ← hs]
    exact hkey

theorem Value.eq_map_of_thaw {v : Value} {m : RawMap} (h : v.thaw = .map m) : ∃ t, v = .map t := by
  cases v with
  | map t => exact ⟨t, rfl⟩
  | _ => simp [Value.thaw] at h

/-- Stored values laid over each other in raw form freeze. -/
theorem Value.clear_over_thaw (v : Value) (hv : v.Frozen) {below : Option Value}
    (hb : ∀ w, below = some w → w.Frozen) : (v.thaw.over (below.map Value.thaw)).outline.Clear := by
  by_cases hmaps : ∃ higher lower, v = .map higher ∧ below = some (.map lower)
  · obtain ⟨higher, lower, hhigher, rfl⟩ := hmaps
    have hh : Tree.Frozen higher := Tree.frozen_map.mp (hhigher ▸ hv)
    have hl : Tree.Frozen lower := Tree.frozen_map.mp (hb _ rfl)
    have hdistinct := Tree.Frozen.thaw_distinct _ hh
    rw [hhigher, Option.map_some, Value.thaw, Value.thaw, Raw.over, Raw.outline_map]
    apply (hl.plain_thawEntries.merge hh.plain_thawEntries hdistinct).clear (hdistinct.merge hl.thaw_distinct)
    intro e he
    rcases RawMap.mem_merge hdistinct he with he | ⟨d, hmem, _, hvalue⟩
    · obtain ⟨x, hx, rfl⟩ := Tree.mem_thawEntries he
      exact Value.Frozen.clear_thaw (hl.value_of_mem hx)
    · obtain ⟨x, hx, rfl⟩ := Tree.mem_thawEntries hmem
      rw [hvalue, Tree.get?_thawEntries]
      have hsize : sizeOf x.2 < sizeOf v := by
        have hentry := List.sizeOf_lt_of_mem hx
        obtain ⟨k, w⟩ := x
        simp [hhigher] at hentry ⊢
        omega
      exact Value.clear_over_thaw x.2 (hh.value_of_mem hx) fun w hw => hl.of_get? hw
  · rw [Raw.over_of_not_maps]
    · exact hv.clear_thaw
    · intro higher lower hhigher hlower
      obtain ⟨t, rfl⟩ := Value.eq_map_of_thaw hhigher
      obtain ⟨w, rfl, hw⟩ := Option.map_eq_some_iff.mp hlower
      obtain ⟨u, rfl⟩ := Value.eq_map_of_thaw hw
      exact hmaps ⟨t, u, rfl, rfl⟩
termination_by sizeOf v

/-- A frozen tree can be laid over another in raw form. -/
theorem Tree.Frozen.freeze_merge_comes_out {root t : Tree} (hroot : root.Frozen) (h : t.Frozen) (what : String) :
    ∃ u, freezeTree what (.map (RawMap.merge (Value.thawEntries root) (Value.thawEntries t))) = .ok u := by
  refine RawMap.freezeTree_comes_out what (h.thaw_distinct.merge hroot.thaw_distinct) ?_
  have hclear : ((Value.map t).thaw.over ((some (Value.map root)).map Value.thaw)).outline.Clear :=
    Value.clear_over_thaw _ (Tree.frozen_map.mpr h) fun w hw => Option.some.inj hw ▸ Tree.frozen_map.mpr hroot
  rwa [Option.map_some, Value.thaw, Value.thaw, Raw.over, Raw.outline_map] at hclear

end LayeredConfig
