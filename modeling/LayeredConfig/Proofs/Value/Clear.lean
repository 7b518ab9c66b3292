import LayeredConfig.Proofs.Tree.Place
import LayeredConfig.Proofs.Value.Outline
import Mathlib.Data.Multiset.UnionInter
/-!
# What freezes, and to what

Whether a raw value freezes can be told from its outline (`freeze_comes_out_iff`): no place may be given two leaves, or
a leaf and a map; every key must be a text that is not empty; and every leaf must freeze. What it freezes to can be
told as well (`stands_of_freeze`): the stored value has the frozen leaves at their places and maps where the outline
has maps. The label under which a value is frozen names its failures and nothing else (`freeze_relabel`).
-/
namespace LayeredConfig

/-! ## Labels -/

mutual

theorem combine_relabel {label : Key} {a c : Raw} (other : Key) : (b : Raw) → combine label a b = .ok c →
    combine other a b = .ok c
  | .map entries, h => by
    rw [combine.eq_def] at h ⊢
    simp only at h ⊢
    split at h
    · obtain ⟨r, hr, rfl⟩ := Outcome.map_eq_ok_iff.mp h
      exact Outcome.map_eq_ok_iff.mpr ⟨r, combineEntries_relabel other entries hr, rfl⟩
    · cases h
  | .null, h => by simp [combine] at h
  | .unset, h => by simp [combine] at h
  | .scalar _, h => by simp [combine] at h
  | .list _, h => by simp [combine] at h
  | .option _, h => by simp [combine] at h
  | .foreign _, h => by simp [combine] at h

theorem combineEntries_relabel {label : Key} {out r : RawMap} (other : Key) : (entries : RawMap) →
    combineEntries label out entries = .ok r → combineEntries other out entries = .ok r
  | [], h => by
    rw [combineEntries] at h ⊢
    exact h
  | (k, v) :: rest, h => by
    rw [combineEntries] at h ⊢
    split at h
    · exact combineEntries_relabel other rest h
    · split at h
      · cases h
      · rename_i u hu
        rw [combine_relabel (other.child k) v hu]
        exact combineEntries_relabel other rest h

end

namespace RawMap

theorem addAllNested_relabel {label : Key} {r : RawMap} (other : Key) (entries : RawMap) {out : RawMap}
    (h : addAllNested label out entries = .ok r) : addAllNested other out entries = .ok r := by
  induction entries generalizing out with
  | nil =>
    rw [addAllNested] at h ⊢
    exact h
  | cons e rest ih =>
    rw [addAllNested] at h ⊢
    split at h
    · cases h
    · rename_i out' hadd
      have hother : addNested other out e = .ok out' := by
        simp only [addNested] at hadd ⊢
        split at hadd
        · exact hadd
        · obtain ⟨u, hu, hinsert⟩ := Outcome.map_eq_ok_iff.mp hadd
          exact Outcome.map_eq_ok_iff.mpr ⟨u, combine_relabel _ _ hu, hinsert⟩
      rw [hother]
      exact ih h

theorem nestDotted_relabel {label : Key} {m r : RawMap} (other : Key) (h : nestDotted label m = .ok r) :
    nestDotted other m = .ok r := by
  rw [nestDotted] at h ⊢
  split at h
  · rename_i hany
    rw [if_pos hany]
    exact addAllNested_relabel other _ h
  · rename_i hany
    rw [if_neg hany]
    exact h

end RawMap

theorem freezeItems_relabel {label : Key} {i : Nat} {items : List Raw} {out : List Value} (other : Key) (j : Nat)
    (hv : ∀ v ∈ items, ∀ {l l' : Key} {w : Value}, freeze l v = .ok w → freeze l' v = .ok w)
    (h : freezeItems label i items = .ok out) : freezeItems other j items = .ok out := by
  induction items generalizing i j out with
  | nil =>
    rw [freezeItems] at h ⊢
    exact h
  | cons v rest ih =>
    obtain ⟨hv, hrest⟩ := List.forall_mem_cons.mp hv
    rw [freezeItems] at h ⊢
    split at h
    · cases h
    · cases h
    · rename_i w hne hw
      obtain ⟨u, hu, rfl⟩ := Outcome.map_eq_ok_iff.mp h
      rw [hv hw, ih (j + 1) hrest hu]
      cases w with
      | unset => exact absurd rfl hne
      | _ => rfl

/-- What a value freezes to does not depend on its label. -/
theorem freeze_relabel {label : Key} : (v : Raw) → {w : Value} → (other : Key) → freeze label v = .ok w →
    freeze other v = .ok w
  | .null, _, _, h => by rw [freeze] at h ⊢; exact h
  | .unset, _, _, h => by rw [freeze] at h ⊢; exact h
  | .scalar s, _, _, h => by
    cases s with
    | int n =>
      rw [freeze] at h ⊢
      split at h
      · rename_i hfits
        rw [if_pos hfits]
        exact h
      · cases h
    | _ =>
      rw [freeze.eq_def] at h ⊢
      exact h
  | .list items, _, other, h => by
    rw [freeze] at h ⊢
    obtain ⟨out, hout, rfl⟩ := Outcome.map_eq_ok_iff.mp h
    refine Outcome.map_eq_ok_iff.mpr ⟨out, freezeItems_relabel other 0 ?_ hout, rfl⟩
    intro v hv l l' w hw
    have hweight := Raw.weight_lt_of_mem_items hv
    exact freeze_relabel v l' hw
  | .map m, _, other, h => by
    obtain ⟨r, t, hr, ht, rfl⟩ := freeze_map_eq_ok_iff.mp h
    refine freeze_map_eq_ok_iff.mpr ⟨r, t, RawMap.nestDotted_relabel other hr, ?_, rfl⟩
    rw [freezeEntries_eq_ok_iff] at ht ⊢
    have hvalues : ∀ e ∈ r.sortedByText, ∀ l l' w, freeze l e.2 = .ok w → freeze l' e.2 = .ok w := by
      intro e he l l' w hw
      have hweight := RawMap.weight_lt_of_nestDotted hr ((sortOrdered_perm r).mem_iff.mp he)
      exact freeze_relabel e.2 l' hw
    refine ((List.forall₂_and_left _ _).mpr ⟨hvalues, ht⟩).imp ?_
    intro e d h
    obtain ⟨hvalue, hkey, hne, hd⟩ := h
    exact ⟨hkey, hne, hvalue _ _ _ hd⟩
  | .option _, _, _, h => by simp [freeze] at h
  | .foreign _, _, _, h => by simp [freeze] at h
termination_by v => v.weight

/-! ## What an outline must be like -/

/-- Whether a key is a text that is not empty. -/
def Key.IsName (k : Key) : Prop := ∃ s, k = .text s ∧ s ≠ ""

theorem Key.parts_of_isName {k : Key} (h : k.IsName) (hcut : k.split? = none) : k.parts = [k] := by
  obtain ⟨s, rfl, _⟩ := h
  exact Key.parts_of_undotted hcut

theorem Key.isName_of_parts {k : Key} (hcut : k.split? = none) (h : ∀ l ∈ k.parts, l.IsName) : k.IsName := by
  cases k with
  | text s =>
    rw [parts_of_undotted hcut] at h
    exact h _ List.mem_cons_self
  | _ =>
    obtain ⟨s, hs, _⟩ := h _ List.mem_cons_self
    cases hs

namespace Outline

/-- Whether what is given makes a stored value: no place is given two leaves, or a leaf and a map; all keys are texts
    that are not empty; and every leaf freezes. -/
structure Clear (a : Outline) : Prop where
  nodup : (a.leaves.map (·.1)).Nodup
  apart : ∀ l ∈ a.leaves, l.1 ∉ a.maps
  names : ∀ l ∈ a.leaves, ∀ k ∈ l.1, k.IsName
  map_names : ∀ place ∈ a.maps, ∀ k ∈ place, k.IsName
  freezes : ∀ l ∈ a.leaves, ∃ label w, freeze label l.2 = .ok w

variable {a b : Outline} {keys : List Key}

theorem Clear.left (h : (a + b).Clear) : a.Clear where
  nodup := by
    have hnodup := h.nodup
    rw [add_leaves, Multiset.map_add, Multiset.nodup_add] at hnodup
    exact hnodup.1
  apart l hl hmap := h.apart l (Multiset.mem_add.mpr (.inl hl)) (.inl hmap)
  names l hl := h.names l (Multiset.mem_add.mpr (.inl hl))
  map_names place hmap := h.map_names place (.inl hmap)
  freezes l hl := h.freezes l (Multiset.mem_add.mpr (.inl hl))

theorem Clear.right (h : (a + b).Clear) : b.Clear := (add_comm a b ▸ h).left

theorem Clear.not_mem_right (h : (a + b).Clear) {place : List Key} {u v : Raw} (hu : (place, u) ∈ a.leaves) :
    (place, v) ∉ b.leaves := by
  intro hv
  have hnodup := h.nodup
  rw [add_leaves, Multiset.map_add] at hnodup
  exact Multiset.disjoint_left.mp (Multiset.disjoint_of_nodup_add hnodup)
    (Multiset.mem_map_of_mem (·.1) hu) (Multiset.mem_map_of_mem (·.1) hv)

theorem map_fst_under (keys : List Key) (a : Outline) :
    (a.under keys).leaves.map (·.1) = (a.leaves.map (·.1)).map (keys ++ ·) := by
  rw [under, Multiset.map_map, Multiset.map_map]
  rfl

theorem mem_under_of_mem {l : List Key × Raw} (hl : l ∈ a.leaves) : (keys ++ l.1, l.2) ∈ (a.under keys).leaves :=
  mem_leaves_under.mpr ⟨l.1, rfl, hl⟩

theorem Clear.of_under (h : (a.under keys).Clear) : a.Clear where
  nodup := by
    have hnodup := h.nodup
    rw [map_fst_under] at hnodup
    exact hnodup.of_map _
  apart l hl hmap := h.apart _ (mem_under_of_mem hl) (.inr ⟨l.1, hmap, rfl⟩)
  names l hl k hk := h.names _ (mem_under_of_mem hl) k (List.mem_append_right keys hk)
  map_names place hmap k hk := h.map_names _ (.inr ⟨place, hmap, rfl⟩) k (List.mem_append_right keys hk)
  freezes l hl := h.freezes (keys ++ l.1, l.2) (mem_under_of_mem hl)

theorem Clear.under (h : a.Clear) (hk : ∀ k ∈ keys, k.IsName) : (a.under keys).Clear where
  nodup := by
    rw [map_fst_under]
    exact h.nodup.map (List.append_right_injective keys)
  apart := by
    intro l hl hmap
    obtain ⟨rest, hplace, hl⟩ := mem_leaves_under.mp hl
    rcases hmap with ⟨hpre, hne⟩ | ⟨rest', hmap, hplace'⟩
    · have hrest : rest = [] := by
        have hlength := hpre.length_le
        rw [hplace, List.length_append] at hlength
        exact List.eq_nil_of_length_eq_zero (by omega)
      exact hne (by rw [hplace, hrest, List.append_nil])
    · rw [hplace] at hplace'
      exact h.apart _ hl (List.append_cancel_left hplace' ▸ hmap)
  names := by
    intro l hl k hmem
    obtain ⟨rest, hplace, hl⟩ := mem_leaves_under.mp hl
    rw [hplace] at hmem
    rcases List.mem_append.mp hmem with hmem | hmem
    · exact hk k hmem
    · exact h.names _ hl k hmem
  map_names := by
    intro place hmap k hmem
    rcases hmap with ⟨hpre, _⟩ | ⟨rest, hmap, rfl⟩
    · exact hk k (hpre.subset hmem)
    · rcases List.mem_append.mp hmem with hmem | hmem
      · exact hk k hmem
      · exact h.map_names rest hmap k hmem
  freezes := by
    intro l hl
    obtain ⟨rest, _, hl⟩ := mem_leaves_under.mp hl
    exact h.freezes (rest, l.2) hl

theorem mem_maps_under_singleton {k : Key} {place : List Key} :
    place ∈ (a.under [k]).maps ↔ place = [] ∨ ∃ rest ∈ a.maps, place = k :: rest := by
  rw [mem_maps_under]
  refine or_congr_left ?_
  rw [List.prefix_cons_iff]
  constructor
  · intro hpre
    obtain ⟨hnil | ⟨rest, rfl, hrest⟩, hne⟩ := hpre
    · exact hnil
    · exact absurd (by rw [List.prefix_nil.mp hrest]) hne
  · rintro rfl
    exact ⟨.inl rfl, (List.cons_ne_nil k []).symm⟩

theorem Clear.add (ha : a.Clear) (hb : b.Clear) (hleaves : ∀ l ∈ a.leaves, ∀ l' ∈ b.leaves, l.1 ≠ l'.1)
    (hleft : ∀ l ∈ a.leaves, l.1 ∉ b.maps) (hright : ∀ l ∈ b.leaves, l.1 ∉ a.maps) : (a + b).Clear where
  nodup := by
    rw [add_leaves, Multiset.map_add, Multiset.nodup_add]
    refine ⟨ha.nodup, hb.nodup, Multiset.disjoint_left.mpr ?_⟩
    intro place h1 h2
    obtain ⟨l, hl, rfl⟩ := Multiset.mem_map.mp h1
    obtain ⟨l', hl', heq⟩ := Multiset.mem_map.mp h2
    exact hleaves l hl l' hl' heq.symm
  apart := by
    intro l hl hmap
    rcases Multiset.mem_add.mp hl with hl | hl
    · exact hmap.elim (ha.apart l hl) (hleft l hl)
    · exact hmap.elim (hright l hl) (hb.apart l hl)
  names l hl := (Multiset.mem_add.mp hl).elim (ha.names l) (hb.names l)
  map_names place hmap := hmap.elim (ha.map_names place) (hb.map_names place)
  freezes l hl := (Multiset.mem_add.mp hl).elim (ha.freezes l) (hb.freezes l)

theorem clear_empty : Clear empty where
  nodup := Multiset.nodup_zero
  apart l hl := absurd hl (Multiset.notMem_zero l)
  names l hl := absurd hl (Multiset.notMem_zero l)
  map_names place hmap k hk := by
    rw [Set.mem_singleton_iff.mp hmap] at hk
    cases hk
  freezes l hl := absurd hl (Multiset.notMem_zero l)

theorem clear_leaf_iff {v : Raw} : (leaf v).Clear ↔ ∃ label w, freeze label v = .ok w := by
  constructor
  · intro h
    exact h.freezes ([], v) (Multiset.mem_singleton_self _)
  · intro h
    refine ⟨Multiset.nodup_singleton _, fun _ _ => nofun, ?_, fun _ => nofun, ?_⟩
    · intro l hl k hk
      rw [Multiset.mem_singleton.mp hl] at hk
      cases hk
    · intro l hl
      rw [Multiset.mem_singleton.mp hl]
      exact h

end Outline

theorem Raw.nil_mem_outline (v : Raw) : ([], v) ∈ v.outline.leaves ∨ [] ∈ v.outline.maps := by
  by_cases h : v.isLeaf
  · rw [Raw.outline_of_isLeaf h]
    exact .inl (Multiset.mem_singleton_self _)
  · obtain ⟨m, rfl⟩ := Raw.eq_map_of_not_isLeaf h
    exact .inr (Raw.outline_map m ▸ RawMap.nil_mem_maps m)

namespace RawMap

theorem mem_leaves_iff {m : RawMap} {l : List Key × Raw} :
    l ∈ m.outline.leaves ↔ ∃ e ∈ m, l ∈ (e.2.outline.under e.1.parts).leaves := by
  induction m with
  | nil => simp [Outline.empty]
  | cons e rest ih => rw [outline_cons, Outline.add_leaves, Multiset.mem_add, ih, List.exists_mem_cons_iff]

theorem mem_maps_iff {m : RawMap} {place : List Key} :
    place ∈ m.outline.maps ↔ place = [] ∨ ∃ e ∈ m, place ∈ (e.2.outline.under e.1.parts).maps := by
  induction m with
  | nil => simp [Outline.empty]
  | cons e rest ih =>
    rw [outline_cons, Outline.add_maps, Set.mem_union, ih, List.exists_mem_cons_iff, or_left_comm]

theorem clear_of_mem {m : RawMap} (h : m.outline.Clear) {e : Key × Raw} (he : e ∈ m) : e.2.outline.Clear := by
  induction m with
  | nil => cases he
  | cons d rest ih =>
    rw [outline_cons] at h
    rcases List.mem_cons.mp he with rfl | he
    · exact h.left.of_under
    · exact ih h.right he

theorem eq_of_shared_leaf {m : RawMap} (h : m.outline.Clear) {e e' : Key × Raw} (he : e ∈ m) (he' : e' ∈ m)
    {place : List Key} {u u' : Raw} (hl : (place, u) ∈ (e.2.outline.under e.1.parts).leaves)
    (hl' : (place, u') ∈ (e'.2.outline.under e'.1.parts).leaves) : e = e' := by
  induction m with
  | nil => cases he
  | cons d rest ih =>
    rw [outline_cons] at h
    rcases List.mem_cons.mp he with heq | he <;> rcases List.mem_cons.mp he' with heq' | he'
    · rw [heq, heq']
    · exact absurd (mem_leaves_iff.mpr ⟨e', he', hl'⟩) (h.not_mem_right (heq ▸ hl))
    · exact absurd (mem_leaves_iff.mpr ⟨e, he, hl⟩) (h.not_mem_right (heq' ▸ hl'))
    · exact ih h.right he he'

theorem isName_of_mem {m : RawMap} (h : m.outline.Clear) {e : Key × Raw} (he : e ∈ m) :
    ∀ k ∈ e.1.parts, k.IsName := by
  intro k hk
  rcases e.2.nil_mem_outline with hleaf | hmap
  · have hmem := mem_leaves_iff.mpr ⟨e, he, Outline.mem_leaves_under.mpr ⟨[], rfl, hleaf⟩⟩
    exact h.names _ hmem k (List.mem_append_left [] hk)
  · have hmem := mem_maps_iff.mpr (.inr ⟨e, he, .inr ⟨[], hmap, rfl⟩⟩)
    exact h.map_names _ hmem k (List.mem_append_left [] hk)

/-- Whether the keys of a map are names without dots, as they are once the map is nested. -/
def Plain (m : RawMap) : Prop := ∀ e ∈ m, e.1.IsName ∧ e.1.split? = none

theorem Plain.parts {m : RawMap} (h : m.Plain) {e : Key × Raw} (he : e ∈ m) : e.1.parts = [e.1] :=
  Key.parts_of_isName (h e he).1 (h e he).2

theorem Plain.mem_leaves_iff {m : RawMap} (h : m.Plain) {place : List Key} {u : Raw} :
    (place, u) ∈ m.outline.leaves ↔ ∃ e ∈ m, ∃ rest, place = e.1 :: rest ∧ (rest, u) ∈ e.2.outline.leaves := by
  rw [RawMap.mem_leaves_iff]
  refine exists_congr fun e => and_congr_right fun he => ?_
  rw [Outline.mem_leaves_under, h.parts he]
  rfl

theorem Plain.mem_maps_iff {m : RawMap} (h : m.Plain) {place : List Key} :
    place ∈ m.outline.maps ↔ place = [] ∨ ∃ e ∈ m, ∃ rest ∈ e.2.outline.maps, place = e.1 :: rest := by
  rw [RawMap.mem_maps_iff]
  constructor
  · intro hplace
    rcases hplace with hnil | ⟨e, he, hplace⟩
    · exact .inl hnil
    · rw [h.parts he, Outline.mem_maps_under_singleton] at hplace
      exact hplace.imp id fun hrest => ⟨e, he, hrest⟩
  · intro hplace
    refine hplace.imp id ?_
    intro hrest
    obtain ⟨e, he, hrest⟩ := hrest
    refine ⟨e, he, ?_⟩
    rw [h.parts he, Outline.mem_maps_under_singleton]
    exact .inr hrest

theorem Plain.mem_leaves_beneath {m : RawMap} (h : m.Plain) {key : Key} {place : List Key} {u : Raw} :
    (key :: place, u) ∈ m.outline.leaves ↔ ∃ e ∈ m, e.1 = key ∧ (place, u) ∈ e.2.outline.leaves := by
  rw [h.mem_leaves_iff]
  refine exists_congr fun e => and_congr_right fun _ => ?_
  constructor
  · intro hu
    obtain ⟨rest, heq, hu⟩ := hu
    obtain ⟨hkey, rfl⟩ := List.cons.inj heq
    exact ⟨hkey.symm, hu⟩
  · intro hu
    obtain ⟨rfl, hu⟩ := hu
    exact ⟨place, rfl, hu⟩

theorem Plain.mem_maps_beneath {m : RawMap} (h : m.Plain) {key : Key} {place : List Key} :
    key :: place ∈ m.outline.maps ↔ ∃ e ∈ m, e.1 = key ∧ place ∈ e.2.outline.maps := by
  rw [h.mem_maps_iff, or_iff_right (List.cons_ne_nil key place)]
  refine exists_congr fun e => and_congr_right fun _ => ?_
  constructor
  · intro hmap
    obtain ⟨rest, hmap, heq⟩ := hmap
    obtain ⟨hkey, rfl⟩ := List.cons.inj heq
    exact ⟨hkey.symm, hmap⟩
  · intro hmap
    obtain ⟨rfl, hmap⟩ := hmap
    exact ⟨place, hmap, rfl⟩

/-- Entries under different names give no place twice. -/
theorem ne_of_names {k : Key} (hk : k.IsName) {rest : RawMap} (h : ∀ e ∈ rest, ¬ k.same e.1) {e : Key × Raw}
    (he : e ∈ rest) (ks ls : List Key) : k :: ks ≠ e.1 :: ls := by
  intro heq
  obtain ⟨s, rfl, _⟩ := hk
  apply h e he
  rw [← (List.cons.inj heq).1]
  exact decide_eq_true rfl

theorem Plain.clear {m : RawMap} (h : m.Plain) (hm : Distinct m) (hv : ∀ e ∈ m, e.2.outline.Clear) :
    m.outline.Clear := by
  induction m with
  | nil =>
    rw [outline_nil]
    exact Outline.clear_empty
  | cons e rest ih =>
    obtain ⟨k, v⟩ := e
    obtain ⟨hk, _, hdistinct⟩ := distinct_cons.mp hm
    obtain ⟨hplain, hrest⟩ := List.forall_mem_cons.mp h
    obtain ⟨hclear, hvalues⟩ := List.forall_mem_cons.mp hv
    rw [outline_cons, Key.parts_of_isName hplain.1 hplain.2]
    -- what stands beneath the first key begins with it, and nothing in the rest does
    refine (hclear.under (List.forall_mem_singleton.mpr hplain.1)).add (ih hrest hdistinct hvalues) ?_ ?_ ?_
    · intro l hl l' hl'
      obtain ⟨ks, hks, _⟩ := Outline.mem_leaves_under.mp hl
      obtain ⟨e, he, ls, hls, _⟩ := (Plain.mem_leaves_iff hrest).mp hl'
      rw [hks, hls]
      exact ne_of_names hplain.1 hk he ks ls
    · intro l hl hmap
      obtain ⟨ks, hks, _⟩ := Outline.mem_leaves_under.mp hl
      rcases (Plain.mem_maps_iff hrest).mp hmap with hnil | ⟨e, he, ls, _, hls⟩
      · exact List.cons_ne_nil k ks (hks.symm.trans hnil)
      · exact ne_of_names hplain.1 hk he ks ls (hks.symm.trans hls)
    · intro l hl hmap
      obtain ⟨e, he, ls, hls, _⟩ := (Plain.mem_leaves_iff hrest).mp hl
      rcases Outline.mem_maps_under_singleton.mp hmap with hnil | ⟨ks, _, hks⟩
      · exact List.cons_ne_nil e.1 ls (hls.symm.trans hnil)
      · exact ne_of_names hplain.1 hk he ks ls (hks.symm.trans hls)

end RawMap

/-! ## Whether a value freezes -/

theorem not_clear_of_leaf {v : Raw} (hv : v.isLeaf) (w : Raw) : ¬ (v.outline + w.outline).Clear := by
  intro h
  rw [Raw.outline_of_isLeaf hv] at h
  have hself : ([], v) ∈ (Outline.leaf v).leaves := Multiset.mem_singleton_self _
  rcases w.nil_mem_outline with hleaf | hmap
  · exact h.not_mem_right hself hleaf
  · exact h.apart _ (Multiset.mem_add.mpr (.inl hself)) (.inr hmap)

theorem not_clear_of_leaf_right {v : Raw} (hv : v.isLeaf) (w : Raw) : ¬ (w.outline + v.outline).Clear := by
  rw [add_comm]
  exact not_clear_of_leaf hv w

mutual

theorem combine_comes_out {a : Raw} (label : Key) : (b : Raw) → (a.outline + b.outline).Clear →
    ∃ c, combine label a b = .ok c
  | .map entries, h => by
    cases a with
    | map out =>
      rw [Raw.outline_map, Raw.outline_map] at h
      obtain ⟨r, hr⟩ := combineEntries_comes_out label entries h
      exact ⟨.map r, by rw [combine.eq_def]; simp only [hr]; rfl⟩
    | _ => exact absurd h (not_clear_of_leaf rfl _)
  | .null, h => absurd h (not_clear_of_leaf_right rfl _)
  | .unset, h => absurd h (not_clear_of_leaf_right rfl _)
  | .scalar _, h => absurd h (not_clear_of_leaf_right rfl _)
  | .list _, h => absurd h (not_clear_of_leaf_right rfl _)
  | .option _, h => absurd h (not_clear_of_leaf_right rfl _)
  | .foreign _, h => absurd h (not_clear_of_leaf_right rfl _)

theorem combineEntries_comes_out {out : RawMap} (label : Key) : (entries : RawMap) →
    (out.outline + RawMap.outline entries).Clear → ∃ r, combineEntries label out entries = .ok r
  | [], _ => ⟨out, by rw [combineEntries]⟩
  | (k, v) :: rest, h => by
    rw [RawMap.outline_cons] at h
    rw [combineEntries]
    split
    · rename_i hnone
      apply combineEntries_comes_out label rest
      rwa [RawMap.outline_insert_of_none hnone, add_assoc, add_left_comm]
    · rename_i w hw
      obtain ⟨others, hout, hinsert⟩ := RawMap.exists_outline_insert hw
      have hmeet : ((w.outline + v.outline).under k.parts + (others + RawMap.outline rest)).Clear := by
        rw [hout] at h
        simpa only [Outline.under_add, add_assoc, add_left_comm] using h
      obtain ⟨c, hc⟩ := combine_comes_out (label.child k) v hmeet.left.of_under
      rw [hc]
      apply combineEntries_comes_out label rest
      rw [hinsert, outline_combine v hc, add_assoc]
      exact hmeet

end

namespace RawMap

theorem addNested_comes_out {out : RawMap} (label k : Key) (v : Raw)
    (h : (out.outline + v.outline.under k.parts).Clear) : ∃ r, addNested label out (k, v) = .ok r := by
  simp only [addNested]
  split
  · exact ⟨_, rfl⟩
  · rename_i w hw
    obtain ⟨others, hout, _⟩ := exists_outline_insert hw
    have hmeet : ((w.outline + (nestEntry k v).2.outline).under (nestEntry k v).1.parts + others).Clear := by
      rw [hout, ← outline_nestEntry k v] at h
      simpa only [Outline.under_add, add_assoc, add_comm] using h
    obtain ⟨c, hc⟩ := combine_comes_out (label.child (nestEntry k v).1) _ hmeet.left.of_under
    rw [hc]
    exact ⟨_, rfl⟩

theorem addAllNested_comes_out (label : Key) (entries : RawMap) {out : RawMap}
    (h : (out.outline + outline entries).Clear) : ∃ r, addAllNested label out entries = .ok r := by
  induction entries generalizing out with
  | nil => exact ⟨out, by rw [addAllNested]⟩
  | cons e rest ih =>
    obtain ⟨k, v⟩ := e
    rw [outline_cons, ← add_assoc] at h
    obtain ⟨out', hadd⟩ := addNested_comes_out label k v h.left
    rw [addAllNested, hadd]
    apply ih
    rwa [outline_addNested hadd, add_comm (v.outline.under k.parts)]

theorem nestDotted_comes_out (label : Key) {m : RawMap} (h : m.outline.Clear) :
    ∃ r, nestDotted label m = .ok r := by
  rw [nestDotted]
  split
  · apply addAllNested_comes_out
    rw [outline_nil, add_comm, Outline.add_empty (nil_mem_maps _)]
    exact outline_perm (sortOrdered_perm m) ▸ h
  · exact ⟨m, rfl⟩

end RawMap

theorem freezeEntries_comes_out (label : Key) {entries : RawMap}
    (h : ∀ e ∈ entries, e.1.IsName ∧ ∀ l, ∃ w, freeze l e.2 = .ok w) :
    ∃ t, freezeEntries label entries = .ok t := by
  induction entries with
  | nil => exact ⟨[], by rw [freezeEntries]⟩
  | cons e rest ih =>
    obtain ⟨k, v⟩ := e
    obtain ⟨⟨⟨s, rfl, hs⟩, hv⟩, hrest⟩ := List.forall_mem_cons.mp h
    obtain ⟨w, hw⟩ := hv (label.child (.text s))
    obtain ⟨t, ht⟩ := ih hrest
    rw [freezeEntries_eq_ok_iff] at ht
    exact ⟨(s, w) :: t, freezeEntries_eq_ok_iff.mpr (.cons ⟨rfl, hs, hw⟩ ht)⟩

theorem RawMap.plain_of_nestDotted {label : Key} {m r : RawMap} (hm : m.Distinct) (hr : nestDotted label m = .ok r)
    (h : m.outline.Clear) : r.Plain := by
  rw [← outline_nestDotted hr] at h
  intro e he
  have hcut := (nestDotted_nested hm hr).2 e he
  exact ⟨Key.isName_of_parts hcut (isName_of_mem h he), hcut⟩

theorem freeze_comes_out (v : Raw) (hd : v.Distinct) (h : v.outline.Clear) (label : Key) :
    ∃ w, freeze label v = .ok w := by
  by_cases hleaf : v.isLeaf
  · rw [Raw.outline_of_isLeaf hleaf, Outline.clear_leaf_iff] at h
    obtain ⟨other, w, hw⟩ := h
    exact ⟨w, freeze_relabel v label hw⟩
  · obtain ⟨m, hm⟩ := Raw.eq_map_of_not_isLeaf hleaf
    rw [hm, RawMap.distinct_map] at hd
    rw [hm, Raw.outline_map] at h
    obtain ⟨r, hr⟩ := RawMap.nestDotted_comes_out label h
    have hplain := RawMap.plain_of_nestDotted hd hr h
    have hfreezes : ∀ e ∈ r.sortedByText, e.1.IsName ∧ ∀ l, ∃ w, freeze l e.2 = .ok w := by
      intro e he
      replace he := (sortOrdered_perm r).mem_iff.mp he
      have hweight := RawMap.weight_lt_of_nestDotted hr he
      have hvalue := (RawMap.nestDotted_nested hd hr).1.of_mem he
      have hclear := RawMap.clear_of_mem (RawMap.outline_nestDotted hr ▸ h) he
      exact ⟨(hplain e he).1, freeze_comes_out e.2 hvalue hclear⟩
    obtain ⟨t, ht⟩ := freezeEntries_comes_out label hfreezes
    exact ⟨.map t, hm ▸ freeze_map_eq_ok_iff.mpr ⟨r, t, hr, ht, rfl⟩⟩
termination_by v.weight
decreasing_by exact hm ▸ hweight

theorem clear_of_freeze {label : Key} (v : Raw) {w : Value} (hd : v.Distinct) (h : freeze label v = .ok w) :
    v.outline.Clear := by
  by_cases hleaf : v.isLeaf
  · rw [Raw.outline_of_isLeaf hleaf, Outline.clear_leaf_iff]
    exact ⟨label, w, h⟩
  · obtain ⟨m, hm⟩ := Raw.eq_map_of_not_isLeaf hleaf
    rw [hm, RawMap.distinct_map] at hd
    rw [hm] at h
    obtain ⟨r, t, hr, ht, _⟩ := freeze_map_eq_ok_iff.mp h
    have hnested := RawMap.nestDotted_nested hd hr
    have hentry : ∀ e ∈ r, e.1.IsName ∧ ∃ l u, freeze l e.2 = .ok u := by
      intro e he
      obtain ⟨d, _, hkey, hne, hd⟩ :=
        exists_of_mem_left (freezeEntries_eq_ok_iff.mp ht) ((sortOrdered_perm r).mem_iff.mpr he)
      exact ⟨⟨d.1, hkey, hne⟩, _, d.2, hd⟩
    have hplain : r.Plain := fun e he => ⟨(hentry e he).1, hnested.2 e he⟩
    rw [hm, Raw.outline_map, ← RawMap.outline_nestDotted hr]
    refine hplain.clear hnested.1 ?_
    intro e he
    obtain ⟨_, l, u, hu⟩ := hentry e he
    have hweight := RawMap.weight_lt_of_nestDotted hr he
    exact clear_of_freeze e.2 (hnested.1.of_mem he) hu
termination_by v.weight
decreasing_by exact hm ▸ hweight

/-- Whether a value freezes can be told from its outline. -/
theorem freeze_comes_out_iff {v : Raw} (hd : v.Distinct) (label : Key) :
    (∃ w, freeze label v = .ok w) ↔ v.outline.Clear :=
  ⟨fun ⟨_, hw⟩ => clear_of_freeze v hd hw, fun h => freeze_comes_out v hd h label⟩

/-! ## To what a value freezes -/

/-- Whether a stored value has what an outline gives: at the place of each leaf the leaf's stored form, maps at the
    places of maps, and nothing else. -/
structure Value.Stands (w : Value) (a : Outline) : Prop where
  leaf : ∀ place x, w.find? place = some x ∧ x.isLeaf ↔
    ∃ u, (place.map Key.text, u) ∈ a.leaves ∧ ∃ label, freeze label u = .ok x
  map : ∀ place, (∃ below, w.find? place = some (.map below)) ↔ place.map Key.text ∈ a.maps

theorem freeze_isLeaf {label : Key} {v : Raw} {w : Value} (hv : v.isLeaf) (h : freeze label v = .ok w) :
    w.isLeaf := by
  cases v with
  | map m => cases hv
  | scalar s =>
    obtain ⟨rfl, _⟩ := freeze_scalar h
    rfl
  | list items =>
    rw [freeze] at h
    obtain ⟨out, _, rfl⟩ := Outcome.map_eq_ok_iff.mp h
    rfl
  | null | unset =>
    rw [freeze] at h
    cases h
    rfl
  | option o | foreign f => simp [freeze] at h

theorem stands_of_leaf {label : Key} {v : Raw} {w : Value} (hv : v.isLeaf) (h : freeze label v = .ok w) :
    w.Stands (Outline.leaf v) where
  leaf place x := by
    have hw : w.isLeaf := freeze_isLeaf hv h
    rw [Value.find?_eq_some_iff_of_isLeaf hw]
    constructor
    · intro hx
      obtain ⟨⟨rfl, rfl⟩, _⟩ := hx
      exact ⟨v, Multiset.mem_singleton_self _, label, h⟩
    · intro hu
      obtain ⟨u, hu, other, hx⟩ := hu
      obtain ⟨hplace, rfl⟩ := Prod.mk.inj (Multiset.mem_singleton.mp hu)
      have heq : w = x := Except.ok.inj ((freeze_relabel u other h).symm.trans hx)
      exact ⟨⟨List.map_eq_nil_iff.mp hplace, heq⟩, heq ▸ hw⟩
  map place := by
    have hw : w.isLeaf := freeze_isLeaf hv h
    constructor
    · intro hfound
      obtain ⟨below, hfound⟩ := hfound
      rw [Value.find?_eq_some_iff_of_isLeaf hw] at hfound
      exact absurd hfound.2.symm (Value.map_ne_of_isLeaf hw below)
    · intro hmap
      cases hmap

/-- The map of the stored values of a plain map's entries has what the plain map gives, once each of them has what
    its entry gives. -/
theorem RawMap.Plain.stands {r : RawMap} (hr : r.Plain) {t : Tree}
    (hfound : ∀ key y, t.get? key = some y → ∃ e ∈ r, e.1 = .text key ∧ y.Stands e.2.outline)
    (hentry : ∀ e ∈ r, ∀ key, e.1 = .text key → ∃ y, t.get? key = some y ∧ y.Stands e.2.outline) :
    (Value.map t).Stands r.outline where
  leaf place x := by
    rw [Value.find?_map]
    cases place with
    | nil =>
      constructor
      · intro h
        exact absurd h.1 (Tree.find?_nil_ne h.2 t)
      · intro h
        obtain ⟨u, hu, _⟩ := h
        obtain ⟨e, _, rest, hnil, _⟩ := hr.mem_leaves_iff.mp hu
        cases hnil
    | cons key rest =>
      rw [Tree.find?_cons, Option.bind_eq_some_iff, List.map_cons]
      constructor
      · intro h
        obtain ⟨⟨y, hy, hx⟩, hleaf⟩ := h
        obtain ⟨e, he, hkey, hstands⟩ := hfound key y hy
        obtain ⟨u, hu, hfreeze⟩ := (hstands.leaf rest x).mp ⟨hx, hleaf⟩
        exact ⟨u, hr.mem_leaves_beneath.mpr ⟨e, he, hkey, hu⟩, hfreeze⟩
      · intro h
        obtain ⟨u, hu, hfreeze⟩ := h
        obtain ⟨e, he, hkey, hu⟩ := hr.mem_leaves_beneath.mp hu
        obtain ⟨y, hy, hstands⟩ := hentry e he key hkey
        obtain ⟨hx, hleaf⟩ := (hstands.leaf rest x).mpr ⟨u, hu, hfreeze⟩
        exact ⟨⟨y, hy, hx⟩, hleaf⟩
  map place := by
    rw [Value.find?_map]
    cases place with
    | nil => exact ⟨fun _ => RawMap.nil_mem_maps r, fun _ => ⟨t, Tree.find?_nil t⟩⟩
    | cons key rest =>
      rw [Tree.find?_cons, List.map_cons, hr.mem_maps_beneath]
      constructor
      · intro h
        obtain ⟨below, hbelow⟩ := h
        obtain ⟨y, hy, hbelow⟩ := Option.bind_eq_some_iff.mp hbelow
        obtain ⟨e, he, hkey, hstands⟩ := hfound key y hy
        exact ⟨e, he, hkey, (hstands.map rest).mp ⟨below, hbelow⟩⟩
      · intro h
        obtain ⟨e, he, hkey, hmap⟩ := h
        obtain ⟨y, hy, hstands⟩ := hentry e he key hkey
        obtain ⟨below, hbelow⟩ := (hstands.map rest).mpr hmap
        exact ⟨below, Option.bind_eq_some_iff.mpr ⟨y, hy, hbelow⟩⟩

/-- A stored value has exactly what the outline of the raw value gives. -/
theorem stands_of_freeze {label : Key} (v : Raw) {w : Value} (hd : v.Distinct) (h : freeze label v = .ok w) :
    w.Stands v.outline := by
  have hclear := clear_of_freeze v hd h
  have hw : w.Frozen := freeze_frozen v hd h
  by_cases hleaf : v.isLeaf
  · rw [Raw.outline_of_isLeaf hleaf]
    exact stands_of_leaf hleaf h
  · obtain ⟨m, hm⟩ := Raw.eq_map_of_not_isLeaf hleaf
    rw [hm, RawMap.distinct_map] at hd
    rw [hm, Raw.outline_map] at hclear
    rw [hm] at h
    obtain ⟨r, t, hr, ht, rfl⟩ := freeze_map_eq_ok_iff.mp h
    rw [Tree.frozen_map] at hw
    rw [freezeEntries_eq_ok_iff] at ht
    have hnested := RawMap.nestDotted_nested hd hr
    have hvalue : ∀ e ∈ r, ∀ {l y}, freeze l e.2 = .ok y → y.Stands e.2.outline := by
      intro e he l y hy
      have hweight := RawMap.weight_lt_of_nestDotted hr he
      exact stands_of_freeze e.2 (hnested.1.of_mem he) hy
    rw [hm, Raw.outline_map, ← RawMap.outline_nestDotted hr]
    apply (RawMap.plain_of_nestDotted hd hr hclear).stands
    · intro key y hy
      obtain ⟨e, he, hkey, _, hfreeze⟩ := exists_of_mem_right ht (Tree.mem_of_get? hy)
      replace he := (sortOrdered_perm r).mem_iff.mp he
      exact ⟨e, he, hkey, hvalue e he hfreeze⟩
    · intro e he key hkey
      obtain ⟨d, hd, hd', _, hfreeze⟩ := exists_of_mem_left ht ((sortOrdered_perm r).mem_iff.mpr he)
      obtain rfl : key = d.1 := Key.text.inj (hkey.symm.trans hd')
      exact ⟨d.2, Tree.get?_of_mem hw hd, hvalue e he hfreeze⟩
termination_by v.weight
decreasing_by exact hm ▸ hweight

namespace RawMap

variable {m : RawMap} {what : String} {t : Tree}

theorem stands_of_freezeTree (hm : m.Distinct) (h : freezeTree what (.map m) = .ok t) :
    (Value.map t).Stands m.outline :=
  Raw.outline_map m ▸ stands_of_freeze (.map m) (distinct_map.mpr hm) (freezeTree_eq_ok_iff.mp h)

theorem clear_of_freezeTree (hm : m.Distinct) (h : freezeTree what (.map m) = .ok t) : m.outline.Clear :=
  Raw.outline_map m ▸ clear_of_freeze (.map m) (distinct_map.mpr hm) (freezeTree_eq_ok_iff.mp h)

theorem freezeTree_comes_out (what : String) (hm : m.Distinct) (h : m.outline.Clear) :
    ∃ t, freezeTree what (.map m) = .ok t := by
  obtain ⟨w, hw⟩ := freeze_comes_out (.map m) (distinct_map.mpr hm) (Raw.outline_map m ▸ h) what
  obtain ⟨_, t, _, _, rfl⟩ := freeze_map_eq_ok_iff.mp hw
  exact ⟨t, freezeTree_eq_ok_iff.mpr hw⟩

end RawMap
end LayeredConfig
