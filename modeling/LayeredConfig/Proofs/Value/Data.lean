import LayeredConfig.Proofs.Profile.Tombstones
import LayeredConfig.Proofs.Tree.Spelling
import LayeredConfig.Render
/-!
# Data without absent values

A stored value can be written as the user sees it just when no tombstone stands in it (`Value.render_comes_out_iff`).
Data that hold neither absent values nor tombstones, as those of files do (`Raw.IsData`), never become such a value: no
tombstone stands in what they freeze to (`not_hasTombstone_of_freeze`) nor in the tree that they expand to
(`not_hasTombstone_of_expand`).
-/
namespace LayeredConfig

/-! ## Values that can be written -/

mutual

/-- A stored value can be written unless a tombstone stands in it. -/
theorem Value.render_comes_out_iff : (v : Value) → ((∃ text, v.render = .ok text) ↔ ¬ v.HasTombstone)
  | .unset => by simp [Value.render, Value.HasTombstone]
  | .scalar s => by simp [Value.render, Value.HasTombstone]
  | .list items => by
    rw [Value.render, Value.HasTombstone, ← renderItems_comes_out_iff items]
    simp [Outcome.map_eq_ok_iff]
  | .map entries => by
    rw [Value.render, Value.HasTombstone, ← renderEntries_comes_out_iff entries]
    simp [Outcome.map_eq_ok_iff]

theorem renderItems_comes_out_iff : (items : List Value) →
    ((∃ texts, renderItems items = .ok texts) ↔ ¬ Value.ItemsHaveTombstone items)
  | [] => by simp [renderItems, Value.ItemsHaveTombstone]
  | v :: rest => by
    rw [Value.ItemsHaveTombstone, not_or, ← Value.render_comes_out_iff v, ← renderItems_comes_out_iff rest, renderItems]
    cases v.render <;> simp [Outcome.map_eq_ok_iff]

theorem renderEntries_comes_out_iff : (entries : List (String × Value)) →
    ((∃ texts, renderEntries entries = .ok texts) ↔ ¬ Tree.HasTombstone entries)
  | [] => by simp [renderEntries, Tree.HasTombstone]
  | (k, v) :: rest => by
    rw [Tree.HasTombstone, not_or, ← Value.render_comes_out_iff v, ← renderEntries_comes_out_iff rest, renderEntries]
    cases v.render <;> simp [Outcome.map_eq_ok_iff]

end

/-! ## A tombstone at a place -/

theorem Tree.hasTombstone_iff_mem {t : Tree} : t.HasTombstone ↔ ∃ e ∈ t, e.2.HasTombstone := by
  induction t with
  | nil => simp [HasTombstone]
  | cons e rest ih =>
    obtain ⟨k, v⟩ := e
    rw [HasTombstone, ih, List.exists_mem_cons_iff]

theorem Value.itemsHaveTombstone_iff_mem {items : List Value} :
    Value.ItemsHaveTombstone items ↔ ∃ v ∈ items, v.HasTombstone := by
  induction items with
  | nil => simp [ItemsHaveTombstone]
  | cons v rest ih => rw [ItemsHaveTombstone, ih, List.exists_mem_cons_iff]

theorem Value.hasTombstone_of_find? {place : List String} {v w : Value} (hfound : v.find? place = some w)
    (h : w.HasTombstone) : v.HasTombstone := by
  induction place generalizing v with
  | nil =>
    rw [find?_nil] at hfound
    cases hfound
    exact h
  | cons key rest ih =>
    by_cases hleaf : v.isLeaf
    · rw [find?_of_isLeaf hleaf (List.cons_ne_nil key rest)] at hfound
      cases hfound
    · obtain ⟨t, rfl⟩ := eq_map_of_not_isLeaf hleaf
      rw [find?_map, Tree.find?_cons] at hfound
      obtain ⟨u, hu, hfound⟩ := Option.bind_eq_some_iff.mp hfound
      rw [HasTombstone]
      exact Tree.hasTombstone_iff_mem.mpr ⟨_, Tree.mem_of_get? hu, ih hfound⟩

/-! ## Data -/

/-- Whether a raw value is made of scalars, of values of types that cannot be stored, of lists, and of maps in which
    every key is a text and stands for one entry. -/
inductive Raw.IsData : Raw → Prop
  | scalar (s : Scalar) : IsData (.scalar s)
  | foreign (f : Foreign) : IsData (.foreign f)
  | list {items : List Raw} (data : ∀ v ∈ items, IsData v) : IsData (.list items)
  | map {m : RawMap} (texts : ∀ e ∈ m, ∃ s, e.1 = .text s) (keys : m.Pairwise fun a b => ¬ a.1.same b.1)
      (data : ∀ e ∈ m, IsData e.2) : IsData (.map m)

namespace Raw.IsData

theorem items {items : List Raw} (h : IsData (.list items)) : ∀ v ∈ items, v.IsData := by
  cases h
  assumption

theorem texts {m : RawMap} (h : IsData (.map m)) : ∀ e ∈ m, ∃ s, e.1 = .text s := by
  cases h
  assumption

theorem entries {m : RawMap} (h : IsData (.map m)) : ∀ e ∈ m, e.2.IsData := by
  cases h
  assumption

theorem distinctItems {items : List Raw} (h : ∀ v ∈ items, v.Distinct) : Raw.DistinctItems items := by
  induction items with
  | nil => trivial
  | cons v rest ih =>
    obtain ⟨hv, hrest⟩ := List.forall_mem_cons.mp h
    exact ⟨hv, ih hrest⟩

theorem distinct {v : Raw} (h : v.IsData) : v.Distinct := by
  induction h with
  | scalar | foreign => simp [Raw.Distinct]
  | list _ ih =>
    rw [Raw.Distinct]
    exact distinctItems ih
  | map _ keys _ ih => exact RawMap.distinct_map.mpr (RawMap.distinct_iff.mpr ⟨keys, ih⟩)

theorem of_mem_leaves {v : Raw} (h : v.IsData) : ∀ l ∈ v.outline.leaves, l.2.IsData := by
  intro l hl
  induction h generalizing l with
  | scalar s =>
    rw [Raw.outline_of_isLeaf rfl] at hl
    rw [Multiset.mem_singleton.mp hl]
    exact .scalar s
  | foreign f =>
    rw [Raw.outline_of_isLeaf rfl] at hl
    rw [Multiset.mem_singleton.mp hl]
    exact .foreign f
  | list data =>
    rw [Raw.outline_of_isLeaf rfl] at hl
    rw [Multiset.mem_singleton.mp hl]
    exact .list data
  | map _ _ _ ih =>
    rw [Raw.outline_map] at hl
    obtain ⟨e, he, hl⟩ := RawMap.mem_leaves_iff.mp hl
    obtain ⟨rest, _, hl⟩ := Outline.mem_leaves_under.mp hl
    exact ih e he (rest, l.2) hl

end Raw.IsData

/-! ## What data freeze to -/

theorem exists_of_mem_freezeItems {label : Key} {i : Nat} {items : List Raw} {out : List Value}
    (h : freezeItems label i items = .ok out) {w : Value} (hw : w ∈ out) : ∃ v ∈ items, ∃ l, freeze l v = .ok w := by
  induction items generalizing i out with
  | nil =>
    rw [freezeItems] at h
    cases h
    cases hw
  | cons v rest ih =>
    rw [freezeItems] at h
    split at h
    · cases h
    · cases h
    · rename_i u _ hu
      obtain ⟨more, hmore, rfl⟩ := Outcome.map_eq_ok_iff.mp h
      rcases List.mem_cons.mp hw with rfl | hw
      · exact ⟨v, List.mem_cons_self, _, hu⟩
      · obtain ⟨x, hx, hfreeze⟩ := ih hmore hw
        exact ⟨x, List.mem_cons_of_mem v hx, hfreeze⟩

/-- No tombstone stands in what data freeze to. It is the leaves that are said to be data, since they are what nesting
    dotted keys keeps. -/
theorem not_hasTombstone_of_freeze {label : Key} : (v : Raw) → {w : Value} →
    (∀ l ∈ v.outline.leaves, l.2.IsData) → freeze label v = .ok w → ¬ w.HasTombstone
  | .null, _, hv, _ | .unset, _, hv, _ => by
    rw [Raw.outline_of_isLeaf rfl] at hv
    cases hv _ (Multiset.mem_singleton_self _)
  | .scalar s, w, _, h => by
    obtain ⟨rfl, _⟩ := freeze_scalar h
    exact id
  | .list items, w, hv, h => by
    rw [Raw.outline_of_isLeaf rfl] at hv
    have hitems := (hv _ (Multiset.mem_singleton_self _)).items
    rw [freeze] at h
    obtain ⟨out, hout, rfl⟩ := Outcome.map_eq_ok_iff.mp h
    intro htombstone
    obtain ⟨x, hx, htombstone⟩ := Value.itemsHaveTombstone_iff_mem.mp htombstone
    obtain ⟨u, hu, l, hfreeze⟩ := exists_of_mem_freezeItems hout hx
    have hweight := Raw.weight_lt_of_mem_items hu
    exact not_hasTombstone_of_freeze u (hitems u hu).of_mem_leaves hfreeze htombstone
  | .map m, w, hv, h => by
    obtain ⟨r, t, hr, ht, rfl⟩ := freeze_map_eq_ok_iff.mp h
    intro htombstone
    obtain ⟨d, hd, htombstone⟩ := Tree.hasTombstone_iff_mem.mp htombstone
    obtain ⟨e, he, _, _, hfreeze⟩ := exists_of_mem_right (freezeEntries_eq_ok_iff.mp ht) hd
    replace he := (sortOrdered_perm r).mem_iff.mp he
    have hweight := RawMap.weight_lt_of_nestDotted hr he
    refine not_hasTombstone_of_freeze e.2 (fun l hl => ?_) hfreeze htombstone
    rw [Raw.outline_map, ← RawMap.outline_nestDotted hr] at hv
    exact hv (e.1.parts ++ l.1, l.2) (RawMap.mem_leaves_iff.mpr ⟨e, he, Outline.mem_under_of_mem hl⟩)
  | .option _, _, _, h | .foreign _, _, _, h => by
    rw [freeze] at h
    cases h
termination_by v => v.weight

/-! ## What data expand to -/

variable {m : RawMap} {t : Tree}

/-- Expanding writes the values of a map in some order. -/
theorem exists_spells_of_expandFrom {entries : RawMap} {out : Tree} (h : expandFrom out entries = .ok t) :
    ∃ ws : Writes, ws.Spells entries ∧ t = ws.into out := by
  induction entries generalizing out with
  | nil =>
    cases h
    exact ⟨[], .nil, rfl⟩
  | cons e rest ih =>
    rw [expandFrom] at h
    split at h
    · cases h
    · rename_i w hw
      split at h
      · cases h
      · rename_i path hpath
        obtain ⟨ws, hws, ht⟩ := ih h
        exact ⟨(path, w) :: ws, .cons ⟨Key.eq_text_of_spelledPath hpath, hw⟩ hws, ht⟩

theorem exists_spells_of_expand (h : expand m = .ok t) :
    ∃ (ws : Writes) (ordered : RawMap), ordered.Perm m ∧ ws.Spells ordered ∧ t = ws.into [] := by
  obtain ⟨ordered, hordered, h⟩ := Outcome.bind_eq_ok_iff.mp h
  obtain ⟨ws, hws, ht⟩ := exists_spells_of_expandFrom h
  refine ⟨ws, ordered, ?_, hws, ht⟩
  rw [orderedByKey] at hordered
  split at hordered <;> cases hordered
  exact sortOrdered_perm m

theorem expand_frozen (hm : m.Distinct) (h : expand m = .ok t) : t.Frozen := by
  obtain ⟨ws, ordered, hperm, hws, rfl⟩ := exists_spells_of_expand h
  exact Writes.into_frozen (hws.sound (hm.perm hperm.symm)).frozen Tree.frozen_nil

/-- No tombstone stands in the tree that data expand to. -/
theorem not_hasTombstone_of_expand (hm : Raw.IsData (.map m)) (h : expand m = .ok t) : ¬ t.HasTombstone := by
  rw [Tree.hasTombstone_iff (expand_frozen (RawMap.distinct_map.mp hm.distinct) h)]
  obtain ⟨ws, ordered, hperm, hws, rfl⟩ := exists_spells_of_expand h
  rintro ⟨place, v, hfound, hleaf, htombstone⟩
  rcases Writes.find?_into_leaf hleaf hfound with hempty | ⟨d, hd, rest, _, hwritten⟩
  · have hleaves : (place, v) ∈ Tree.leaves [] := (Tree.mem_leaves_iff Tree.frozen_nil).mpr ⟨hempty, hleaf⟩
    cases hleaves
  · obtain ⟨e, he, _, hfreeze⟩ := exists_of_mem_right hws hd
    exact not_hasTombstone_of_freeze e.2 (hm.entries e (hperm.mem_iff.mp he)).of_mem_leaves hfreeze
      (Value.hasTombstone_of_find? hwritten htombstone)

end LayeredConfig
