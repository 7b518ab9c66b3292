import LayeredConfig.Proofs.Tree.Grouping
import LayeredConfig.Proofs.Value.Clear
/-!
# The order of entries

The order in which the entries of a map were written is lost when the map is frozen, and so are the orders of the
entries of all maps in it, those in lists among them. Raw values that differ in nothing else (`Raw.Reordered`) have
outlines with maps at the same places, and at the same places leaves that freeze alike (`Raw.Reordered.outline`); and
values with such outlines freeze to the same value, or neither of them freezes (`freezeAlike_of_outline`). So the
stored form is canonical: what is stored is frozen, stays as it is when it is frozen again, and shows nothing of the
order in which it was written (`stored_form_is_canonical`).
-/
namespace LayeredConfig

/-! ## Up to the order of entries -/

mutual

/-- Whether two raw values differ at most in the order of the entries of their maps, at any depth. -/
def Raw.Reordered : Raw → Raw → Prop
  | .list vs, .list ws => Raw.ReorderedItems vs ws
  | .map m, .map n => RawMap.Reordered m n
  | v, w => v = w
termination_by structural v => v

def Raw.ReorderedItems : List Raw → List Raw → Prop
  | [], [] => True
  | v :: vs, w :: ws => v.Reordered w ∧ Raw.ReorderedItems vs ws
  | _, _ => False
termination_by structural vs => vs

/-- Whether two raw maps differ at most in the order of entries: each entry of the one can be taken out of the other. -/
def RawMap.Reordered : List (Key × Raw) → List (Key × Raw) → Prop
  | [], n => n = []
  | (k, v) :: m, n => ∃ front w back, n = front ++ (k, w) :: back ∧ v.Reordered w ∧ RawMap.Reordered m (front ++ back)
termination_by structural m => m

end

mutual

theorem Raw.reordered_refl : (v : Raw) → v.Reordered v
  | .list items => by
    rw [Raw.Reordered]
    exact Raw.reorderedItems_refl items
  | .map entries => by
    rw [Raw.Reordered]
    exact RawMap.reordered_refl entries
  | .null => rfl
  | .unset => rfl
  | .scalar _ => rfl
  | .option _ => rfl
  | .foreign _ => rfl

theorem Raw.reorderedItems_refl : (items : List Raw) → Raw.ReorderedItems items items
  | [] => trivial
  | v :: rest => ⟨v.reordered_refl, Raw.reorderedItems_refl rest⟩

theorem RawMap.reordered_refl : (m : List (Key × Raw)) → RawMap.Reordered m m
  | [] => rfl
  | (_, v) :: rest => ⟨[], v, rest, rfl, v.reordered_refl, RawMap.reordered_refl rest⟩

end

namespace RawMap

variable {m n : RawMap}

theorem reordered_of_perm (h : m.Perm n) : Reordered m n := by
  induction m generalizing n with
  | nil => exact h.nil_eq.symm
  | cons e rest ih =>
    obtain ⟨k, v⟩ := e
    obtain ⟨front, back, rfl⟩ := List.append_of_mem (h.subset List.mem_cons_self)
    refine ⟨front, v, back, rfl, v.reordered_refl, ih ?_⟩
    exact (List.perm_middle.symm.trans h.symm).symm.cons_inv

theorem Reordered.exists_mem (h : Reordered m n) {e : Key × Raw} (he : e ∈ n) : ∃ d ∈ m, d.1 = e.1 := by
  induction m generalizing n with
  | nil =>
    rw [show n = [] from h] at he
    cases he
  | cons d rest ih =>
    obtain ⟨k, v⟩ := d
    obtain ⟨front, w, back, rfl, _, hrest⟩ := h
    by_cases hkey : e = (k, w)
    · exact ⟨(k, v), List.mem_cons_self, by rw [hkey]⟩
    · have he' : e ∈ front ++ back := by
        simp only [List.mem_append, List.mem_cons] at he ⊢
        tauto
      obtain ⟨d, hd, hkey⟩ := ih hrest he'
      exact ⟨d, List.mem_cons_of_mem _ hd, hkey⟩

end RawMap

/-! ## Values that freeze alike -/

/-- Whether two raw values freeze to the same value, or neither of them freezes. -/
def Raw.FreezeAlike (v w : Raw) : Prop := ∀ label x, freeze label v = .ok x ↔ freeze label w = .ok x

theorem Raw.FreezeAlike.refl (v : Raw) : v.FreezeAlike v := fun _ _ => Iff.rfl

theorem Raw.FreezeAlike.symm {v w : Raw} (h : v.FreezeAlike w) : w.FreezeAlike v := fun label x => (h label x).symm

theorem freezeItems_of_alike {vs ws : List Raw} (h : List.Forall₂ Raw.FreezeAlike vs ws) {label : Key} {i : Nat}
    {out : List Value} (hout : freezeItems label i vs = .ok out) : freezeItems label i ws = .ok out := by
  induction h generalizing i out with
  | nil => exact hout
  | @cons v w _ _ hvw _ ih =>
    rw [freezeItems] at hout ⊢
    split at hout
    · cases hout
    · cases hout
    · rename_i x hne hx
      obtain ⟨rest, hrest, rfl⟩ := Outcome.map_eq_ok_iff.mp hout
      rw [(hvw _ x).mp hx, ih hrest]
      cases x with
      | unset => exact absurd rfl hne
      | _ => rfl

/-- Lists freeze alike when their elements do, one by one. -/
theorem freezeAlike_list {vs ws : List Raw} (h : List.Forall₂ Raw.FreezeAlike vs ws) :
    (Raw.list vs).FreezeAlike (.list ws) := by
  have hitems : ∀ label out, freezeItems label 0 vs = .ok out ↔ freezeItems label 0 ws = .ok out := fun _ _ =>
    ⟨freezeItems_of_alike h, freezeItems_of_alike (h.flip.imp fun _ _ hwv => Raw.FreezeAlike.symm hwv)⟩
  intro label x
  rw [freeze, freeze, Outcome.map_eq_ok_iff, Outcome.map_eq_ok_iff]
  exact exists_congr fun out => and_congr_left fun _ => hitems label out

/-! ## Outlines that freeze alike -/

namespace Outline

/-- Whether two outlines give maps at the same places, and at the same places leaves that freeze alike, each as often. -/
structure FreezeAlike (a b : Outline) : Prop where
  leaves : Multiset.Rel (fun l d => l.1 = d.1 ∧ l.2.FreezeAlike d.2) a.leaves b.leaves
  maps : a.maps = b.maps

variable {a b c d : Outline}

theorem FreezeAlike.symm (h : a.FreezeAlike b) : b.FreezeAlike a where
  leaves := Multiset.rel_flip.mp (h.leaves.mono fun _ _ _ _ hld => ⟨hld.1.symm, hld.2.symm⟩)
  maps := h.maps.symm

theorem freezeAlike_leaf {v w : Raw} (h : v.FreezeAlike w) : (leaf v).FreezeAlike (leaf w) where
  leaves := .cons ⟨rfl, h⟩ .zero
  maps := rfl

theorem FreezeAlike.add (h : a.FreezeAlike b) (h' : c.FreezeAlike d) : (a + c).FreezeAlike (b + d) where
  leaves := Multiset.Rel.add h.leaves h'.leaves
  maps := congrArg₂ (· ∪ ·) h.maps h'.maps

theorem FreezeAlike.under (h : a.FreezeAlike b) (keys : List Key) : (a.under keys).FreezeAlike (b.under keys) where
  leaves := Multiset.rel_map.mpr (h.leaves.mono fun _ _ _ _ hld => ⟨congrArg (keys ++ ·) hld.1, hld.2⟩)
  maps := by
    ext place
    rw [mem_maps_under, mem_maps_under, h.maps]

theorem FreezeAlike.places (h : a.FreezeAlike b) : a.leaves.map (·.1) = b.leaves.map (·.1) :=
  Multiset.rel_eq.mp (Multiset.rel_map.mpr (h.leaves.mono fun _ _ _ _ hld => hld.1))

theorem FreezeAlike.exists_leaf (h : a.FreezeAlike b) {l : List Key × Raw} (hl : l ∈ a.leaves) :
    ∃ u, (l.1, u) ∈ b.leaves ∧ l.2.FreezeAlike u := by
  obtain ⟨⟨place, u⟩, hd, hplace, halike⟩ := Multiset.exists_mem_of_rel_of_mem h.leaves hl
  exact ⟨u, (show l.1 = place from hplace) ▸ hd, halike⟩

theorem Clear.of_alike (hb : b.Clear) (h : a.FreezeAlike b) : a.Clear where
  nodup := h.places ▸ hb.nodup
  apart l hl hmap := by
    obtain ⟨u, hu, _⟩ := h.exists_leaf hl
    exact hb.apart _ hu (h.maps ▸ hmap)
  names l hl := by
    obtain ⟨u, hu, _⟩ := h.exists_leaf hl
    exact hb.names (l.1, u) hu
  map_names place hmap := hb.map_names place (h.maps ▸ hmap)
  freezes l hl := by
    obtain ⟨u, hu, halike⟩ := h.exists_leaf hl
    obtain ⟨label, x, hx⟩ := hb.freezes _ hu
    exact ⟨label, x, (halike label x).mpr hx⟩

/-- What a leaf of the one outline freezes to, a leaf of the other at the same place freezes to as well. -/
theorem FreezeAlike.exists_frozen (h : a.FreezeAlike b) {place : List Key} {x : Value}
    (hx : ∃ u, (place, u) ∈ a.leaves ∧ ∃ label, freeze label u = .ok x) :
    ∃ u, (place, u) ∈ b.leaves ∧ ∃ label, freeze label u = .ok x := by
  obtain ⟨u, hu, label, hx⟩ := hx
  obtain ⟨w, hw, halike⟩ := h.exists_leaf hu
  exact ⟨w, hw, label, (halike label x).mp hx⟩

end Outline

namespace Value.Stands

variable {a b : Outline} {x y : Value}

theorem of_alike (hx : x.Stands a) (h : a.FreezeAlike b) : x.Stands b where
  leaf place u := (hx.leaf place u).trans ⟨h.exists_frozen, h.symm.exists_frozen⟩
  map place := h.maps ▸ hx.map place

/-- An outline leaves nothing open about the stored value that has what it gives. -/
theorem unique (hx : x.Stands a) (hy : y.Stands a) (hfx : x.Frozen) (hfy : y.Frozen) : x = y := by
  by_cases hleaf : x.isLeaf
  · have hfound := (hy.leaf [] x).mpr ((hx.leaf [] x).mp ⟨find?_nil x, hleaf⟩)
    exact (Option.some.inj ((find?_nil y).symm.trans hfound.1)).symm
  · obtain ⟨t, rfl⟩ := eq_map_of_not_isLeaf hleaf
    obtain ⟨u, hfound⟩ := (hy.map []).mpr ((hx.map []).mp ⟨t, find?_nil _⟩)
    obtain rfl : y = .map u := Option.some.inj ((find?_nil y).symm.trans hfound)
    refine congrArg Value.map (Tree.eq_of_leaves_maps (Tree.frozen_map.mp hfx) (Tree.frozen_map.mp hfy) ?_ ?_)
    · intro place v hv
      have hsame := (hx.leaf place v).trans (hy.leaf place v).symm
      simpa [hv] using hsame
    · intro place
      have hsame := (hx.map place).trans (hy.map place).symm
      simpa using hsame

end Value.Stands

theorem freeze_of_alike {v w : Raw} (hv : v.Distinct) (hw : w.Distinct) (h : v.outline.FreezeAlike w.outline)
    {label : Key} {x : Value} (hx : freeze label v = .ok x) : freeze label w = .ok x := by
  obtain ⟨y, hy⟩ := freeze_comes_out w hw ((clear_of_freeze v hv hx).of_alike h.symm) label
  have hstands := (stands_of_freeze v hv hx).of_alike h
  rw [hstands.unique (stands_of_freeze w hw hy) (freeze_frozen v hv hx) (freeze_frozen w hw hy)]
  exact hy

/-- Values freeze alike when their outlines do. -/
theorem freezeAlike_of_outline {v w : Raw} (hv : v.Distinct) (hw : w.Distinct)
    (h : v.outline.FreezeAlike w.outline) : v.FreezeAlike w :=
  fun _ _ => ⟨freeze_of_alike hv hw h, freeze_of_alike hw hv h.symm⟩

/-! ## The order does not matter -/

mutual

theorem Raw.Reordered.distinct : (v : Raw) → {w : Raw} → v.Reordered w → v.Distinct → w.Distinct
  | .map m, w, h, hd => by
    cases w with
    | map n => exact RawMap.distinct_map.mpr (RawMap.Reordered.distinct m h (RawMap.distinct_map.mp hd))
    | _ => cases h
  | .list vs, w, h, hd => by
    cases w with
    | list ws => exact Raw.ReorderedItems.distinct vs h hd
    | _ => cases h
  | .null, _, h, hd | .unset, _, h, hd | .scalar _, _, h, hd | .option _, _, h, hd | .foreign _, _, h, hd => by
    cases h
    exact hd

theorem Raw.ReorderedItems.distinct : (vs : List Raw) → {ws : List Raw} → Raw.ReorderedItems vs ws →
    Raw.DistinctItems vs → Raw.DistinctItems ws
  | [], ws, h, hd => by
    cases ws with
    | nil => exact hd
    | cons w ws => cases h
  | v :: vs, ws, h, hd => by
    cases ws with
    | nil => cases h
    | cons w ws =>
      rw [Raw.DistinctItems] at hd ⊢
      exact ⟨Raw.Reordered.distinct v h.1 hd.1, Raw.ReorderedItems.distinct vs h.2 hd.2⟩

theorem RawMap.Reordered.distinct : (m : List (Key × Raw)) → {n : RawMap} → RawMap.Reordered m n →
    RawMap.Distinct m → RawMap.Distinct n
  | [], n, h, _ => (show n = [] from h) ▸ RawMap.distinct_nil
  | (k, v) :: m, n, h, hd => by
    obtain ⟨front, w, back, rfl, hvw, hothers⟩ := h
    obtain ⟨hk, hv, hrest⟩ := RawMap.distinct_cons.mp hd
    have hkeys : ∀ e ∈ front ++ back, ¬ k.same e.1 := by
      intro e he
      obtain ⟨d, hdm, hkey⟩ := hothers.exists_mem he
      exact hkey ▸ hk d hdm
    have hfirst : RawMap.Distinct ((k, w) :: (front ++ back)) :=
      RawMap.distinct_cons.mpr ⟨hkeys, Raw.Reordered.distinct v hvw hv, RawMap.Reordered.distinct m hothers hrest⟩
    exact hfirst.perm List.perm_middle.symm

end

mutual

/-- In another order the leaves stand at the same places, and there are maps at the same places. -/
theorem Raw.Reordered.outline : (v : Raw) → {w : Raw} → v.Reordered w → v.Distinct →
    v.outline.FreezeAlike w.outline
  | .map m, w, h, hd => by
    cases w with
    | map n =>
      rw [Raw.outline_map, Raw.outline_map]
      exact RawMap.Reordered.outline m h (RawMap.distinct_map.mp hd)
    | _ => cases h
  | .list vs, w, h, hd => by
    cases w with
    | list ws =>
      rw [Raw.outline_of_isLeaf rfl, Raw.outline_of_isLeaf rfl]
      rw [Raw.Distinct] at hd
      exact Outline.freezeAlike_leaf (freezeAlike_list (Raw.ReorderedItems.freezeAlike vs h hd))
    | _ => cases h
  | .null, _, h, _ | .unset, _, h, _ | .scalar _, _, h, _ | .option _, _, h, _ | .foreign _, _, h, _ => by
    cases h
    rw [Raw.outline_of_isLeaf rfl]
    exact Outline.freezeAlike_leaf (.refl _)

theorem Raw.ReorderedItems.freezeAlike : (vs : List Raw) → {ws : List Raw} → Raw.ReorderedItems vs ws →
    Raw.DistinctItems vs → List.Forall₂ Raw.FreezeAlike vs ws
  | [], ws, h, _ => by
    cases ws with
    | nil => exact .nil
    | cons w ws => cases h
  | v :: vs, ws, h, hd => by
    cases ws with
    | nil => cases h
    | cons w ws =>
      rw [Raw.DistinctItems] at hd
      have houtline := Raw.Reordered.outline v h.1 hd.1
      exact .cons (freezeAlike_of_outline hd.1 (Raw.Reordered.distinct v h.1 hd.1) houtline)
        (Raw.ReorderedItems.freezeAlike vs h.2 hd.2)

theorem RawMap.Reordered.outline : (m : List (Key × Raw)) → {n : RawMap} → RawMap.Reordered m n →
    RawMap.Distinct m → (RawMap.outline m).FreezeAlike n.outline
  | [], n, h, _ => by
    rw [show n = [] from h]
    exact ⟨by rw [RawMap.outline_nil]; exact .zero, rfl⟩
  | (k, v) :: m, n, h, hd => by
    obtain ⟨front, w, back, rfl, hvw, hothers⟩ := h
    obtain ⟨_, hv, hrest⟩ := RawMap.distinct_cons.mp hd
    rw [RawMap.outline_perm List.perm_middle, RawMap.outline_cons, RawMap.outline_cons]
    exact ((Raw.Reordered.outline v hvw hv).under k.parts).add (RawMap.Reordered.outline m hothers hrest)

end

theorem Raw.Reordered.freezeAlike {v w : Raw} (h : v.Reordered w) (hd : v.Distinct) : v.FreezeAlike w :=
  freezeAlike_of_outline hd (Raw.Reordered.distinct v h hd) (Raw.Reordered.outline v h hd)

/-! ## The stored form -/

/-- **The stored form is canonical.** What a raw value freezes to is frozen: the keys of its maps ascend, at any depth
    and in lists as well, and none of them is empty or holds a dot; no element of its lists is a tombstone; its whole
    numbers fit in 64 bits. Freezing it again gives it back. And a value that differs from the first in nothing but
    the order in which the entries of maps stand, at any depth, freezes exactly when the first does, and to the same
    value. -/
theorem stored_form_is_canonical {v : Raw} (hd : v.Distinct) :
    (∀ label w, freeze label v = .ok w → w.Frozen ∧ ∀ other, freeze other w.thaw = .ok w) ∧
      ∀ v', v.Reordered v' → ∀ label other w, freeze other v' = .ok w ↔ freeze label v = .ok w := by
  constructor
  · intro label w hw
    have hfrozen := freeze_frozen v hd hw
    exact ⟨hfrozen, fun other => freeze_thaw other w hfrozen⟩
  · intro v' h label other w
    have halike := h.freezeAlike hd other w
    constructor
    · intro hw
      exact freeze_relabel v label (halike.mpr hw)
    · intro hw
      exact halike.mp (freeze_relabel v other hw)

/-- A dotted key, a map that it leads into and a map in a list with an absent value, written in two orders. -/
theorem dotted_keys_and_lists_have_one_stored_form :
    let v : Raw := .map [(.text "b.y", .scalar (.int 1)),
      (.text "a", .list [.map [(.text "d", .scalar (.int 2)), (.text "c", .null)]]),
      (.text "b", .map [(.text "x", .scalar (.int 3))])]
    let v' : Raw := .map [(.text "b", .map [(.text "x", .scalar (.int 3))]), (.text "b.y", .scalar (.int 1)),
      (.text "a", .list [.map [(.text "c", .null), (.text "d", .scalar (.int 2))]])]
    let w : Value := .map [("a", .list [.map [("c", .unset), ("d", .scalar (.int 2))]]),
      ("b", .map [("x", .scalar (.int 3)), ("y", .scalar (.int 1))])]
    v ≠ v' ∧ v.Reordered v' ∧ freeze "<value>" v = .ok w ∧ freeze "<value>" v' = .ok w ∧ w.Frozen ∧
      freeze "<value>" w.thaw = .ok w := by
  intro v v' w
  have hd : v.Distinct := by
    simp [v, RawMap.Distinct, Raw.Distinct, Raw.DistinctItems, Key.same]
  have hreordered : v.Reordered v' := by
    -- each entry of the one map is taken out of the other where it stands
    refine ⟨[_], _, [_], rfl, rfl, [_], _, [], rfl, ⟨?_, trivial⟩, [], _, [], rfl, Raw.reordered_refl _, rfl⟩
    exact ⟨[_], _, [], rfl, rfl, [], _, [], rfl, rfl, rfl⟩
  have helement : ∀ label, freeze label (.map [(.text "d", .scalar (.int 2)), (.text "c", .null)]) =
      .ok (.map [("c", .unset), ("d", .scalar (.int 2))]) := by
    intro label
    refine freeze_map_eq_ok_iff.mpr ⟨_, _, rfl, freezeEntries_eq_ok_iff.mpr ?_, rfl⟩
    refine .cons ⟨rfl, by decide, by rw [freeze]⟩ (.cons ⟨rfl, by decide, ?_⟩ .nil)
    exact freeze_thaw _ (.scalar (.int 2)) (by decide)
  have hfreeze : freeze "<value>" v = .ok w := by
    refine freeze_map_eq_ok_iff.mpr ⟨[(.text "a", .list [.map [(.text "d", .scalar (.int 2)), (.text "c", .null)]]),
      (.text "b", .map [(.text "x", .scalar (.int 3)), (.text "y", .scalar (.int 1))])], _, rfl,
      freezeEntries_eq_ok_iff.mpr ?_, rfl⟩
    refine .cons ⟨rfl, by decide, ?_⟩ (.cons ⟨rfl, by decide, ?_⟩ .nil)
    · rw [freeze, freezeItems, helement, freezeItems]
      rfl
    · exact freeze_thaw _ (.map [("x", .scalar (.int 3)), ("y", .scalar (.int 1))]) (by decide)
  obtain ⟨hcanonical, horder⟩ := stored_form_is_canonical hd
  obtain ⟨hfrozen, hagain⟩ := hcanonical "<value>" w hfreeze
  exact ⟨by simp [v, v'], hreordered, hfreeze, (horder v' hreordered "<value>" "<value>" w).mpr hfreeze, hfrozen,
    hagain "<value>"⟩

end LayeredConfig
