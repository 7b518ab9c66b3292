import LayeredConfig.Proofs.Tree.Spelling
import LayeredConfig.Proofs.Value.Kinds
/-!
# Trees and their flat form

Flat entries whose values are leaves can lie beneath one another, and then only the deepest are kept: the tree that
they expand to lists those entries beneath whose keys no other key lies (`expanding_keeps_the_deepest_entries`).

The entries of a tree never lie beneath one another. A tree without empty maps is known by them, since its maps stand
above its leaves and nowhere else (`Tree.Full.eq_of_leaves`); so its flat form freezes to the tree and, if its keys can
be segments of paths, expands to it (`flat_form_spells_the_tree`).
-/
namespace LayeredConfig

/-! ## Trees without empty maps -/

mutual

/-- Whether a value neither is an empty map nor holds one, lists apart. -/
def Value.Full : Value → Prop
  | .map entries => entries ≠ [] ∧ Tree.Full entries
  | _ => True

def Tree.Full : Tree → Prop
  | [] => True
  | (_, v) :: rest => v.Full ∧ Tree.Full rest

end

mutual

instance Value.decidableFull : (v : Value) → Decidable v.Full
  | .map entries =>
    have := Tree.decidableFull entries
    decidable_of_iff (entries ≠ [] ∧ Tree.Full entries) (by rw [Value.Full])
  | .unset => .isTrue trivial
  | .scalar _ => .isTrue trivial
  | .list _ => .isTrue trivial

instance Tree.decidableFull : (t : List (String × Value)) → Decidable (Tree.Full t)
  | [] => .isTrue trivial
  | (_, v) :: rest =>
    have := Value.decidableFull v
    have := Tree.decidableFull rest
    decidable_of_iff (v.Full ∧ Tree.Full rest) (by rw [Tree.Full])

end

theorem Value.full_iff_of_isLeaf {v : Value} (h : v.isLeaf) : v.Full ↔ ∀ place, v.find? place ≠ some (.map []) := by
  constructor
  · intro _ place hfound
    obtain ⟨_, hw⟩ := (Value.find?_eq_some_iff_of_isLeaf h).mp hfound
    exact Value.map_ne_of_isLeaf h [] hw.symm
  · intro _
    cases v with
    | map t => cases h
    | _ => trivial

mutual

theorem Value.full_iff : (v : Value) → v.Frozen → (v.Full ↔ ∀ place, v.find? place ≠ some (.map []))
  | .map entries, h => by
    rw [Value.Full, Tree.full_iff entries (Tree.frozen_map.mp h)]
    simp only [Value.find?_map]
    constructor
    · intro hfull place
      cases place with
      | nil =>
        intro hnil
        rw [Tree.find?_nil] at hnil
        exact hfull.1 (Value.map.inj (Option.some.inj hnil))
      | cons key rest => exact hfull.2 _ (List.cons_ne_nil key rest)
    · intro hnone
      refine ⟨?_, fun place _ => hnone place⟩
      rintro rfl
      exact hnone [] rfl
  | .unset, _ => Value.full_iff_of_isLeaf rfl
  | .scalar _, _ => Value.full_iff_of_isLeaf rfl
  | .list _, _ => Value.full_iff_of_isLeaf rfl

theorem Tree.full_iff : (t : List (String × Value)) → Tree.Frozen t →
    (Tree.Full t ↔ ∀ place, place ≠ [] → Tree.find? t place ≠ some (.map []))
  | [], _ => by
    rw [Tree.Full]
    refine iff_of_true trivial ?_
    intro place hne
    obtain ⟨key, rest, rfl⟩ := List.exists_cons_of_ne_nil hne
    rw [Tree.find?_cons]
    nofun
  | (k, v) :: t, h => by
    have ⟨_, _, hv, ht⟩ := Tree.frozen_cons.mp h
    rw [Tree.Full, Value.full_iff v hv, Tree.full_iff t ht]
    constructor
    · intro hfull place hne
      obtain ⟨key, rest, rfl⟩ := List.exists_cons_of_ne_nil hne
      rw [Tree.find?_cons_entry]
      split
      · exact hfull.1 rest
      · exact hfull.2 _ hne
    · intro hnone
      constructor
      · intro rest
        have hfirst := hnone (k :: rest) (List.cons_ne_nil k rest)
        rwa [Tree.find?_cons_entry, if_pos rfl] at hfirst
      · intro place hne hfound
        obtain ⟨key, rest, rfl⟩ := List.exists_cons_of_ne_nil hne
        -- no later entry has the key of the first
        have hkey : k ≠ key := by
          rintro rfl
          rw [Tree.find?_cons, Tree.get?_tail_of_frozen h] at hfound
          cases hfound
        apply hnone (key :: rest) hne
        rw [Tree.find?_cons_entry, if_neg hkey, hfound]

end

mutual

theorem Value.Full.leavesAt_ne_nil : (behind : List String) → (v : Value) → v.Full → v.leavesAt behind ≠ []
  | behind, .map entries, h => by
    rw [Value.Full] at h
    rw [Value.leavesAt]
    exact Tree.Full.leavesOfEntries_ne_nil behind entries h.2 h.1
  | _, .unset, _ => by simp [Value.leavesAt]
  | _, .scalar _, _ => by simp [Value.leavesAt]
  | _, .list _, _ => by simp [Value.leavesAt]

theorem Tree.Full.leavesOfEntries_ne_nil : (behind : List String) → (t : List (String × Value)) → Tree.Full t →
    t ≠ [] → leavesOfEntries behind t ≠ []
  | _, [], _, hne => absurd rfl hne
  | behind, (k, v) :: rest, h, _ => by
    rw [Tree.Full] at h
    rw [leavesOfEntries]
    exact List.append_ne_nil_of_left_ne_nil (Value.Full.leavesAt_ne_nil (k :: behind) v h.1) _

end

namespace Tree

variable {t u : Tree} {place : List String}

theorem Full.exists_leaf (hf : t.Full) (h : t.Frozen) (hne : place ≠ []) {v : Value} (hfound : t.find? place = some v) :
    ∃ l ∈ t.leaves, place <+: l.1 := by
  by_cases hv : v.isLeaf
  · exact ⟨(place, v), (mem_leaves_iff h).mpr ⟨hfound, hv⟩, List.prefix_rfl⟩
  · obtain ⟨below, rfl⟩ := Value.eq_map_of_not_isLeaf hv
    have hfrozen : Frozen below := frozen_map.mp (h.of_find? hfound).1
    have hinner : ∀ rest, t.find? (place ++ rest) = find? below rest := by
      intro rest
      rw [find?_append, hfound, Option.bind_some, Value.find?_map]
    have hfull : Full below := by
      refine (full_iff below hfrozen).mpr fun rest hrest => ?_
      rw [← hinner]
      exact (full_iff t h).mp hf _ (List.append_ne_nil_of_right_ne_nil place hrest)
    have hbelow : below ≠ [] := by
      rintro rfl
      exact (full_iff t h).mp hf place hne hfound
    obtain ⟨l, hl⟩ := List.exists_mem_of_ne_nil _ (hfull.leavesOfEntries_ne_nil [] below hbelow)
    obtain ⟨hleaf, hlv⟩ := (mem_leaves_iff hfrozen).mp hl
    exact ⟨(place ++ l.1, l.2), (mem_leaves_iff h).mpr ⟨(hinner l.1).trans hleaf, hlv⟩, List.prefix_append place l.1⟩

/-- The maps of a full tree are its root and those above its leaves. -/
theorem Full.find?_map_iff (hf : t.Full) (h : t.Frozen) :
    (∃ below, t.find? place = some (.map below)) ↔ place = [] ∨ ∃ l ∈ t.leaves, place <+: l.1 ∧ place ≠ l.1 := by
  constructor
  · intro hmap
    obtain ⟨below, hbelow⟩ := hmap
    by_cases hplace : place = []
    · exact .inl hplace
    · obtain ⟨l, hl, hpre⟩ := hf.exists_leaf h hplace hbelow
      obtain ⟨hfound, hleaf⟩ := (mem_leaves_iff h).mp hl
      refine .inr ⟨l, hl, hpre, ?_⟩
      rintro rfl
      exact Value.map_ne_of_isLeaf hleaf below (Option.some.inj (hbelow.symm.trans hfound))
  · intro hmap
    rcases hmap with rfl | ⟨l, hl, ⟨rest, hrest⟩, hne⟩
    · exact ⟨t, find?_nil t⟩
    · obtain ⟨hfound, _⟩ := (mem_leaves_iff h).mp hl
      refine exists_map_above ?_ (hrest ▸ hfound)
      rintro rfl
      exact hne (by rw [← hrest, List.append_nil])

/-- Full trees with the same leaves are the same. -/
theorem Full.eq_of_leaves (ht : t.Frozen) (hu : u.Frozen) (hft : t.Full) (hfu : u.Full) (h : t.leaves = u.leaves) :
    t = u := by
  apply eq_of_leaves_maps ht hu
  · intro place v hv
    have hmem : (place, v) ∈ t.leaves ↔ (place, v) ∈ u.leaves := by rw [h]
    rwa [mem_leaves_iff ht, mem_leaves_iff hu, and_iff_left hv, and_iff_left hv] at hmem
  · intro place
    rw [hft.find?_map_iff ht, hfu.find?_map_iff hu, h]

end Tree

/-! ## The deepest of flat entries -/

/-- The entries of a raw map beneath whose keys no other key lies. -/
def RawMap.deepest (m : RawMap) : RawMap :=
  m.filter fun e => decide (∀ other ∈ m, AtOrBeneath e.1.plain other.1.plain → other.1 = e.1)

namespace Writes

variable {ws : Writes} {m : RawMap}

/-- The writes beneath whose paths nothing else is written. -/
def deepest (ws : Writes) : Writes :=
  ws.filter fun d => decide (∀ other ∈ ws, d.1.segments <+: other.1.segments → other.1 = d.1)

theorem mem_deepest_iff {d : Path × Value} :
    d ∈ ws.deepest ↔ d ∈ ws ∧ ∀ other ∈ ws, d.1.segments <+: other.1.segments → other.1 = d.1 := by
  rw [deepest, List.mem_filter, decide_eq_true_iff]

theorem mem_flatten_tree_iff (h : ws.Sound) (hl : ∀ d ∈ ws, d.2.isLeaf) {e : String × Value} :
    e ∈ ws.tree.flatten ↔ ∃ d ∈ ws.deepest, (d.1.text, d.2) = e := by
  obtain ⟨path, v⟩ := e
  rw [Tree.mem_flatten_iff h.tree_frozen]
  constructor
  · intro hlisted
    obtain ⟨hfound, hv⟩ := hlisted
    obtain ⟨⟨d, rest, hd, hplace, hrest⟩, hbeneath⟩ := (find?_tree_leaf_iff h hv).mp hfound
    -- a leaf holds something at its own place only
    obtain ⟨rfl, rfl⟩ := (Value.find?_eq_some_iff_of_isLeaf (hl d hd.1)).mp hrest
    rw [List.append_nil] at hplace
    refine ⟨d, mem_deepest_iff.mpr ⟨hd.1, ?_⟩, ?_⟩
    · intro other hother hpre
      exact Path.eq_of_segments ((hbeneath other hother (hplace ▸ hpre)).trans hplace)
    · rw [Path.text, ← hplace, joinDots_dottedPieces]
  · intro hdeepest
    obtain ⟨d, hd, heq⟩ := hdeepest
    obtain ⟨rfl, rfl⟩ := Prod.mk.inj heq
    obtain ⟨hmem, hbeneath⟩ := mem_deepest_iff.mp hd
    rw [d.1.dottedPieces_text]
    exact ⟨find?_tree_of_top h hmem hbeneath, hl d hmem⟩

theorem Sound.flatten_tree_perm (h : ws.Sound) (hl : ∀ d ∈ ws, d.2.isLeaf) :
    ws.tree.flatten.Perm (ws.deepest.map fun d => (d.1.text, d.2)) := by
  have hpaths : ((ws.deepest.map fun d => (d.1.text, d.2)).map (·.1)).Nodup := by
    rw [List.map_map]
    have hkept : (ws.deepest.map (·.1)).Nodup := h.nodup.sublist (List.filter_sublist.map _)
    have htexts := hkept.map fun _ _ => Path.text_inj.mp
    rwa [List.map_map] at htexts
  refine (List.perm_ext_iff_of_nodup ?_ (List.Nodup.of_map _ hpaths)).mpr fun e => ?_
  · exact List.Nodup.of_map _ (Tree.flatten_nodup h.tree_frozen)
  · rw [mem_flatten_tree_iff h hl, List.mem_map]

/-- The deepest entries of a map are written by the deepest of its writes. -/
theorem Spells.deepest (h : ws.Spells m) : ws.deepest.Spells m.deepest := by
  refine List.rel_filter ?_ h
  intro e d hed
  simp only [decide_eq_true_iff, hed.1]
  constructor
  · intro hdeepest other hother hpre
    obtain ⟨e', he', hkey, _⟩ := exists_of_mem_right h hother
    have hsame := hdeepest e' he' (by rw [hkey]; exact Path.atOrBeneath_iff.mpr hpre)
    rw [hkey] at hsame
    exact Path.text_inj.mp (Key.text.inj hsame)
  · intro hdeepest e' he' hbeneath
    obtain ⟨other, hother, hkey, _⟩ := exists_of_mem_left h he'
    rw [hkey] at hbeneath ⊢
    rw [hdeepest other hother (Path.atOrBeneath_iff.mp hbeneath)]

theorem Spells.isLeaf (h : ws.Spells m) (hvalues : ∀ e ∈ m, ∃ v, freeze e.1 e.2 = .ok v ∧ v.isLeaf) :
    ∀ d ∈ ws, d.2.isLeaf := by
  intro d hd
  obtain ⟨e, he, _, hfreeze⟩ := exists_of_mem_right h hd
  obtain ⟨v, hv, hleaf⟩ := hvalues e he
  exact Except.ok.inj (hv.symm.trans hfreeze) ▸ hleaf

end Writes

theorem exists_spells_of_leaves {m : RawMap} (hm : m.Distinct) (hkeys : ∀ e ∈ m, ∃ p, e.1.toRaw.spelledPath = .ok p)
    (hvalues : ∀ e ∈ m, ∃ v, freeze e.1 e.2 = .ok v ∧ v.isLeaf) :
    ∃ ws : Writes, ws.Spells m ∧ ws.Sound ∧ ∀ d ∈ ws, d.2.isLeaf := by
  obtain ⟨ws, hws⟩ := exists_spells hm hkeys fun e he => by
    obtain ⟨v, hv, _⟩ := hvalues e he
    exact clear_of_freeze e.2 (hm.of_mem he) hv
  exact ⟨ws, hws, hws.sound hm, hws.isLeaf hvalues⟩

/-- **Expanding flat entries keeps the deepest.** Let the keys of a raw map be paths, and let its values freeze to
    tombstones, scalars or lists. Then it expands, whatever the order of its entries, and the tree lists, up to
    order, the stored values of those entries beneath whose keys no other key lies, each under its key. -/
theorem expanding_keeps_the_deepest_entries {m : RawMap} (hm : m.Distinct)
    (hkeys : ∀ e ∈ m, ∃ p, e.1.toRaw.spelledPath = .ok p)
    (hvalues : ∀ e ∈ m, ∃ v, freeze e.1 e.2 = .ok v ∧ v.isLeaf) :
    ∃ (t : Tree) (kept : List (String × Value)), expand m = .ok t ∧
      List.Forall₂ (fun e d => e.1 = Key.text d.1 ∧ freeze e.1 e.2 = .ok d.2) m.deepest kept ∧
      t.flatten.Perm kept := by
  obtain ⟨ws, hws, hsound, hleaves⟩ := exists_spells_of_leaves hm hkeys hvalues
  refine ⟨ws.tree, _, hws.expand, ?_, hsound.flatten_tree_perm hleaves⟩
  exact List.forall₂_map_right_iff.mpr hws.deepest

/-- The tombstone at `a` gives way to the value beneath it, though `a-b` sorts between the two. -/
theorem value_beneath_a_tombstone_is_kept :
    RawMap.deepest [(.text "a.b", .scalar (.int 1)), (.text "a-b", .scalar (.int 2)), (.text "a", .null)] =
        [(.text "a.b", .scalar (.int 1)), (.text "a-b", .scalar (.int 2))] ∧
      ∃ t : Tree,
        expand [(.text "a.b", .scalar (.int 1)), (.text "a-b", .scalar (.int 2)), (.text "a", .null)] = .ok t ∧
        t.flatten.Perm [("a.b", .scalar (.int 1)), ("a-b", .scalar (.int 2))] := by
  let m : RawMap := [(.text "a.b", .scalar (.int 1)), (.text "a-b", .scalar (.int 2)), (.text "a", .null)]
  have hm : m.Distinct := by simp [m, RawMap.Distinct, Raw.Distinct, Key.same]
  have hkeys : ∀ e ∈ m, ∃ p, e.1.toRaw.spelledPath = .ok p := by
    simp only [m, List.forall_mem_cons]
    exact ⟨⟨_, rfl⟩, ⟨_, rfl⟩, ⟨_, rfl⟩, by simp⟩
  have hone : freeze "a.b" (.scalar (.int 1)) = .ok (.scalar (.int 1)) := freeze_thaw _ (.scalar (.int 1)) (by decide)
  have htwo : freeze "a-b" (.scalar (.int 2)) = .ok (.scalar (.int 2)) := freeze_thaw _ (.scalar (.int 2)) (by decide)
  have hvalues : ∀ e ∈ m, ∃ v, freeze e.1 e.2 = .ok v ∧ v.isLeaf := by
    simp only [m, List.forall_mem_cons]
    exact ⟨⟨_, hone, rfl⟩, ⟨_, htwo, rfl⟩, ⟨.unset, by rw [freeze], rfl⟩, by simp⟩
  have hdeepest : m.deepest = [(.text "a.b", .scalar (.int 1)), (.text "a-b", .scalar (.int 2))] := rfl
  obtain ⟨t, kept, hexpand, hkept, hperm⟩ := expanding_keeps_the_deepest_entries hm hkeys hvalues
  refine ⟨hdeepest, t, hexpand, ?_⟩
  rw [hdeepest] at hkept
  obtain ⟨⟨_, v⟩, _, ⟨hfirst, hv⟩, hrest, rfl⟩ := List.forall₂_cons_left_iff.mp hkept
  obtain ⟨⟨_, w⟩, _, ⟨hsecond, hw⟩, hnil, rfl⟩ := List.forall₂_cons_left_iff.mp hrest
  obtain rfl := List.forall₂_nil_left_iff.mp hnil
  cases hfirst
  cases hsecond
  cases hone.symm.trans hv
  cases htwo.symm.trans hw
  exact hperm

/-! ## The flat form of a tree -/

theorem Writes.not_eclipsed_of_leaves {ws : Writes} (hl : ∀ d ∈ ws, d.2.isLeaf) (place : List String) (v : Value) :
    ¬ ws.Eclipsed place v := by
  intro heclipsed
  obtain ⟨d, hd, e, _, rest, hpre, hne, hcovers, rfl, hfound⟩ := heclipsed
  obtain ⟨rfl, _⟩ := (Value.find?_eq_some_iff_of_isLeaf (hl d hd)).mp hfound
  rw [List.append_nil] at hcovers
  exact hne (Path.eq_of_segments (hpre.eq_of_length_le hcovers.length_le))

namespace Tree

variable {t : Tree}

theorem Full.freeze_spelled (hf : t.Full) (h : t.Frozen) (label : Key) :
    freeze label (.map t.spelled) = .ok (.map t) := by
  obtain ⟨u, hu, hfrozen, hleaves⟩ := h.freeze_spelled label
  have hstands := stands_of_freeze (.map t.spelled) (RawMap.distinct_map.mpr h.distinct_spelled) hu
  rw [Raw.outline_map] at hstands
  have hfull : Full u := by
    refine (full_iff u hfrozen).mpr fun place hne hempty => ?_
    rcases h.above_leaf_of_mem_maps ((hstands.map place).mp ⟨[], hempty⟩) with hnil | ⟨l, hl, habove, hbelow⟩
    · exact hne (List.map_eq_nil_iff.mp hnil)
    · -- a leaf stands beneath, so the map there is not empty
      obtain ⟨front, ⟨rest, hrest⟩, heq⟩ := List.prefix_map_iff.mp habove
      obtain rfl := Key.map_text_inj.mp heq
      obtain ⟨hfound, _⟩ := (mem_leaves_iff hfrozen).mp (hleaves ▸ hl)
      rw [← hrest, find?_append, hempty, Option.bind_some, Value.find?_map] at hfound
      cases rest with
      | nil => exact hbelow (by rw [← hrest, List.append_nil])
      | cons key rest =>
        rw [find?_cons] at hfound
        cases hfound
  rw [hu, Full.eq_of_leaves hfrozen h hfull hf hleaves]

/-- A full tree whose keys are segments of paths expands from its entries. -/
theorem Full.expand_spelled (hf : t.Full) (h : t.Frozen) (hkeys : ∀ l ∈ t.leaves, ∀ key ∈ l.1, IsSegment key) :
    expand t.spelled = .ok t := by
  have hm : t.spelled.Distinct := h.distinct_spelled
  obtain ⟨ws, hws, _, hleaves⟩ : ∃ ws : Writes, ws.Spells t.spelled ∧ ws.Sound ∧ ∀ d ∈ ws, d.2.isLeaf := by
    apply exists_spells_of_leaves hm
    · intro e he
      obtain ⟨l, hl, rfl⟩ := mem_spelled_iff.mp he
      exact ⟨_, Path.parse_text ⟨l.1, (place_of_mem_leaves h hl).1, hkeys l hl⟩⟩
    · intro e he
      obtain ⟨l, hl, rfl⟩ := mem_spelled_iff.mp he
      obtain ⟨hfound, hleaf⟩ := (mem_leaves_iff h).mp hl
      exact ⟨l.2, freeze_thaw _ l.2 (h.of_find? hfound).1, hleaf⟩
  have hfreeze : freezeTree "tree" (.map t.spelled) = .ok t := freezeTree_eq_ok_iff.mpr (hf.freeze_spelled h _)
  rw [hws.expand]
  refine congrArg Except.ok ((hws.tree_eq_iff hm hfreeze).mpr fun place v heclipsed => ?_)
  exact absurd heclipsed (Writes.not_eclipsed_of_leaves hleaves place v)

/-- **The flat form of a tree spells the tree.** The leaves of a frozen tree without empty maps below its root, under
    their dotted paths, freeze to the tree again. If every key of the tree, at every level, can be a segment of a
    path, they expand to it as well. So of such trees no two have the same flat form. -/
theorem flat_form_spells_the_tree (h : t.Frozen) (hf : t.Full) :
    (∀ label, freeze label (.map t.spelled) = .ok (.map t)) ∧
      ((∀ place v, t.find? place = some v → ∀ key ∈ place, IsSegment key) → expand t.spelled = .ok t) ∧
      ∀ u : Tree, u.Frozen → u.Full → u.flatten = t.flatten → u = t := by
  refine ⟨hf.freeze_spelled h, ?_, ?_⟩
  · intro hkeys
    refine hf.expand_spelled h fun l hl => ?_
    exact hkeys l.1 l.2 ((mem_leaves_iff h).mp hl).1
  · intro u hu hfu hflat
    have hspelled : u.spelled = t.spelled := by rw [spelled, spelled, hflat]
    have hfrozen := hfu.freeze_spelled hu ""
    rw [hspelled, hf.freeze_spelled h ""] at hfrozen
    exact (Value.map.inj (Except.ok.inj hfrozen)).symm

/-- A tree with a tombstone and a list, spelled by its entries. -/
theorem tombstone_and_list_are_spelled :
    Frozen [("a", .map [("b", .unset), ("c-d", .list [.scalar (.int 1)])]), ("e", .scalar (.bool true))] ∧
      Full [("a", .map [("b", .unset), ("c-d", .list [.scalar (.int 1)])]), ("e", .scalar (.bool true))] ∧
      freeze "tree" (.map [(.text "a.b", .unset), (.text "a.c-d", .list [.scalar (.int 1)]),
        (.text "e", .scalar (.bool true))]) =
        .ok (.map [("a", .map [("b", .unset), ("c-d", .list [.scalar (.int 1)])]), ("e", .scalar (.bool true))]) ∧
      expand [(.text "a.b", .unset), (.text "a.c-d", .list [.scalar (.int 1)]), (.text "e", .scalar (.bool true))] =
        .ok [("a", .map [("b", .unset), ("c-d", .list [.scalar (.int 1)])]), ("e", .scalar (.bool true))] := by
  have h : Frozen [("a", .map [("b", .unset), ("c-d", .list [.scalar (.int 1)])]), ("e", .scalar (.bool true))] := by
    decide
  have hf : Full [("a", .map [("b", .unset), ("c-d", .list [.scalar (.int 1)])]), ("e", .scalar (.bool true))] := by
    decide
  obtain ⟨hfreeze, hexpand, _⟩ := flat_form_spells_the_tree h hf
  refine ⟨h, hf, hfreeze "tree", hexpand fun place v hfound key hkey => ?_⟩
  -- every key stands on the way to one of the three leaves
  have hne : place ≠ [] := List.ne_nil_of_mem hkey
  obtain ⟨l, hl, hpre⟩ := hf.exists_leaf h hne hfound
  have hkeys : ∀ l ∈ leaves [("a", .map [("b", .unset), ("c-d", .list [.scalar (.int 1)])]),
      ("e", .scalar (.bool true))], ∀ key ∈ l.1, IsSegment key := by decide
  exact hkeys l hl key (hpre.subset hkey)

end Tree
end LayeredConfig
