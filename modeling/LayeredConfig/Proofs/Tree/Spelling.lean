import LayeredConfig.Proofs.Tree.Grouping
import LayeredConfig.Proofs.Value.Clear
import LayeredConfig.Proofs.Writes
import LayeredConfig.Tree.Expand
/-!
# Two ways to read a flat map

A raw map whose keys are paths can be expanded or frozen. Expanding writes the frozen values at their paths, each in
place of what stood there (`Writes.Spells.expand`); freezing unites them, so that every leaf and every map of every value
is in the tree (`Writes.Spells.find?_leaf_iff`, `Writes.Spells.find?_map_iff`).

The two agree unless a value reaches into the place of a longer key: what it holds there is written over when the map
is expanded, and kept when it is frozen (`expanding_agrees_with_freezing_iff`).
-/
namespace LayeredConfig

/-! ## The writes of a map -/

/-- Whether writes are those of a raw map: each value in stored form, at the path that its key spells. -/
def Writes.Spells (ws : Writes) (m : RawMap) : Prop :=
  List.Forall₂ (fun (e : Key × Raw) d => e.1 = .text d.1.text ∧ freeze e.1 e.2 = .ok d.2) m ws

theorem Key.eq_text_of_spelledPath {k : Key} {p : Path} (h : k.toRaw.spelledPath = .ok p) : k = .text p.text := by
  cases k with
  | text s => exact congrArg Key.text (Path.eq_text_of_parse h)
  | _ => cases h

theorem Path.parts_text (p : Path) : (Key.text p.text).parts = p.segments.map Key.text := by
  rw [Key.parts, p.dottedPieces_text]

theorem exists_spells {m : RawMap} (hm : m.Distinct) (hkeys : ∀ e ∈ m, ∃ p, e.1.toRaw.spelledPath = .ok p)
    (hclear : ∀ e ∈ m, e.2.outline.Clear) : ∃ ws : Writes, ws.Spells m := by
  induction m with
  | nil => exact ⟨[], .nil⟩
  | cons e rest ih =>
    obtain ⟨k, v⟩ := e
    obtain ⟨_, hv, hrest⟩ := RawMap.distinct_cons.mp hm
    obtain ⟨⟨p, hp⟩, hkeys⟩ := List.forall_mem_cons.mp hkeys
    obtain ⟨hfirst, hclear⟩ := List.forall_mem_cons.mp hclear
    obtain ⟨w, hw⟩ := freeze_comes_out v hv hfirst k
    obtain ⟨ws, hws⟩ := ih hrest hkeys hclear
    exact ⟨(p, w) :: ws, .cons ⟨Key.eq_text_of_spelledPath hp, hw⟩ hws⟩

namespace Writes.Spells

variable {ws : Writes} {m : RawMap}

theorem sound (h : ws.Spells m) (hm : m.Distinct) : ws.Sound where
  nodup := by
    induction h with
    | nil => exact List.nodup_nil
    | @cons e d rest ws hed hrest ih =>
      obtain ⟨hk, _, hm⟩ := RawMap.distinct_cons.mp hm
      rw [List.map_cons, List.nodup_cons]
      refine ⟨?_, ih hm⟩
      intro hmem
      obtain ⟨d', hd', heq⟩ := List.mem_map.mp hmem
      obtain ⟨e', he', hkey, _⟩ := exists_of_mem_right hrest hd'
      apply hk e' he'
      rw [hed.1, hkey, heq]
      exact decide_eq_true rfl
  frozen d hd := by
    obtain ⟨e, he, _, hfreeze⟩ := exists_of_mem_right h hd
    exact freeze_frozen e.2 (hm.of_mem he) hfreeze

/-! ## Expanding -/

theorem texts (h : ws.Spells m) : ∀ e ∈ m, ∃ s, e.1 = .text s := by
  intro e he
  obtain ⟨d, _, hkey, _⟩ := exists_of_mem_left h he
  exact ⟨d.1.text, hkey⟩

theorem expandFrom (h : ws.Spells m) (out : Tree) : expandFrom out m = .ok (ws.into out) := by
  induction h generalizing out with
  | nil => rfl
  | @cons e d rest ws hed _ ih =>
    rw [LayeredConfig.expandFrom, hed.2]
    simp only
    rw [hed.1, Key.toRaw, Raw.spelledPath, Path.parse_text]
    exact ih _

/-- Expanding a map writes its values at its keys. -/
theorem expand (h : ws.Spells m) : expand m = .ok ws.tree := by
  have hsorted : ws.ordered.Spells m.sortedByText := by
    refine sortOrdered_forall₂ ?_ h
    intro e e' d d' hed hed'
    rw [hed.1, hed'.1]
    rfl
  exact Outcome.bind_eq_ok_iff.mpr ⟨_, orderedByKey_of_texts h.texts, hsorted.expandFrom []⟩

/-! ## Freezing -/

variable {what : String} {t : Tree} {place : List String}

theorem stands (hm : m.Distinct) {e : Key × Raw} (he : e ∈ m) {v : Value} (h : freeze e.1 e.2 = .ok v) :
    v.Stands e.2.outline :=
  stands_of_freeze e.2 (hm.of_mem he) h

/-- A leaf in a value is the stored form of a leaf of the raw map, given by the value's entry. -/
theorem exists_leaf (h : ws.Spells m) (hm : m.Distinct) {d : Path × Value} (hd : d ∈ ws) {rest : List String}
    {v : Value} (hfound : d.2.find? rest = some v) (hv : v.isLeaf) :
    ∃ e ∈ m, e.1 = .text d.1.text ∧ ∃ u,
      ((d.1.segments ++ rest).map Key.text, u) ∈ (e.2.outline.under e.1.parts).leaves ∧
        ∃ label, freeze label u = .ok v := by
  obtain ⟨e, he, hkey, hfreeze⟩ := exists_of_mem_right h hd
  obtain ⟨u, hu, hfreezes⟩ := ((stands hm he hfreeze).leaf rest v).mp ⟨hfound, hv⟩
  refine ⟨e, he, hkey, u, Outline.mem_leaves_under.mpr ⟨_, ?_, hu⟩, hfreezes⟩
  rw [hkey, Path.parts_text, List.map_append]

/-- The leaves of the frozen tree are those of the values, each beneath its key. -/
theorem find?_leaf_iff (h : ws.Spells m) (hm : m.Distinct) (ht : freezeTree what (.map m) = .ok t) {v : Value}
    (hv : v.isLeaf) :
    t.find? place = some v ↔ ∃ d ∈ ws, ∃ rest, place = d.1.segments ++ rest ∧ d.2.find? rest = some v := by
  have hstands := RawMap.stands_of_freezeTree hm ht
  constructor
  · intro hfound
    obtain ⟨u, hu, hfreezes⟩ := (hstands.leaf place v).mp ⟨(Value.find?_map t place).trans hfound, hv⟩
    obtain ⟨e, he, hu⟩ := RawMap.mem_leaves_iff.mp hu
    obtain ⟨d, hd, hkey, hfreeze⟩ := exists_of_mem_left h he
    obtain ⟨rest, hplace, hu⟩ := Outline.mem_leaves_under.mp hu
    rw [hkey, Path.parts_text] at hplace
    obtain ⟨front, back, rfl, hfront, rfl⟩ := List.map_eq_append_iff.mp hplace
    have hback := ((stands hm he hfreeze).leaf back v).mpr ⟨u, hu, hfreezes⟩
    exact ⟨d, hd, back, by rw [Key.map_text_inj.mp hfront], hback.1⟩
  · intro hfound
    obtain ⟨d, hd, rest, rfl, hfound⟩ := hfound
    obtain ⟨e, he, _, u, hu, hfreezes⟩ := h.exists_leaf hm hd hfound hv
    have hmem := RawMap.mem_leaves_iff.mpr ⟨e, he, hu⟩
    exact (Value.find?_map t _).symm.trans ((hstands.leaf _ v).mpr ⟨u, hmem, hfreezes⟩).1

/-- The maps of the frozen tree are its root, those above the keys, and those of the values, each beneath its key. -/
theorem find?_map_iff (h : ws.Spells m) (hm : m.Distinct) (ht : freezeTree what (.map m) = .ok t) :
    (∃ below, t.find? place = some (.map below)) ↔
      place = [] ∨ (∃ d ∈ ws, place <+: d.1.segments ∧ place ≠ d.1.segments) ∨
        ∃ d ∈ ws, ∃ rest, place = d.1.segments ++ rest ∧ ∃ below, d.2.find? rest = some (.map below) := by
  have hmap := (RawMap.stands_of_freezeTree hm ht).map place
  simp only [Value.find?_map, RawMap.mem_maps_iff, List.map_eq_nil_iff] at hmap
  rw [hmap]
  refine or_congr_right ?_
  constructor
  · intro hplace
    obtain ⟨e, he, hplace⟩ := hplace
    obtain ⟨d, hd, hkey, hfreeze⟩ := exists_of_mem_left h he
    rw [Outline.mem_maps_under, hkey, Path.parts_text] at hplace
    rcases hplace with ⟨hpre, hne⟩ | ⟨rest, hrest, hplace⟩
    · obtain ⟨front, hfront, heq⟩ := List.prefix_map_iff.mp hpre
      rw [Key.map_text_inj] at heq
      exact .inl ⟨d, hd, heq ▸ hfront, fun heq => hne (heq ▸ rfl)⟩
    · obtain ⟨front, back, rfl, hfront, rfl⟩ := List.map_eq_append_iff.mp hplace
      exact .inr ⟨d, hd, back, by rw [Key.map_text_inj.mp hfront], ((stands hm he hfreeze).map back).mpr hrest⟩
  · intro hplace
    rcases hplace with ⟨d, hd, hpre, hne⟩ | ⟨d, hd, rest, rfl, hbelow⟩
    · obtain ⟨e, he, hkey, _⟩ := exists_of_mem_right h hd
      refine ⟨e, he, ?_⟩
      rw [Outline.mem_maps_under, hkey, Path.parts_text]
      exact .inl ⟨hpre.map Key.text, fun heq => hne (Key.map_text_inj.mp heq)⟩
    · obtain ⟨e, he, hkey, hfreeze⟩ := exists_of_mem_right h hd
      refine ⟨e, he, ?_⟩
      rw [Outline.mem_maps_under, hkey, Path.parts_text, List.map_append]
      exact .inr ⟨_, ((stands hm he hfreeze).map rest).mp hbelow, rfl⟩

/-- Of the values of a map that freezes at most one holds a leaf at a place. -/
theorem eq_of_shared_leaf (h : ws.Spells m) (hm : m.Distinct) (hclear : m.outline.Clear) {d d' : Path × Value}
    (hd : d ∈ ws) (hd' : d' ∈ ws) {rest rest' : List String} (heq : d.1.segments ++ rest = d'.1.segments ++ rest')
    {v : Value} (hv : v.isLeaf) (hfound : d.2.find? rest = some v) (hfound' : d'.2.find? rest' = some v) :
    d.1 = d'.1 := by
  obtain ⟨e, he, hkey, u, hu, _⟩ := h.exists_leaf hm hd hfound hv
  obtain ⟨e', he', hkey', u', hu', _⟩ := h.exists_leaf hm hd' hfound' hv
  rw [heq] at hu
  rw [RawMap.eq_of_shared_leaf hclear he he' hu hu', hkey'] at hkey
  exact Path.text_inj.mp (Key.text.inj hkey).symm

end Writes.Spells

/-! ## Where the two agree -/

/-- Whether a value holds something at a place, and the place is at or beneath a longer key. -/
def Writes.Eclipsed (ws : Writes) (place : List String) (v : Value) : Prop :=
  ∃ d ∈ ws, ∃ e ∈ ws, ∃ rest, d.1.segments <+: e.1.segments ∧ d.1 ≠ e.1 ∧ e.1.segments <+: place ∧
    place = d.1.segments ++ rest ∧ d.2.find? rest = some v

theorem Writes.governs_of_not_eclipsed {ws : Writes} {d : Path × Value} (hd : d ∈ ws) {rest : List String} {v : Value}
    (hfound : d.2.find? rest = some v) (h : ¬ ws.Eclipsed (d.1.segments ++ rest) v) :
    ws.Governs d (d.1.segments ++ rest) := by
  have hplace := List.prefix_append d.1.segments rest
  refine ⟨hd, hplace, ?_⟩
  intro e he hpre
  rcases List.prefix_or_prefix_of_prefix hpre hplace with hle | hge
  · exact hle
  · by_cases heq : d.1 = e.1
    · exact heq ▸ List.prefix_rfl
    · exact absurd ⟨d, hd, e, he, rest, hge, heq, hpre, rfl, hfound⟩ h

namespace Writes.Spells

variable {ws : Writes} {m : RawMap} {what : String} {t : Tree}

/-- Expanding keeps the leaves that are not eclipsed, and no others. -/
theorem find?_tree_iff (h : ws.Spells m) (hm : m.Distinct) (ht : freezeTree what (.map m) = .ok t)
    (place : List String) {v : Value} (hv : v.isLeaf) :
    ws.tree.find? place = some v ↔ t.find? place = some v ∧ ¬ ws.Eclipsed place v := by
  have hclear := RawMap.clear_of_freezeTree hm ht
  rw [Writes.find?_tree_leaf_iff (h.sound hm) hv, h.find?_leaf_iff hm ht hv]
  constructor
  · intro hgoverns
    obtain ⟨⟨d, rest, hd, hplace, hfound⟩, _⟩ := hgoverns
    refine ⟨⟨d, hd.1, rest, hplace, hfound⟩, ?_⟩
    intro heclipsed
    obtain ⟨d', hd', e, he, rest', hpre, hne, hcovers, hplace', hfound'⟩ := heclipsed
    -- no other value holds the leaf, and no longer key is at its place or above it
    have hsame : d'.1 = d.1 := h.eq_of_shared_leaf hm hclear hd' hd.1 (hplace' ▸ hplace) hv hfound' hfound
    have hback : e.1.segments <+: d'.1.segments := hsame ▸ hd.2.2 e he hcovers
    exact hne (Path.eq_of_segments (hpre.eq_of_length_le hback.length_le))
  · intro hkept
    obtain ⟨⟨d, hd, rest, rfl, hfound⟩, hnot⟩ := hkept
    refine ⟨⟨d, rest, governs_of_not_eclipsed hd hfound hnot, rfl, hfound⟩, ?_⟩
    intro e he hpre
    by_contra hne
    obtain ⟨below, hbelow⟩ := (h.find?_map_iff hm ht).mpr (.inr (.inl ⟨e, he, hpre, Ne.symm hne⟩))
    have hleaf := (h.find?_leaf_iff hm ht hv).mpr ⟨d, hd, rest, rfl, hfound⟩
    exact Value.map_ne_of_isLeaf hv below (Option.some.inj (hbelow.symm.trans hleaf))

/-- Expanding gives the frozen tree when all that is eclipsed are maps that are there anyway. -/
theorem tree_eq_iff (h : ws.Spells m) (hm : m.Distinct) (ht : freezeTree what (.map m) = .ok t) :
    ws.tree = t ↔ ∀ place v, ws.Eclipsed place v →
      ∃ below other, v = .map below ∧ ws.tree.find? place = some (.map other) := by
  constructor
  · intro heq place v heclipsed
    obtain ⟨d, hd, e, he, rest, hpre, hne, hcovers, hplace, hfound⟩ := heclipsed
    by_cases hv : v.isLeaf
    · have hleaf := (h.find?_leaf_iff hm ht hv).mpr ⟨d, hd, rest, hplace, hfound⟩
      have hkept := (h.find?_tree_iff hm ht place hv).mp (heq ▸ hleaf)
      exact absurd ⟨d, hd, e, he, rest, hpre, hne, hcovers, hplace, hfound⟩ hkept.2
    · obtain ⟨below, rfl⟩ := Value.eq_map_of_not_isLeaf hv
      obtain ⟨other, hother⟩ :=
        (h.find?_map_iff hm ht).mpr (.inr (.inr ⟨d, hd, rest, hplace, below, hfound⟩))
      exact ⟨below, other, rfl, heq ▸ hother⟩
  · intro hmaps
    have hsound := h.sound hm
    refine Tree.eq_of_leaves_maps hsound.tree_frozen (freezeTree_frozen (RawMap.distinct_map.mpr hm) ht) ?_ ?_
    · intro place v hv
      rw [h.find?_tree_iff hm ht place hv]
      refine and_iff_left_of_imp fun _ heclipsed => ?_
      obtain ⟨below, _, rfl, _⟩ := hmaps place v heclipsed
      cases hv
    · intro place
      rw [Writes.find?_tree_map_iff hsound, h.find?_map_iff hm ht]
      constructor
      · exact Or.imp_right (Or.imp_right fun ⟨d, rest, hd, hfound⟩ => ⟨d, hd.1, rest, hfound⟩)
      · intro hmap
        rcases hmap with hnil | habove | ⟨d, hd, rest, rfl, below, hfound⟩
        · exact .inl hnil
        · exact .inr (.inl habove)
        · by_cases heclipsed : ws.Eclipsed (d.1.segments ++ rest) (.map below)
          · obtain ⟨_, other, _, hother⟩ := hmaps _ _ heclipsed
            exact (Writes.find?_tree_map_iff hsound).mp ⟨other, hother⟩
          · exact .inr (.inr ⟨d, rest, governs_of_not_eclipsed hd hfound heclipsed, rfl, below, hfound⟩)

theorem unique {ws' : Writes} (h : ws.Spells m) (h' : ws'.Spells m) : ws = ws' := by
  refine List.right_unique_forall₂' ?_ h h'
  intro e d d' hd hd'
  have hpath : d.1 = d'.1 := Path.text_inj.mp (Key.text.inj (hd.1.symm.trans hd'.1))
  exact Prod.ext hpath (Except.ok.inj (hd.2.symm.trans hd'.2))

end Writes.Spells

/-- **Expanding agrees with freezing unless a longer key eclipses something.** Let the keys of a raw map be paths, and
    let the map freeze. Then expanding comes out as well, also for a source that was given the map, and keeps every
    leaf of the frozen tree but those that stand in the value of one key at or beneath a longer key. It gives the
    frozen tree exactly when all that a value holds at or beneath a longer key are maps, at places where the
    expanded tree has maps too. -/
theorem expanding_agrees_with_freezing_iff {what : String} {m : RawMap} (hm : m.Distinct)
    (hkeys : ∀ e ∈ m, ∃ p, e.1.toRaw.spelledPath = .ok p) {t : Tree} (ht : freezeTree what (.map m) = .ok t) :
    ∃ ws : Writes, ws.Spells m ∧ expand m = .ok ws.tree ∧ (∀ source, treeOfData source (.map m) = .ok ws.tree) ∧
      (∀ place v, v.isLeaf → (ws.tree.find? place = some v ↔ t.find? place = some v ∧ ¬ ws.Eclipsed place v)) ∧
      (ws.tree = t ↔ ∀ place v, ws.Eclipsed place v →
        ∃ below other, v = .map below ∧ ws.tree.find? place = some (.map other)) := by
  have hclear := clear_of_freeze (.map m) (RawMap.distinct_map.mpr hm) (freezeTree_eq_ok_iff.mp ht)
  rw [Raw.outline_map] at hclear
  obtain ⟨ws, hws⟩ := exists_spells hm hkeys fun e he => RawMap.clear_of_mem hclear he
  exact ⟨ws, hws, hws.expand, fun _ => hws.expand, fun place v hv => hws.find?_tree_iff hm ht place hv,
    hws.tree_eq_iff hm ht⟩

/-- A map at `a` and a value at `a.c`, which the map has nothing at, expand to the tree that they freeze to. -/
theorem value_beside_a_map_expands_as_it_freezes :
    freezeTree "tree" (.map [(.text "a", .map [(.text "b", .scalar (.int 1))]), (.text "a.c", .scalar (.int 2))]) =
        .ok [("a", .map [("b", .scalar (.int 1)), ("c", .scalar (.int 2))])] ∧
      expand [(.text "a", .map [(.text "b", .scalar (.int 1))]), (.text "a.c", .scalar (.int 2))] =
        .ok [("a", .map [("b", .scalar (.int 1)), ("c", .scalar (.int 2))])] := by
  let m : RawMap := [(.text "a", .map [(.text "b", .scalar (.int 1))]), (.text "a.c", .scalar (.int 2))]
  let t : Tree := [("a", .map [("b", .scalar (.int 1)), ("c", .scalar (.int 2))])]
  let first : Path × Value := (⟨["a"], by decide, by decide⟩, .map [("b", .scalar (.int 1))])
  let second : Path × Value := (⟨["a", "c"], by decide, by decide⟩, .scalar (.int 2))
  have hm : m.Distinct := by simp [m, RawMap.Distinct, Raw.Distinct, Key.same]
  have hkeys : ∀ e ∈ m, ∃ p, e.1.toRaw.spelledPath = .ok p := by
    simp only [m, List.forall_mem_cons]
    exact ⟨⟨first.1, rfl⟩, ⟨second.1, rfl⟩, by simp⟩
  have ht : freezeTree "tree" (.map m) = .ok t := by
    have hnested : RawMap.nestDotted "tree" m = .ok (Value.thawEntries t) := rfl
    rw [freezeTree, hnested]
    exact freezeEntries_thaw "tree" t (by decide)
  have hspells : Writes.Spells [first, second] m := by
    refine .cons ⟨rfl, freeze_thaw (.text "a") first.2 (by decide)⟩ (.cons ⟨rfl, ?_⟩ .nil)
    exact freeze_thaw (.text "a.c") second.2 (by decide)
  obtain ⟨ws, hws, hexpand, _, _, hiff⟩ := expanding_agrees_with_freezing_iff hm hkeys ht
  obtain rfl := hws.unique hspells
  refine ⟨ht, hexpand.trans (congrArg _ (hiff.mpr ?_))⟩
  -- only the second key is longer than the other, and the first value holds nothing there
  intro place v heclipsed
  obtain ⟨d, hd, e, he, rest, hpre, hne, hcovers, rfl, hfound⟩ := heclipsed
  simp only [List.mem_cons, List.not_mem_nil, or_false] at hd he
  rcases hd with rfl | rfl <;> rcases he with rfl | rfl
  · exact absurd rfl hne
  · obtain ⟨more, hmore⟩ := hcovers
    obtain rfl : "c" :: more = rest := by simpa [first, second] using hmore
    simp [first, Tree.find?_cons, Tree.get?] at hfound
  · exact absurd hpre (by decide)
  · exact absurd rfl hne

/-- A map at `a` that holds a map at `b`, and a map at `a.b`, freeze to their union; expanding loses what the first
    holds there. -/
theorem map_reaching_into_a_longer_key_is_lost :
    ∃ t e : Tree,
      freezeTree "tree" (.map [(.text "a", .map [(.text "b", .map [(.text "x", .scalar (.int 1))])]),
        (.text "a.b", .map [(.text "y", .scalar (.int 2))])]) = .ok t ∧
      expand [(.text "a", .map [(.text "b", .map [(.text "x", .scalar (.int 1))])]),
        (.text "a.b", .map [(.text "y", .scalar (.int 2))])] = .ok e ∧
      t.flatten = [("a.b.x", .scalar (.int 1)), ("a.b.y", .scalar (.int 2))] ∧
      e.flatten = [("a.b.y", .scalar (.int 2))] ∧ e ≠ t := by
  let m : RawMap := [(.text "a", .map [(.text "b", .map [(.text "x", .scalar (.int 1))])]),
    (.text "a.b", .map [(.text "y", .scalar (.int 2))])]
  let t : Tree := [("a", .map [("b", .map [("x", .scalar (.int 1)), ("y", .scalar (.int 2))])])]
  let e : Tree := [("a", .map [("b", .map [("y", .scalar (.int 2))])])]
  let first : Path × Value := (⟨["a"], by decide, by decide⟩, .map [("b", .map [("x", .scalar (.int 1))])])
  let second : Path × Value := (⟨["a", "b"], by decide, by decide⟩, .map [("y", .scalar (.int 2))])
  have hspells : Writes.Spells [first, second] m := by
    refine .cons ⟨rfl, freeze_thaw (.text "a") first.2 (by decide)⟩ (.cons ⟨rfl, ?_⟩ .nil)
    exact freeze_thaw (.text "a.b") second.2 (by decide)
  have htree : Writes.tree [first, second] = e := by
    dsimp only [first, second, e]
    rfl
  have hnested : RawMap.nestDotted "tree" m = .ok (Value.thawEntries t) := rfl
  refine ⟨t, e, ?_, hspells.expand.trans (congrArg _ htree), rfl, rfl, by simp [t, e]⟩
  rw [freezeTree, hnested]
  exact freezeEntries_thaw "tree" t (by decide)

end LayeredConfig
