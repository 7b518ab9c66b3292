import LayeredConfig.Proofs.Tree.Writing
/-!
# Trees that are the same apart from a place

Two trees are the same apart from a place when they show the same wherever a place is neither above it nor beneath it.
One write more leaves the tree that writes spell the same apart from its path, whatever else was written
(`Writes.sameApart_put`). Laid over anything, trees that are the same apart from a place are so again, as long as
neither has a leaf above the place (`SameApart.merge`): such a leaf would hide from below what a map in its stead lets
through.
-/
namespace LayeredConfig

namespace Tree

variable {front place : List String} {t u lower : Tree}

/-- Whether two trees show the same wherever a place is neither above the given one nor beneath it. -/
def SameApart (front : List String) (t u : Tree) : Prop :=
  ∀ place, ¬ front <+: place → ¬ place <+: front → t.face? place = u.face? place

/-- Whether a tree has no leaf above a place. -/
def OpenAbove (front : List String) (t : Tree) : Prop :=
  ∀ above v, above <+: front → above ≠ front → t.find? above = some v → ¬ v.isLeaf

theorem SameApart.refl (front : List String) (t : Tree) : SameApart front t t := fun _ _ _ => rfl

theorem SameApart.symm (h : SameApart front t u) : SameApart front u t :=
  fun place h1 h2 => (h place h1 h2).symm

theorem SameApart.decides (h : SameApart front t u) (ht : OpenAbove front t) (h1 : ¬ front <+: place)
    (h2 : ¬ place <+: front) (hdec : t.Decides place) : u.Decides place := by
  rcases hdec with ⟨v, hv⟩ | ⟨way, rest, v, rfl, _, hv, hl⟩
  · have hface : u.face? place = some v.face := by
      rw [← h place h1 h2, face?, hv]
      rfl
    exact decides_of_face? hface
  · have hbeyond : ¬ front <+: way := fun hpre => h1 (hpre.trans (List.prefix_append way rest))
    have habove : ¬ way <+: front := by
      intro hpre
      have hne : way ≠ front := fun heq => hbeyond (heq ▸ List.prefix_rfl)
      exact ht way v hpre hne hv hl
    have hface : u.face? way = some v := by
      rw [← h way hbeyond habove, face?, hv, Option.map_some, Value.face_of_isLeaf hl]
    exact decides_beneath_leaf (find?_of_face?_isLeaf hl hface) hl rest

/-- Laid over the same tree, trees that are the same apart from a place stay so. -/
theorem SameApart.merge (h : SameApart front t u) (ht : t.Frozen) (hu : u.Frozen) (hto : OpenAbove front t)
    (huo : OpenAbove front u) (lower : Tree) : SameApart front (merge lower t) (merge lower u) := by
  intro place h1 h2
  by_cases hdec : t.Decides place
  · have hdec' : u.Decides place := h.decides hto h1 h2 hdec
    rw [(face?_merge ht place).1 hdec, (face?_merge hu place).1 hdec', h place h1 h2]
  · have hdec' : ¬ u.Decides place := fun hdec' => hdec (h.symm.decides huo h1 h2 hdec')
    rw [(face?_merge ht place).2 hdec, (face?_merge hu place).2 hdec']

/-- What stands at a place is determined by what shows at it and beneath it. -/
theorem find?_eq_of_face? (ht : t.Frozen) (hu : u.Frozen)
    (h : ∀ rest, t.face? (place ++ rest) = u.face? (place ++ rest)) : t.find? place = u.find? place := by
  apply find?_eq_of_maps (by simpa using h [])
  intro below below' hbelow hbelow'
  apply eq_of_face? (frozen_map.mp (ht.of_find? hbelow).1) (frozen_map.mp (hu.of_find? hbelow').1)
  intro rest
  have hrest := h rest
  rw [face?, face?, find?_append, find?_append, hbelow, hbelow'] at hrest
  exact hrest

theorem SameApart.find?_eq (h : SameApart front t u) (ht : t.Frozen) (hu : u.Frozen) (h1 : ¬ front <+: place)
    (h2 : ¬ place <+: front) : t.find? place = u.find? place := by
  apply find?_eq_of_face? ht hu
  intro rest
  refine h _ ?_ fun hpre => h2 ((List.prefix_append place rest).trans hpre)
  intro hpre
  exact (List.prefix_or_prefix_of_prefix hpre (List.prefix_append place rest)).elim h1 h2

theorem SameApart.erase_eq {key : String} {rest : List String} (h : SameApart (key :: rest) t u) (ht : t.Frozen)
    (hu : u.Frozen) : t.erase key = u.erase key := by
  apply eq_of_get? (ht.erase key) (hu.erase key)
  intro other
  by_cases hother : other = key
  · rw [hother, get?_erase_self, get?_erase_self]
  · have hfind : t.find? [other] = u.find? [other] :=
      h.find?_eq ht hu (by simp [Ne.symm hother]) (by simp [hother])
    rw [get?_erase hother, get?_erase hother]
    simpa [find?_cons] using hfind

end Tree

namespace Writes

variable {ws : Writes} {path : Path} {v : Value} {front place : List String}

theorem filter_put (path : Path) (v : Value) (ws : Writes) :
    (ws.put path v).filter (fun e => !path.covers e.1) = ws.filter fun e => !path.covers e.1 := by
  have hself : path.covers path := List.isPrefixOf_iff_prefix.mpr List.prefix_rfl
  induction ws with
  | nil => simp [put, hself]
  | cons e rest ih =>
    obtain ⟨p, w⟩ := e
    rw [put]
    split
    · rename_i hp
      simp [hp, hself]
    · rw [List.filter_cons, List.filter_cons, ih]

theorem filter_ordered_put (h : ws.Sound) (path : Path) (hv : v.Frozen) :
    (ws.put path v).ordered.filter (fun e => !path.covers e.1) = ws.ordered.filter fun e => !path.covers e.1 := by
  refine List.Perm.eq_of_pairwise ?_ ((h.put path hv).ordered_ascending.sublist List.filter_sublist)
    (h.ordered_ascending.sublist List.filter_sublist) ?_
  · intro a b _ _ hab hba
    exact absurd hab (lt_asymm hba)
  · have hperm : ∀ vs : Writes, (vs.ordered.filter fun e => !path.covers e.1).Perm
        (vs.filter fun e => !path.covers e.1) := fun vs => (sortOrdered_perm vs).filter _
    exact (hperm _).trans (filter_put path v ws ▸ (hperm ws).symm)

/-- One write more leaves the tree the same apart from every place that leads to its path. -/
theorem sameApart_put (h : ws.Sound) (hv : v.Frozen) (hfront : front <+: path.segments) :
    (ws.put path v).tree.SameApart front ws.tree := by
  intro place h1 h2
  have h1' : ¬ path.segments <+: place := fun hpre => h1 (hfront.trans hpre)
  have h2' : ¬ place <+: path.segments := fun hpre => (List.prefix_or_prefix_of_prefix hfront hpre).elim h1 h2
  rw [tree, tree, ← face?_into_filter path h1' h2', filter_ordered_put h path hv, face?_into_filter path h1' h2']

theorem openAbove_tree (h : ws.Sound) (hnone : ∀ e ∈ ws, e.1.segments <+: front → e.1.segments = front) :
    ws.tree.OpenAbove front := by
  intro above w habove hne hw hl
  obtain ⟨⟨d, _, ⟨hd, hpre, _⟩, _, _⟩, _⟩ := (find?_tree_leaf_iff h hl).mp hw
  have heq : d.1.segments = front := hnone d hd (hpre.trans habove)
  exact hne (habove.eq_of_length_le (heq ▸ hpre).length_le)

/-- **A write does not show apart from its place.** Lay writes over any tree, once without and once with one write
    more. Apart from a place that leads to the path of the write, both show the same, as long as nothing is written
    strictly above the place. -/
theorem sameApart_merge_put (h : ws.Sound) (hv : v.Frozen) (hfront : front <+: path.segments)
    (hnone : ∀ e ∈ ws, e.1.segments <+: front → e.1.segments = front) (lower : Tree) :
    (Tree.merge lower ws.tree).SameApart front (Tree.merge lower (ws.put path v).tree) := by
  have hput : ∀ e ∈ ws.put path v, e.1.segments <+: front → e.1.segments = front := by
    intro e he hpre
    rcases mem_put he with rfl | he
    · exact hpre.eq_of_length_le hfront.length_le
    · exact hnone e he hpre
  have hsound : (ws.put path v).Sound := h.put path hv
  exact (sameApart_put h hv hfront).symm.merge h.tree_frozen hsound.tree_frozen (openAbove_tree h hnone)
    (openAbove_tree hsound hput) lower

end Writes
end LayeredConfig
