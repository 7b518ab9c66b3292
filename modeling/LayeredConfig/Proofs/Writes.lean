import LayeredConfig.Proofs.Ordered
import LayeredConfig.Proofs.Path
import LayeredConfig.Proofs.Tree.Place
import LayeredConfig.Writes
import Mathlib.Data.List.MinMax
/-!
# What writes spell

Writes in which every path stands once spell a tree that holds at a place what the write with the longest path at or
above the place holds there (`find?_tree_of_governs`), and a map at every place above a path (`find?_tree_above`):
paths are written in ascending order, so what lies beneath a path comes later. From this follows which leaves and
which maps are in the tree (`find?_tree_leaf_iff`, `find?_tree_map_iff`). In particular what was written at a path is
in the tree as long as nothing was written beneath it (`find?_tree_of_top`), and a write beneath a path makes a map of
the path, whatever was written at the path itself (`find?_tree_of_beneath`).
-/
namespace LayeredConfig
namespace Writes

/-! ## Every path stands once -/

/-- Writes as a builder keeps them: no path stands twice, and every value is in stored form. -/
structure Sound (ws : Writes) : Prop where
  nodup : (ws.map (·.1)).Nodup
  frozen : ∀ e ∈ ws, e.2.Frozen

theorem sound_nil : Sound [] := ⟨List.nodup_nil, by simp⟩

theorem mem_put {ws : Writes} {path : Path} {v : Value} {e : Path × Value} (h : e ∈ ws.put path v) :
    e = (path, v) ∨ e ∈ ws := by
  induction ws with
  | nil => simpa [put] using h
  | cons d rest ih =>
    obtain ⟨p, w⟩ := d
    rw [put] at h
    split at h
    · rename_i hp
      rcases List.mem_cons.mp h with h | h
      · exact .inl (by rw [h, hp])
      · exact .inr (List.mem_cons_of_mem _ h)
    · rcases List.mem_cons.mp h with h | h
      · exact .inr (h ▸ List.mem_cons_self)
      · exact (ih h).imp id (List.mem_cons_of_mem _)

theorem Sound.put {ws : Writes} (h : ws.Sound) (path : Path) {v : Value} (hv : v.Frozen) :
    (ws.put path v).Sound := by
  constructor
  · have hnodup := h.nodup
    clear h
    induction ws with
    | nil => simp [Writes.put]
    | cons d rest ih =>
      obtain ⟨p, w⟩ := d
      rw [List.map_cons, List.nodup_cons] at hnodup
      rw [Writes.put]
      split
      · rw [List.map_cons, List.nodup_cons]
        exact hnodup
      · rename_i hp
        rw [List.map_cons, List.nodup_cons]
        refine ⟨?_, ih hnodup.2⟩
        intro hmem
        obtain ⟨e, he, heq⟩ := List.mem_map.mp hmem
        rcases mem_put he with he | he
        · rw [he] at heq
          exact hp heq.symm
        · exact hnodup.1 (List.mem_map.mpr ⟨e, he, heq⟩)
  · intro e he
    rcases mem_put he with he | he
    · rw [he]
      exact hv
    · exact h.frozen e he

theorem mem_ordered {ws : Writes} {e : Path × Value} : e ∈ ws.ordered ↔ e ∈ ws := (sortOrdered_perm ws).mem_iff

theorem Sound.ordered_ascending {ws : Writes} (h : ws.Sound) :
    ws.ordered.Pairwise fun a b => a.1.text < b.1.text := by
  apply sortOrdered_ascending fun e : Path × Value => e.1.text
  refine (List.pairwise_map.mp h.nodup).imp ?_
  intro a b hne heq
  exact hne (Path.text_inj.mp heq)

/-! ## Writing them one after the other -/

@[simp] theorem into_nil (t : Tree) : into [] t = t := rfl

@[simp] theorem into_cons (e : Path × Value) (ws : Writes) (t : Tree) :
    into (e :: ws) t = into ws (t.setAt e.1.segments e.2) := rfl

theorem into_append (ws vs : Writes) (t : Tree) : into (ws ++ vs) t = into vs (into ws t) :=
  List.foldl_append

theorem into_frozen {ws : Writes} (h : ∀ e ∈ ws, e.2.Frozen) {t : Tree} (ht : t.Frozen) : (ws.into t).Frozen := by
  induction ws generalizing t with
  | nil => exact ht
  | cons e rest ih =>
    obtain ⟨he, hrest⟩ := List.forall_mem_cons.mp h
    exact ih hrest (ht.setAt e.1.isKey he)

theorem Sound.tree_frozen {ws : Writes} (h : ws.Sound) : ws.tree.Frozen :=
  into_frozen (fun e he => h.frozen e (mem_ordered.mp he)) Tree.frozen_nil

/-- A leaf in a tree that was written to stood there before, or stands in something that was written. -/
theorem find?_into_leaf {ws : Writes} {t : Tree} {place : List String} {v : Value} (hv : v.isLeaf)
    (h : (ws.into t).find? place = some v) :
    t.find? place = some v ∨ ∃ e ∈ ws, ∃ rest, place = e.1.segments ++ rest ∧ e.2.find? rest = some v := by
  induction ws generalizing t with
  | nil => exact .inl h
  | cons e rest ih =>
    rcases ih h with hbefore | ⟨d, hd, hfound⟩
    · rcases (Tree.find?_setAt_leaf_iff e.1.nonempty hv).mp hbefore with hwritten | ⟨_, _, hbefore⟩
      · exact .inr ⟨e, List.mem_cons_self, hwritten⟩
      · exact .inl hbefore
    · exact .inr ⟨d, List.mem_cons_of_mem _ hd, hfound⟩

theorem find?_into_apart {ws : Writes} {place : List String}
    (h : ∀ e ∈ ws, ¬ e.1.segments <+: place ∧ ¬ place <+: e.1.segments) (t : Tree) :
    (ws.into t).find? place = t.find? place := by
  induction ws generalizing t with
  | nil => rfl
  | cons e rest ih =>
    obtain ⟨he, hrest⟩ := List.forall_mem_cons.mp h
    rw [into_cons, ih hrest, Tree.find?_setAt_apart t he.1 he.2]

theorem find?_into_map {ws : Writes} {place : List String} (h : ∀ e ∈ ws, ¬ e.1.segments <+: place) {t : Tree}
    (ht : ∃ below, t.find? place = some (.map below)) : ∃ below, (ws.into t).find? place = some (.map below) := by
  induction ws generalizing t with
  | nil => exact ht
  | cons e rest ih =>
    obtain ⟨he, hrest⟩ := List.forall_mem_cons.mp h
    rw [into_cons]
    apply ih hrest
    -- the write goes on in the map, or does not meet its place at all
    by_cases hbeneath : place <+: e.1.segments
    · obtain ⟨back, hback⟩ := hbeneath
      have hne : back ≠ [] := by
        intro hnil
        rw [hnil, List.append_nil] at hback
        exact he (hback ▸ List.prefix_rfl)
      rw [← hback]
      exact Tree.find?_setAt_above t place hne e.2
    · rw [Tree.find?_setAt_apart t he hbeneath]
      exact ht

/-! ## What the tree holds -/

/-- The writes before and after one of them: no later write is at its path or above it. -/
theorem Sound.split_ordered {ws : Writes} (h : ws.Sound) {e : Path × Value} (he : e ∈ ws) :
    ∃ front back, ws.ordered = front ++ e :: back ∧
      ∀ d ∈ back, d.1 ≠ e.1 ∧ ¬ d.1.segments <+: e.1.segments := by
  obtain ⟨front, back, hsplit⟩ := List.append_of_mem (mem_ordered.mpr he)
  refine ⟨front, back, hsplit, ?_⟩
  intro d hd
  have hasc := h.ordered_ascending
  rw [hsplit] at hasc
  have hlt : e.1.text < d.1.text := (List.pairwise_cons.mp (List.pairwise_append.mp hasc).2.1).1 d hd
  have hne : d.1 ≠ e.1 := fun heq => lt_irrefl _ (heq ▸ hlt)
  exact ⟨hne, fun hpre => lt_asymm hlt (Path.text_lt_of_prefix hpre hne)⟩

/-- Whether a write is the one with the longest path of those at a place or above it. -/
def Governs (ws : Writes) (d : Path × Value) (place : List String) : Prop :=
  d ∈ ws ∧ d.1.segments <+: place ∧ ∀ e ∈ ws, e.1.segments <+: place → e.1.segments <+: d.1.segments

theorem exists_governs {ws : Writes} {place : List String} (h : ∃ d ∈ ws, d.1.segments <+: place) :
    ∃ d, ws.Governs d place := by
  let above := ws.filter fun d => d.1.segments.isPrefixOf place
  have hmem : ∀ d, d ∈ above ↔ d ∈ ws ∧ d.1.segments <+: place := by
    intro d
    rw [List.mem_filter, List.isPrefixOf_iff_prefix]
  obtain ⟨d, hd⟩ : ∃ d, d ∈ above.argmax fun d => d.1.segments.length := by
    obtain ⟨d, hd, hplace⟩ := h
    have hne : above.argmax (fun d => d.1.segments.length) ≠ none := by
      rw [Ne, List.argmax_eq_none]
      exact List.ne_nil_of_mem ((hmem d).mpr ⟨hd, hplace⟩)
    exact Option.ne_none_iff_exists'.mp hne
  obtain ⟨hws, hplace⟩ := (hmem d).mp (List.argmax_mem hd)
  refine ⟨d, hws, hplace, ?_⟩
  intro e he heplace
  have hlength : e.1.segments.length ≤ d.1.segments.length :=
    List.le_of_mem_argmax (f := fun d : Path × Value => d.1.segments.length) ((hmem e).mpr ⟨he, heplace⟩) hd
  exact List.prefix_of_prefix_length_le heplace hplace hlength

/-- At or beneath the path that governs a place stands what was written there, if nothing was written beneath the
    place. -/
theorem find?_tree_of_governs {ws : Writes} (h : ws.Sound) {d : Path × Value} {rest : List String}
    (hd : ws.Governs d (d.1.segments ++ rest))
    (hbeneath : ∀ e ∈ ws, d.1.segments ++ rest <+: e.1.segments → e.1.segments = d.1.segments ++ rest) :
    ws.tree.find? (d.1.segments ++ rest) = d.2.find? rest := by
  obtain ⟨hmem, _, hlongest⟩ := hd
  obtain ⟨front, back, hsplit, hback⟩ := h.split_ordered hmem
  have hapart : ∀ e ∈ back, ¬ e.1.segments <+: d.1.segments ++ rest ∧ ¬ d.1.segments ++ rest <+: e.1.segments := by
    intro e he
    have hews : e ∈ ws := mem_ordered.mp (by simp [hsplit, he])
    have hnot : ¬ e.1.segments <+: d.1.segments ++ rest := fun hpre => (hback e he).2 (hlongest e hews hpre)
    exact ⟨hnot, fun hpre => hnot (hbeneath e hews hpre ▸ List.prefix_rfl)⟩
  rw [tree, hsplit, into_append, into_cons, find?_into_apart hapart]
  exact Tree.find?_setAt_append _ d.1.nonempty d.2 rest

theorem find?_tree_above {ws : Writes} (h : ws.Sound) {d : Path × Value} (hd : d ∈ ws) {place : List String}
    (hpre : place <+: d.1.segments) (hne : place ≠ d.1.segments) :
    ∃ below, ws.tree.find? place = some (.map below) := by
  obtain ⟨front, back, hsplit, hback⟩ := h.split_ordered hd
  have hnot : ∀ e ∈ back, ¬ e.1.segments <+: place := fun e he he' => (hback e he).2 (he'.trans hpre)
  rw [tree, hsplit, into_append, into_cons]
  -- the write makes a map of the place, and nothing later is written at the place or above it
  apply find?_into_map hnot
  obtain ⟨rest, hrest⟩ := hpre
  have hr : rest ≠ [] := fun hnil => hne (by rw [← hrest, hnil, List.append_nil])
  rw [← hrest]
  exact Tree.find?_setAt_above _ place hr d.2

/-- With nothing written beneath a place, it holds what the write that governs it holds there, or nothing if no write
    governs it. -/
theorem governs_or_find?_tree_eq_none {ws : Writes} (h : ws.Sound) {place : List String} (hne : place ≠ [])
    (hbeneath : ∀ e ∈ ws, place <+: e.1.segments → e.1.segments = place) :
    (∃ d rest, ws.Governs d place ∧ place = d.1.segments ++ rest ∧ ws.tree.find? place = d.2.find? rest) ∨
      ws.tree.find? place = none := by
  by_cases habove : ∃ d ∈ ws, d.1.segments <+: place
  · obtain ⟨d, hd⟩ := exists_governs habove
    obtain ⟨rest, rfl⟩ := hd.2.1
    exact .inl ⟨d, rest, hd, rfl, find?_tree_of_governs h hd hbeneath⟩
  · right
    have hapart : ∀ e ∈ ws.ordered, ¬ e.1.segments <+: place ∧ ¬ place <+: e.1.segments := by
      intro e he
      rw [mem_ordered] at he
      exact ⟨fun hpre => habove ⟨e, he, hpre⟩, fun hpre => habove ⟨e, he, hbeneath e he hpre ▸ List.prefix_rfl⟩⟩
    rw [tree, find?_into_apart hapart]
    obtain ⟨key, rest, rfl⟩ := List.exists_cons_of_ne_nil hne
    rw [Tree.find?_cons]
    rfl

theorem find?_tree_of_top {ws : Writes} (h : ws.Sound) {p : Path} {v : Value} (hp : (p, v) ∈ ws)
    (htop : ∀ e ∈ ws, p.segments <+: e.1.segments → e.1 = p) : ws.tree.find? p.segments = some v := by
  have hgoverns : ws.Governs (p, v) (p.segments ++ []) := by
    rw [List.append_nil]
    exact ⟨hp, List.prefix_rfl, fun e _ he => he⟩
  have hfound := find?_tree_of_governs h hgoverns fun e he hpre => by
    rw [List.append_nil] at hpre ⊢
    rw [htop e he hpre]
  rwa [List.append_nil, Value.find?_nil] at hfound

theorem find?_tree_of_beneath {ws : Writes} (h : ws.Sound) {p q : Path} {w : Value} (hq : (q, w) ∈ ws)
    (hpq : p.segments <+: q.segments) (hne : p ≠ q) : ∃ below, ws.tree.find? p.segments = some (.map below) :=
  find?_tree_above h hq hpq fun heq => hne (Path.eq_of_segments heq)

/-! ## Which leaves and maps it has -/

variable {ws : Writes} {place : List String}

/-- A leaf stands in the tree when the write that governs its place holds it there and nothing was written beneath. -/
theorem find?_tree_leaf_iff (h : ws.Sound) {v : Value} (hv : v.isLeaf) :
    ws.tree.find? place = some v ↔
      (∃ d rest, ws.Governs d place ∧ place = d.1.segments ++ rest ∧ d.2.find? rest = some v) ∧
        ∀ e ∈ ws, place <+: e.1.segments → e.1.segments = place := by
  constructor
  · intro hfound
    have hne : place ≠ [] := fun hnil => Tree.find?_nil_ne hv _ (hnil ▸ hfound)
    have hbeneath : ∀ e ∈ ws, place <+: e.1.segments → e.1.segments = place := by
      intro e he hpre
      by_contra hne
      obtain ⟨below, hbelow⟩ := find?_tree_above h he hpre (Ne.symm hne)
      exact Value.map_ne_of_isLeaf hv below (Option.some.inj (hbelow.symm.trans hfound))
    refine ⟨?_, hbeneath⟩
    rcases governs_or_find?_tree_eq_none h hne hbeneath with ⟨d, rest, hd, hplace, heq⟩ | hnone
    · exact ⟨d, rest, hd, hplace, heq ▸ hfound⟩
    · rw [hnone] at hfound
      cases hfound
  · intro hgoverns
    obtain ⟨⟨d, rest, hd, rfl, hfound⟩, hbeneath⟩ := hgoverns
    rw [find?_tree_of_governs h hd hbeneath, hfound]

/-- A map stands in the tree at its root, above what was written, and where the write that governs the place holds
    one. -/
theorem find?_tree_map_iff (h : ws.Sound) :
    (∃ below, ws.tree.find? place = some (.map below)) ↔
      place = [] ∨ (∃ d ∈ ws, place <+: d.1.segments ∧ place ≠ d.1.segments) ∨
        ∃ d rest, ws.Governs d place ∧ place = d.1.segments ++ rest ∧ ∃ below, d.2.find? rest = some (.map below) := by
  by_cases hwritten : ∃ d ∈ ws, place <+: d.1.segments ∧ place ≠ d.1.segments
  · obtain ⟨d, hd, hpre, hne⟩ := hwritten
    exact ⟨fun _ => .inr (.inl ⟨d, hd, hpre, hne⟩), fun _ => find?_tree_above h hd hpre hne⟩
  · have hbeneath : ∀ e ∈ ws, place <+: e.1.segments → e.1.segments = place :=
      fun e he hpre => not_not.mp fun hne => hwritten ⟨e, he, hpre, Ne.symm hne⟩
    constructor
    · intro hfound
      obtain ⟨below, hfound⟩ := hfound
      by_cases hplace : place = []
      · exact .inl hplace
      · rcases governs_or_find?_tree_eq_none h hplace hbeneath with ⟨d, rest, hd, hrest, heq⟩ | hnone
        · exact .inr (.inr ⟨d, rest, hd, hrest, below, heq ▸ hfound⟩)
        · rw [hnone] at hfound
          cases hfound
    · intro hmap
      rcases hmap with rfl | hmap | ⟨d, rest, hd, rfl, below, hfound⟩
      · exact ⟨_, Tree.find?_nil _⟩
      · exact absurd hmap hwritten
      · exact ⟨below, by rw [find?_tree_of_governs h hd hbeneath, hfound]⟩

end Writes
end LayeredConfig
