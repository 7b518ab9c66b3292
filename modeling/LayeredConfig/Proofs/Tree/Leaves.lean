import LayeredConfig.Proofs.Path
import LayeredConfig.Proofs.Tree.Place
import Mathlib.Data.List.Lex
import Mathlib.Data.List.Nodup
import Mathlib.Data.List.Perm.Subperm
/-!
# The leaves of a tree

Flattening a frozen tree lists exactly the leaves that stand in it, each under the dotted text of its place
(`mem_flatten_iff`), in the order of the places (`leaves_ascending`), and lists no text twice (`flatten_nodup`).
-/
namespace LayeredConfig

theorem Value.leavesAt_of_isLeaf {v : Value} (h : v.isLeaf) (behind : List String) :
    v.leavesAt behind = [(behind.reverse, v)] := by
  cases v with
  | map t => simp at h
  | _ => simp [Value.leavesAt]

theorem Value.mem_leavesAt_of_isLeaf {v w : Value} (h : v.isLeaf) {behind place : List String} :
    (place, w) ∈ v.leavesAt behind ↔
      ∃ rest, place = behind.reverse ++ rest ∧ v.find? rest = some w ∧ w.isLeaf := by
  rw [Value.leavesAt_of_isLeaf h, List.mem_singleton, Prod.mk.injEq]
  simp only [Value.find?_eq_some_iff_of_isLeaf h]
  constructor
  · intro heq
    obtain ⟨rfl, rfl⟩ := heq
    exact ⟨[], by simp, ⟨rfl, rfl⟩, h⟩
  · intro hfound
    obtain ⟨rest, hplace, ⟨rfl, rfl⟩, _⟩ := hfound
    exact ⟨by simpa using hplace, rfl⟩

namespace Tree

theorem find?_cons_entry (k : String) (v : Value) (t : Tree) (key : String) (rest : List String) :
    find? ((k, v) :: t) (key :: rest) = if k = key then v.find? rest else t.find? (key :: rest) := by
  rw [find?_cons, find?_cons, get?]
  split <;> rfl

end Tree

mutual

theorem Value.mem_leavesAt_iff {place : List String} {w : Value} : (behind : List String) → (v : Value) →
    v.Frozen → ((place, w) ∈ v.leavesAt behind ↔
      ∃ rest, place = behind.reverse ++ rest ∧ v.find? rest = some w ∧ w.isLeaf)
  | behind, .map entries, h => by
    rw [Value.leavesAt, mem_leavesOfEntries_iff behind entries (Tree.frozen_map.mp h)]
    constructor
    · intro hfound
      obtain ⟨key, rest, hplace, hf, hw⟩ := hfound
      exact ⟨key :: rest, hplace, by simpa using hf, hw⟩
    · intro hfound
      obtain ⟨rest, hplace, hf, hw⟩ := hfound
      rw [Value.find?_map] at hf
      cases rest with
      | nil => exact absurd hf (Tree.find?_nil_ne hw _)
      | cons key rest => exact ⟨key, rest, hplace, hf, hw⟩
  | _, .unset, _ => Value.mem_leavesAt_of_isLeaf rfl
  | _, .scalar _, _ => Value.mem_leavesAt_of_isLeaf rfl
  | _, .list _, _ => Value.mem_leavesAt_of_isLeaf rfl

theorem mem_leavesOfEntries_iff {place : List String} {w : Value} : (behind : List String) →
    (t : List (String × Value)) → Tree.Frozen t → ((place, w) ∈ leavesOfEntries behind t ↔
      ∃ key rest, place = behind.reverse ++ key :: rest ∧ Tree.find? t (key :: rest) = some w ∧ w.isLeaf)
  | _, [], _ => by simp [leavesOfEntries, Tree.find?_cons, Tree.get?]
  | behind, (k, v) :: t, h => by
    have ⟨_, _, hv, ht⟩ := Tree.frozen_cons.mp h
    rw [leavesOfEntries, List.mem_append, Value.mem_leavesAt_iff (k :: behind) v hv,
      mem_leavesOfEntries_iff behind t ht]
    constructor
    · intro hfound
      rcases hfound with ⟨rest, hplace, hf, hw⟩ | ⟨key, rest, hplace, hf, hw⟩
      · exact ⟨k, rest, by simpa using hplace, by rw [Tree.find?_cons_entry, if_pos rfl, hf], hw⟩
      · refine ⟨key, rest, hplace, ?_, hw⟩
        rw [Tree.find?_cons_entry, if_neg, hf]
        intro hk
        rw [← hk, Tree.find?_cons, Tree.get?_tail_of_frozen h] at hf
        cases hf
    · intro hfound
      obtain ⟨key, rest, hplace, hf, hw⟩ := hfound
      rw [Tree.find?_cons_entry] at hf
      split at hf
      · rename_i hk
        exact .inl ⟨rest, by simpa [hk] using hplace, hf, hw⟩
      · exact .inr ⟨key, rest, hplace, hf, hw⟩

end

theorem append_cons_lt {α : Type} [LT α] (front : List α) {a b : α} (h : a < b) (as bs : List α) :
    front ++ a :: as < front ++ b :: bs :=
  List.append_left_lt (List.cons_lt_cons_iff.mpr (.inl h))

mutual

theorem Value.leavesAt_ascending : (behind : List String) → (v : Value) → v.Frozen →
    ((v.leavesAt behind).map (·.1)).Pairwise (· < ·)
  | behind, .map entries, h => by
    rw [Value.leavesAt]
    exact leavesOfEntries_ascending behind entries (Tree.frozen_map.mp h)
  | _, .unset, _ => by simp [Value.leavesAt]
  | _, .scalar _, _ => by simp [Value.leavesAt]
  | _, .list _, _ => by simp [Value.leavesAt]

theorem leavesOfEntries_ascending : (behind : List String) → (t : List (String × Value)) → Tree.Frozen t →
    ((leavesOfEntries behind t).map (·.1)).Pairwise (· < ·)
  | _, [], _ => by simp [leavesOfEntries]
  | behind, (k, v) :: t, h => by
    have ⟨_, hlt, hv, ht⟩ := Tree.frozen_cons.mp h
    rw [leavesOfEntries, List.map_append, List.pairwise_append]
    refine ⟨Value.leavesAt_ascending (k :: behind) v hv, leavesOfEntries_ascending behind t ht, ?_⟩
    -- a place in the first entry goes on with its key, and a place in a later entry with a later key
    intro place h1 place' h2
    obtain ⟨⟨_, w1⟩, hm1, rfl⟩ := List.mem_map.mp h1
    obtain ⟨⟨_, w2⟩, hm2, rfl⟩ := List.mem_map.mp h2
    obtain ⟨rest1, hplace1, _⟩ := (Value.mem_leavesAt_iff (k :: behind) v hv).mp hm1
    obtain ⟨key, rest2, hplace2, hf, _⟩ := (mem_leavesOfEntries_iff behind t ht).mp hm2
    rw [Tree.find?_cons] at hf
    obtain ⟨u, hg, _⟩ := Option.bind_eq_some_iff.mp hf
    simp only at hplace1 hplace2 ⊢
    rw [hplace1, hplace2, List.reverse_cons, List.append_assoc]
    exact append_cons_lt behind.reverse (hlt (key, u) (Tree.mem_of_get? hg)) rest1 rest2

end

namespace Tree

theorem mem_leaves_iff {t : Tree} (h : t.Frozen) {place : List String} {v : Value} :
    (place, v) ∈ t.leaves ↔ t.find? place = some v ∧ v.isLeaf := by
  rw [leaves, mem_leavesOfEntries_iff [] t h]
  constructor
  · intro hl
    obtain ⟨key, rest, hplace, hf, hv⟩ := hl
    rw [List.reverse_nil, List.nil_append] at hplace
    exact ⟨hplace ▸ hf, hv⟩
  · intro hl
    obtain ⟨hf, hv⟩ := hl
    cases place with
    | nil => exact absurd hf (find?_nil_ne hv t)
    | cons key rest => exact ⟨key, rest, rfl, hf, hv⟩

theorem place_of_mem_leaves {t : Tree} (h : t.Frozen) {l : List String × Value} (hl : l ∈ t.leaves) :
    l.1 ≠ [] ∧ ∀ key ∈ l.1, IsKey key := by
  obtain ⟨place, v⟩ := l
  obtain ⟨hf, hv⟩ := (mem_leaves_iff h).mp hl
  refine ⟨?_, (h.of_find? hf).2⟩
  intro hnil
  exact find?_nil_ne hv t (hnil ▸ hf)

/-- A tree lists a leaf under a text when the leaf is found at the pieces of the text. -/
theorem mem_flatten_iff {t : Tree} (h : t.Frozen) {path : String} {v : Value} :
    (path, v) ∈ t.flatten ↔ t.find? (dottedPieces path) = some v ∧ v.isLeaf := by
  rw [flatten, List.mem_map, ← mem_leaves_iff h]
  constructor
  · intro hpath
    obtain ⟨⟨place, w⟩, hl, heq⟩ := hpath
    obtain ⟨rfl, rfl⟩ := Prod.mk.inj heq
    obtain ⟨hne, hkeys⟩ := place_of_mem_leaves h hl
    rwa [dottedPieces_place hne hkeys]
  · intro hl
    exact ⟨_, hl, by rw [joinDots_dottedPieces]⟩

/-- The leaves stand in the order of their places, compared key by key. -/
theorem leaves_ascending {t : Tree} (h : t.Frozen) : (t.leaves.map (·.1)).Pairwise (· < ·) :=
  leavesOfEntries_ascending [] t h

theorem leaves_nodup {t : Tree} (h : t.Frozen) : t.leaves.Nodup :=
  List.Nodup.of_map _ ((leaves_ascending h).imp ne_of_lt)

/-- A tree whose leaves are among those of another lists them in the order of the other. -/
theorem leaves_sublist {t u : Tree} (ht : t.Frozen) (hu : u.Frozen) (h : t.leaves ⊆ u.leaves) :
    t.leaves.Sublist u.leaves := by
  obtain ⟨among, hperm, hsub⟩ := List.subperm_of_subset (leaves_nodup ht) h
  have hascending := List.pairwise_map.mp (leaves_ascending hu)
  have heq : among = t.leaves := by
    refine List.Perm.eq_of_pairwise ?_ (hascending.sublist hsub) (List.pairwise_map.mp (leaves_ascending ht)) hperm
    intro a b _ _ hab hba
    exact absurd hab (lt_asymm hba)
  exact heq ▸ hsub

theorem leaves_congr {t u : Tree} (ht : t.Frozen) (hu : u.Frozen)
    (h : ∀ place v, v.isLeaf → (t.find? place = some v ↔ u.find? place = some v)) : t.leaves = u.leaves := by
  have hmem : ∀ l, l ∈ t.leaves ↔ l ∈ u.leaves := by
    intro l
    rw [mem_leaves_iff ht, mem_leaves_iff hu]
    exact and_congr_left fun hv => h l.1 l.2 hv
  exact (leaves_sublist ht hu fun l => (hmem l).mp).antisymm (leaves_sublist hu ht fun l => (hmem l).mpr)

theorem flatten_paths (t : Tree) : t.flatten.map (·.1) = (t.leaves.map (·.1)).map joinDots := by
  rw [flatten, List.map_map, List.map_map]
  rfl

theorem flatten_nodup {t : Tree} (h : t.Frozen) : (t.flatten.map (·.1)).Nodup := by
  have hnodup : (t.leaves.map (·.1)).Nodup := (leaves_ascending h).imp ne_of_lt
  rw [flatten_paths]
  refine List.Nodup.map_on ?_ hnodup
  intro p hp q hq hpq
  obtain ⟨l, hl, rfl⟩ := List.mem_map.mp hp
  obtain ⟨m, hm, rfl⟩ := List.mem_map.mp hq
  obtain ⟨hl1, hl2⟩ := place_of_mem_leaves h hl
  obtain ⟨hm1, hm2⟩ := place_of_mem_leaves h hm
  rw [← dottedPieces_place hl1 hl2, hpq, dottedPieces_place hm1 hm2]

end Tree
end LayeredConfig
