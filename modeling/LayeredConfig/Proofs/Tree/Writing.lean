import LayeredConfig.Proofs.Tree.Grouping
import LayeredConfig.Proofs.Writes
/-!
# What shows after writes

What shows in a tree after a write depends on the write alone at its place, beneath it and above it, and on what
showed before everywhere else (`face?_setAt_append`, `face?_setAt_above`, `face?_setAt_apart`). A write therefore makes
good for earlier ones at its place and beneath: with them or without them the tree is the same
(`setAt_into_filter`). What shows after pruning is what showed before, but for the tombstones (`face?_prune`), so that
pruning can be put off until after a write (`prune_setAt_prune`).
-/
namespace LayeredConfig

/-! ## A single write -/

namespace Tree

variable {t u : Tree} {place other : List String}

theorem face?_setAt_append (t : Tree) (hp : place ≠ []) (v : Value) (rest : List String) :
    (t.setAt place v).face? (place ++ rest) = (v.find? rest).map Value.face := by
  rw [face?, find?_setAt_append t hp]

theorem face?_setAt_above (t : Tree) (place : List String) {rest : List String} (hr : rest ≠ []) (v : Value) :
    (t.setAt (place ++ rest) v).face? place = some (.map []) := by
  obtain ⟨below, hbelow⟩ := find?_setAt_above t place hr v
  rw [face?, hbelow]
  rfl

theorem face?_setAt_apart (t : Tree) (h1 : ¬ place <+: other) (h2 : ¬ other <+: place) (v : Value) :
    (t.setAt place v).face? other = t.face? other := by
  rw [face?, face?, find?_setAt_apart t h1 h2]

theorem face?_setAt_congr (hp : place ≠ []) (v : Value)
    (h : ¬ place <+: other → ¬ other <+: place → t.face? other = u.face? other) :
    (t.setAt place v).face? other = (u.setAt place v).face? other := by
  by_cases hbeneath : place <+: other
  · obtain ⟨rest, rfl⟩ := hbeneath
    rw [face?_setAt_append t hp, face?_setAt_append u hp]
  · by_cases habove : other <+: place
    · obtain ⟨rest, rfl⟩ := habove
      have hr : rest ≠ [] := by
        rintro rfl
        rw [List.append_nil] at hbeneath
        exact hbeneath List.prefix_rfl
      rw [face?_setAt_above t other hr, face?_setAt_above u other hr]
    · rw [face?_setAt_apart t hbeneath habove, face?_setAt_apart u hbeneath habove, h hbeneath habove]

/-! ## Pruning -/

theorem face?_prune (h : t.Frozen) (place : List String) :
    (prune t).face? place = (t.face? place).bind Value.prune? := by
  rw [face?, face?, find?_prune h]
  cases t.find? place with
  | none => rfl
  | some v =>
    by_cases hv : v.isLeaf
    · rw [Option.bind_some, Option.map_some, Value.face_of_isLeaf hv, Option.bind_some]
      by_cases hunset : v = .unset
      · rw [hunset]
        rfl
      · rw [Value.prune?_of_isLeaf hv hunset, Option.map_some, Value.face_of_isLeaf hv]
    · obtain ⟨below, rfl⟩ := Value.eq_map_of_not_isLeaf hv
      rw [Option.bind_some, Value.prune?_map]
      rfl

theorem prune_eq_self (h : t.Frozen) (hnone : ∀ place, t.find? place ≠ some .unset) : prune t = t := by
  apply eq_of_face? h.prune h
  intro place
  rw [face?_prune h, face?]
  cases hfound : t.find? place with
  | none => rfl
  | some v =>
    by_cases hv : v.isLeaf
    · have hunset : v ≠ .unset := fun heq => hnone place (heq ▸ hfound)
      rw [Option.map_some, Value.face_of_isLeaf hv, Option.bind_some, Value.prune?_of_isLeaf hv hunset]
    · obtain ⟨below, rfl⟩ := Value.eq_map_of_not_isLeaf hv
      rfl

theorem prune_prune (h : t.Frozen) : prune (prune t) = prune t := prune_eq_self h.prune (find?_prune_ne_unset h)

/-- Pruning before a write and after it is as good as pruning after it. -/
theorem prune_setAt_prune (h : t.Frozen) (hp : place ≠ []) (hk : ∀ key ∈ place, IsKey key) {v : Value}
    (hv : v.Frozen) : prune ((prune t).setAt place v) = prune (t.setAt place v) := by
  have hset : (t.setAt place v).Frozen := h.setAt hk hv
  have hpset : ((prune t).setAt place v).Frozen := h.prune.setAt hk hv
  apply eq_of_face? hpset.prune hset.prune
  intro other
  rw [face?_prune hpset, face?_prune hset]
  by_cases hmeet : place <+: other ∨ other <+: place
  · rw [face?_setAt_congr (u := t) hp v fun h1 h2 => absurd hmeet (not_or.mpr ⟨h1, h2⟩)]
  · obtain ⟨h1, h2⟩ := not_or.mp hmeet
    rw [face?_setAt_apart _ h1 h2, face?_setAt_apart t h1 h2, ← face?_prune h.prune, ← face?_prune h, prune_prune h]

end Tree

/-! ## Any number of writes -/

namespace Writes

variable {ws : Writes} {t u : Tree}

theorem face?_into_congr (ws : Writes) {place : List String} (h : t.face? place = u.face? place) :
    (ws.into t).face? place = (ws.into u).face? place := by
  induction ws generalizing t u with
  | nil => exact h
  | cons e rest ih => exact ih (Tree.face?_setAt_congr e.1.nonempty e.2 fun _ _ => h)

theorem face?_into_filter (path : Path) {place : List String} (h1 : ¬ path.segments <+: place)
    (h2 : ¬ place <+: path.segments) (ws : Writes) (t : Tree) :
    (into (ws.filter fun e => !path.covers e.1) t).face? place = (ws.into t).face? place := by
  induction ws generalizing t with
  | nil => rfl
  | cons e rest ih =>
    by_cases hcovers : path.covers e.1
    · have hpre : path.segments <+: e.1.segments := List.isPrefixOf_iff_prefix.mp hcovers
      rw [List.filter_cons_of_neg (by simp [hcovers]), ih, into_cons]
      apply face?_into_congr
      refine (Tree.face?_setAt_apart t (fun h => h1 (hpre.trans h)) (fun h => ?_) e.2).symm
      exact (List.prefix_or_prefix_of_prefix h hpre).elim h2 h1
    · rw [List.filter_cons_of_pos (by simp [hcovers]), into_cons, into_cons, ih]

/-- A write makes good for earlier ones at its path and beneath. -/
theorem setAt_into_filter (hws : ∀ e ∈ ws, e.2.Frozen) (ht : t.Frozen) (path : Path) {v : Value} (hv : v.Frozen) :
    (into (ws.filter fun e => !path.covers e.1) t).setAt path.segments v = (ws.into t).setAt path.segments v := by
  have hkept : ∀ e ∈ ws.filter fun e => !path.covers e.1, e.2.Frozen := fun e he => hws e (List.mem_of_mem_filter he)
  apply Tree.eq_of_face? ((into_frozen hkept ht).setAt path.isKey hv) ((into_frozen hws ht).setAt path.isKey hv)
  intro place
  exact Tree.face?_setAt_congr path.nonempty v fun h1 h2 => face?_into_filter path h1 h2 ws t

end Writes
end LayeredConfig
