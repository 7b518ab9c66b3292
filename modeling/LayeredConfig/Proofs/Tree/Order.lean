import LayeredConfig.Proofs.Tree.Leaves
import Mathlib.Data.List.Lex
import Mathlib.Data.List.Pairwise
/-!
# The order of leaves

A frozen tree lists its leaves in the order of their places, compared key by key (`flatten_keys_ascending`). The
dotted texts of the places are nearly in order as well. They are not where a map stands beside a longer key that
goes on with a character before the dot: the text of a leaf in the map then comes after the text of a leaf at the
longer key, although its place comes before (`Overtakes`). Apart from that the two orders are the same
(`joinDots_lt_iff`), so the texts ascend exactly when no leaf overtakes another (`flatten_ascending_iff`).
-/
namespace LayeredConfig

/-! ## Where two lists part -/

/-- One list comes before another when it ends where the other goes on, or when the two part at elements of which
    its own comes first. -/
theorem exists_parting {α : Type} [LinearOrder α] {as bs : List α} (h : as < bs) :
    (∃ b rest, bs = as ++ b :: rest) ∨
      ∃ front a as' b bs', as = front ++ a :: as' ∧ bs = front ++ b :: bs' ∧ a < b := by
  induction as generalizing bs with
  | nil =>
    cases bs with
    | nil => exact absurd h (lt_irrefl _)
    | cons b bs => exact .inl ⟨b, bs, rfl⟩
  | cons a as ih =>
    cases bs with
    | nil => exact absurd h (List.not_lt_nil _)
    | cons b bs =>
      rcases List.cons_lt_cons_iff.mp h with hab | ⟨rfl, hrest⟩
      · exact .inr ⟨[], a, as, b, bs, rfl, rfl, hab⟩
      · rcases ih hrest with ⟨c, rest, rfl⟩ | ⟨front, c, as', d, bs', rfl, rfl, hcd⟩
        · exact .inl ⟨c, rest, rfl⟩
        · exact .inr ⟨a :: front, c, as', d, bs', rfl, rfl, hcd⟩

/-! ## Dotted texts in order -/

/-- Whether the text of one place comes after that of another although the place itself comes before: it goes on
    beneath a key where the other has a longer key, one that goes on with a character before the dot. -/
def Overtakes (p q : List String) : Prop :=
  ∃ front key c tail inner other, p = front ++ key :: inner ∧ inner ≠ [] ∧
    q = front ++ (key ++ String.ofList (c :: tail)) :: other ∧ c < '.'

theorem exists_joinDots_append (front : List String) :
    ∃ text : String, ∀ rest, rest ≠ [] → joinDots (front ++ rest) = text ++ joinDots rest := by
  by_cases hf : front = []
  · exact ⟨"", fun rest _ => by simp [hf]⟩
  · exact ⟨joinDots front ++ ".", fun rest hr => joinDots_append hf hr⟩

theorem exists_joinDots_cons (key : String) (rest : List String) :
    ∃ text : String, joinDots (key :: rest) = key ++ text := by
  by_cases hr : rest = []
  · exact ⟨"", by simp [hr]⟩
  · exact ⟨"." ++ joinDots rest, by rw [joinDots_cons key hr, String.append_assoc]⟩

theorem append_text_lt (front : String) {s t : String} (h : s < t) : front ++ s < front ++ t := by
  rw [String.lt_iff_toList_lt, String.toList_append, String.toList_append]
  exact List.append_left_lt (String.lt_iff_toList_lt.mp h)

/-- A key that goes on with one character and a key that goes on with another are in the order of the two. -/
theorem append_ofList_lt (key : String) {c d : Char} (h : c < d) (cs ds : List Char) :
    key ++ String.ofList (c :: cs) < key ++ String.ofList (d :: ds) := by
  apply append_text_lt
  rw [String.lt_iff_toList_lt, String.toList_ofList, String.toList_ofList]
  exact List.cons_lt_cons_iff.mpr (.inl h)

theorem Overtakes.lt {p q : List String} (h : Overtakes p q) : p < q := by
  obtain ⟨front, key, c, tail, inner, other, rfl, _, rfl, _⟩ := h
  apply append_cons_lt
  have hlonger : key ++ "" < key ++ String.ofList (c :: tail) := by
    apply append_text_lt
    rw [String.lt_iff_toList_lt, String.toList_empty, String.toList_ofList]
    exact List.nil_lt_cons c tail
  simpa using hlonger

theorem ofList_append (cs : List Char) (s : String) : String.ofList cs ++ s = String.ofList (cs ++ s.toList) := by
  apply String.toList_inj.mp
  simp

theorem dot_append (s : String) : "." ++ s = String.ofList ('.' :: s.toList) := ofList_append ['.'] s

theorem Overtakes.joinDots_lt {p q : List String} (h : Overtakes p q) : joinDots q < joinDots p := by
  obtain ⟨front, key, c, tail, inner, other, rfl, hinner, rfl, hc⟩ := h
  obtain ⟨text, htext⟩ := exists_joinDots_append front
  obtain ⟨behind, hbehind⟩ := exists_joinDots_cons (key ++ String.ofList (c :: tail)) other
  rw [htext _ (List.cons_ne_nil _ _), htext _ (List.cons_ne_nil _ _), joinDots_cons key hinner, hbehind,
    String.append_assoc, String.append_assoc, dot_append, ofList_append, List.cons_append]
  exact append_text_lt text (append_ofList_lt key hc _ _)

/-- Of two places in order, the texts are in order unless the first place overtakes the second. -/
theorem joinDots_lt_iff {p q : List String} (hp : p ≠ []) (hq : ∀ key ∈ q, IsKey key) (h : p < q) :
    joinDots p < joinDots q ↔ ¬ Overtakes p q := by
  constructor
  · intro hlt hover
    exact lt_asymm hlt hover.joinDots_lt
  · intro hnot
    rcases exists_parting h with ⟨key, rest, rfl⟩ | ⟨front, k, ps, l, qs, rfl, rfl, hkl⟩
    · exact joinDots_lt_append hp (List.cons_ne_nil key rest)
    · obtain ⟨text, htext⟩ := exists_joinDots_append front
      obtain ⟨behind, hbehind⟩ := exists_joinDots_cons l qs
      rw [htext _ (List.cons_ne_nil _ _), htext _ (List.cons_ne_nil _ _), hbehind]
      apply append_text_lt
      rcases exists_parting (String.lt_iff_toList_lt.mp hkl) with ⟨c, tail, hl⟩ | ⟨cs, a, as, b, bs, hk, hl, hab⟩
      · have hlong : l = k ++ String.ofList (c :: tail) := by
          apply String.toList_inj.mp
          simp [hl]
        by_cases hps : ps = []
        · rw [hps, joinDots_singleton, String.lt_iff_toList_lt, String.toList_append, hl, List.append_assoc]
          have hlt : k.toList ++ [] < k.toList ++ (c :: tail ++ behind.toList) :=
            List.append_left_lt (List.nil_lt_cons c _)
          simpa using hlt
        · -- the longer key holds no dot, and does not go on with a character before it
          have hdot : c ≠ '.' := by
            intro hc
            have hkey := (hq l (by simp)).2
            rw [hl, hc] at hkey
            simp at hkey
          have hbefore : ¬ c < '.' := fun hc =>
            hnot ⟨front, k, c, tail, ps, qs, rfl, hps, by rw [hlong], hc⟩
          have hafter : '.' < c := lt_of_le_of_ne (not_lt.mp hbefore) hdot.symm
          rw [joinDots_cons k hps, hlong, String.append_assoc, String.append_assoc, dot_append, ofList_append,
            List.cons_append]
          exact append_ofList_lt k hafter _ _
      · obtain ⟨before, hbefore⟩ := exists_joinDots_cons k ps
        rw [hbefore, String.lt_iff_toList_lt, String.toList_append, String.toList_append, hk, hl,
          List.append_assoc, List.append_assoc]
        exact append_cons_lt cs hab _ _

/-! ## The entries of a tree in order -/

namespace Tree

/-- Whether a leaf of a tree overtakes another: it stands in a map beside a longer key, at or beneath which the
    other stands, and the longer key goes on with a character before the dot. -/
def Overtaken (t : Tree) : Prop :=
  ∃ p q v w, t.find? p = some v ∧ v.isLeaf ∧ t.find? q = some w ∧ w.isLeaf ∧ Overtakes p q

/-- The paths that a tree lists ascend when they are compared key by key. -/
theorem flatten_keys_ascending {t : Tree} (h : t.Frozen) :
    (t.flatten.map fun e => dottedPieces e.1).Pairwise (· < ·) := by
  have hplaces : t.flatten.map (fun e => dottedPieces e.1) = t.leaves.map (·.1) := by
    rw [flatten, List.map_map]
    apply List.map_congr_left
    intro l hl
    obtain ⟨hne, hkeys⟩ := place_of_mem_leaves h hl
    exact dottedPieces_place hne hkeys
  rw [hplaces]
  exact leaves_ascending h

/-- The paths that a tree lists ascend exactly when none of its leaves overtakes another. -/
theorem flatten_ascending_iff {t : Tree} (h : t.Frozen) :
    (t.flatten.map (·.1)).Pairwise (· < ·) ↔ ¬ t.Overtaken := by
  have hplaces := leaves_ascending h
  rw [flatten_paths, List.pairwise_map]
  constructor
  · intro htexts hover
    obtain ⟨p, q, v, w, hv, hvl, hw, hwl, hpq⟩ := hover
    have hp : p ∈ t.leaves.map (·.1) := List.mem_map.mpr ⟨(p, v), (mem_leaves_iff h).mpr ⟨hv, hvl⟩, rfl⟩
    have hq : q ∈ t.leaves.map (·.1) := List.mem_map.mpr ⟨(q, w), (mem_leaves_iff h).mpr ⟨hw, hwl⟩, rfl⟩
    -- both orders are those of the list, so any two places are in the same order by both
    let both (a b : List String) : Prop :=
      (a < b ∧ joinDots a < joinDots b) ∨ (b < a ∧ joinDots b < joinDots a)
    have : Std.Symm both := ⟨fun a b hab => hab.symm⟩
    have hboth : (t.leaves.map (·.1)).Pairwise both := (hplaces.and htexts).imp .inl
    rcases hboth.forall hp hq (ne_of_lt hpq.lt) with ⟨_, hlt⟩ | ⟨hlt, _⟩
    · exact lt_asymm hlt hpq.joinDots_lt
    · exact lt_asymm hlt hpq.lt
  · intro hnot
    refine hplaces.imp_of_mem ?_
    intro p q hp hq hpq
    obtain ⟨⟨_, v⟩, hl, rfl⟩ := List.mem_map.mp hp
    obtain ⟨⟨_, w⟩, hm, rfl⟩ := List.mem_map.mp hq
    obtain ⟨hv, hvl⟩ := (mem_leaves_iff h).mp hl
    obtain ⟨hw, hwl⟩ := (mem_leaves_iff h).mp hm
    refine (joinDots_lt_iff (place_of_mem_leaves h hl).1 (place_of_mem_leaves h hm).2 hpq).mpr ?_
    exact fun hover => hnot ⟨_, _, v, w, hv, hvl, hw, hwl, hover⟩

end Tree
end LayeredConfig
