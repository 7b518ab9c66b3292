import LayeredConfig.Profile.Basic
import LayeredConfig.Proofs.Ordered
import LayeredConfig.Proofs.Tree.Leaves
import LayeredConfig.Proofs.Value.Alike
/-!
# Equal profiles

Profiles are equal when they list the same entries. A map without leaves is in no entry, and so equality does not see
it, but a read of the option does. Apart from that equal profiles cannot be told apart by reading: an option reads
alike in both, as every kind, exactly unless one of them holds a map without leaves there and the other does not
(`equal_profiles_read_alike_iff`).
-/
namespace LayeredConfig

namespace Tree

variable {t u : Tree} {place : List String}

/-- Whether a leaf stands at a place or beneath it. -/
def HasLeafAt (t : Tree) (place : List String) : Prop := ∃ l ∈ t.leaves, place <+: l.1

/-- Whether a map stands at a place, and no leaf in it. -/
def BareAt (t : Tree) (place : List String) : Prop :=
  ∃ below : Tree, t.find? place = some (.map below) ∧ below.leaves = []

theorem Frozen.mem_leaves_beneath_iff (h : t.Frozen) {below : Tree} (hbelow : t.find? place = some (.map below))
    {rest : List String} {x : Value} : (rest, x) ∈ below.leaves ↔ (place ++ rest, x) ∈ t.leaves := by
  have hfrozen : below.Frozen := frozen_map.mp (h.of_find? hbelow).1
  rw [mem_leaves_iff hfrozen, mem_leaves_iff h, find?_append, hbelow, Option.bind_some, Value.find?_map]

theorem Frozen.not_bareAt (h : t.Frozen) (hl : t.HasLeafAt place) : ¬ t.BareAt place := by
  intro hbare
  obtain ⟨below, hbelow, hnone⟩ := hbare
  obtain ⟨⟨_, x⟩, hl, rest, rfl⟩ := hl
  have hmem := (h.mem_leaves_beneath_iff hbelow).mpr hl
  rw [hnone] at hmem
  cases hmem

theorem not_bareAt_of_none (h : t.find? place = none) : ¬ t.BareAt place := by
  intro hbare
  obtain ⟨below, hbelow, _⟩ := hbare
  rw [h] at hbelow
  cases hbelow

/-- Where no leaf stands there is nothing, or a map without leaves. -/
theorem Frozen.eq_none_or_bareAt (h : t.Frozen) (hl : ¬ t.HasLeafAt place) : t.find? place = none ∨ t.BareAt place := by
  cases hfound : t.find? place with
  | none => exact .inl rfl
  | some v =>
    right
    by_cases hv : v.isLeaf
    · exact absurd ⟨(place, v), (mem_leaves_iff h).mpr ⟨hfound, hv⟩, List.prefix_rfl⟩ hl
    · obtain ⟨below, rfl⟩ := Value.eq_map_of_not_isLeaf hv
      refine ⟨below, hfound, List.eq_nil_iff_forall_not_mem.mpr fun l hmem => hl ?_⟩
      exact ⟨_, (h.mem_leaves_beneath_iff hfound).mp hmem, List.prefix_append place l.1⟩

/-! ## Trees that list the same -/

theorem forall₂_leaves (ht : t.Frozen) (hu : u.Frozen) (h : Value.sameEntries t.flatten u.flatten = true) :
    List.Forall₂ (SameEntry Value.same) t.leaves u.leaves := by
  have hlisted := Value.sameEntries_iff.mp h
  rw [flatten, flatten, List.forall₂_map_left_iff, List.forall₂_map_right_iff] at hlisted
  have hleft := ((List.forall₂_and_left _ _).mpr ⟨fun l hl => place_of_mem_leaves ht hl, hlisted⟩).flip
  refine ((List.forall₂_and_left _ _).mpr ⟨fun l hl => place_of_mem_leaves hu hl, hleft⟩).flip.imp ?_
  intro a b hab
  obtain ⟨⟨hb, hbkeys⟩, ⟨ha, hakeys⟩, hpath, hsame⟩ := hab
  dsimp only at hpath
  refine ⟨?_, hsame⟩
  rw [← dottedPieces_place ha hakeys, hpath, dottedPieces_place hb hbkeys]

theorem forall₂_leaves_beneath (ht : t.Frozen) (hu : u.Frozen)
    (h : List.Forall₂ (SameEntry Value.same) t.leaves u.leaves) {below below' : Tree}
    (hbelow : t.find? place = some (.map below)) (hbelow' : u.find? place = some (.map below')) :
    List.Forall₂ (SameEntry Value.same) below.leaves below'.leaves := by
  have hfrozen : below.Frozen := frozen_map.mp (ht.of_find? hbelow).1
  have hfrozen' : below'.Frozen := frozen_map.mp (hu.of_find? hbelow').1
  apply forall₂_of_ascending (fun _ _ hentry => hentry.1) (List.pairwise_map.mp (leaves_ascending hfrozen))
    (List.pairwise_map.mp (leaves_ascending hfrozen'))
  · intro a ha
    obtain ⟨⟨other, y⟩, hb, hother, hsame⟩ := exists_of_mem_left h ((ht.mem_leaves_beneath_iff hbelow).mp ha)
    obtain rfl : place ++ a.1 = other := hother
    exact ⟨(a.1, y), (hu.mem_leaves_beneath_iff hbelow').mpr hb, rfl, hsame⟩
  · intro b hb
    obtain ⟨⟨other, x⟩, ha, hother, hsame⟩ := exists_of_mem_right h ((hu.mem_leaves_beneath_iff hbelow').mp hb)
    obtain rfl : other = place ++ b.1 := hother
    exact ⟨(b.1, x), (ht.mem_leaves_beneath_iff hbelow).mpr ha, rfl, hsame⟩

theorem hasLeafAt_iff (h : List.Forall₂ (SameEntry Value.same) t.leaves u.leaves) :
    t.HasLeafAt place ↔ u.HasLeafAt place := by
  constructor
  · intro hl
    obtain ⟨l, hl, hpre⟩ := hl
    obtain ⟨m, hm, heq, _⟩ := exists_of_mem_left h hl
    exact ⟨m, hm, heq ▸ hpre⟩
  · intro hl
    obtain ⟨m, hm, hpre⟩ := hl
    obtain ⟨l, hl, heq, _⟩ := exists_of_mem_right h hm
    exact ⟨l, hl, heq.symm ▸ hpre⟩

theorem alike_of_hasLeafAt (ht : t.Frozen) (hu : u.Frozen)
    (h : List.Forall₂ (SameEntry Value.same) t.leaves u.leaves) (hl : t.HasLeafAt place) :
    ∃ v w, t.find? place = some v ∧ u.find? place = some w ∧ v.Alike w := by
  obtain ⟨⟨_, x⟩, hx, rest, rfl⟩ := hl
  obtain ⟨⟨other, y⟩, hy, hother, hsame⟩ := exists_of_mem_left h hx
  obtain rfl : place ++ rest = other := hother
  obtain ⟨hxfound, hxleaf⟩ := (mem_leaves_iff ht).mp hx
  obtain ⟨hyfound, _⟩ := (mem_leaves_iff hu).mp hy
  by_cases hr : rest = []
  · rw [hr, List.append_nil] at hxfound hyfound
    exact ⟨x, y, hxfound, hyfound, Value.alike_of_same hxleaf hsame⟩
  · obtain ⟨below, hbelow⟩ := exists_map_above hr hxfound
    obtain ⟨below', hbelow'⟩ := exists_map_above hr hyfound
    exact ⟨_, _, hbelow, hbelow', forall₂_leaves_beneath ht hu h hbelow hbelow'⟩

end Tree

/-! ## Reading equal profiles -/

namespace Profile

variable {p q : Profile} {path : Path}

theorem read_of_undefined (h : p.tree.lookup? path.segments = none) :
    p.isDefined path = false ∧ ∀ kind, p.get kind path = .error (.notDefined path.text p.name) := by
  refine ⟨by rw [isDefined, h]; rfl, fun kind => ?_⟩
  rw [get, value, h]
  rfl

theorem read_of_defined {v : Value} (h : p.tree.lookup? path.segments = some v) :
    p.isDefined path = true ∧ ∀ kind, p.get kind path = v.read kind path.text := by
  refine ⟨by rw [isDefined, h]; rfl, fun kind => ?_⟩
  rw [get, value, h]
  rfl

/-- Whether an option is read alike in two profiles: it is defined in both or in none, and read as any kind it comes
    out the same in both, or fails in both for a reason of one class. -/
def ReadAlike (p q : Profile) (path : Path) : Prop :=
  p.isDefined path = q.isDefined path ∧ ∀ kind, Outcome.Alike Reading.Same (p.get kind path) (q.get kind path)

theorem readAlike_of_undefined (hp : p.tree.lookup? path.segments = none) (hq : q.tree.lookup? path.segments = none) :
    p.ReadAlike q path := by
  obtain ⟨hpdefined, hpget⟩ := read_of_undefined hp
  obtain ⟨hqdefined, hqget⟩ := read_of_undefined hq
  refine ⟨hpdefined.trans hqdefined.symm, fun kind => ?_⟩
  rw [hpget, hqget]
  exact .error .notDefined

theorem readAlike_of_alike {v w : Value} (hv : p.tree.find? path.segments = some v)
    (hw : q.tree.find? path.segments = some w) (h : v.Alike w) : p.ReadAlike q path := by
  by_cases hunset : v = .unset
  · obtain rfl : w = .unset := by
      rw [hunset] at h
      cases w with
      | unset => rfl
      | _ => simp [Value.Alike, Value.same] at h
    rw [hunset] at hv
    exact readAlike_of_undefined (by rw [Tree.lookup?, hv]) (by rw [Tree.lookup?, hw])
  · have hne : w ≠ .unset := by
      rintro rfl
      cases v with
      | unset => exact hunset rfl
      | _ => simp [Value.Alike, Value.same] at h
    obtain ⟨hpdefined, hpget⟩ := read_of_defined (Tree.lookup?_of_find? hv hunset)
    obtain ⟨hqdefined, hqget⟩ := read_of_defined (Tree.lookup?_of_find? hw hne)
    refine ⟨hpdefined.trans hqdefined.symm, fun kind => ?_⟩
    rw [hpget, hqget]
    exact h.read kind path.text

theorem readAlike_of_bareAt (hp : p.tree.BareAt path.segments) (hq : q.tree.BareAt path.segments) :
    p.ReadAlike q path := by
  obtain ⟨below, hbelow, hnone⟩ := hp
  obtain ⟨below', hbelow', hnone'⟩ := hq
  apply readAlike_of_alike hbelow hbelow'
  rw [Value.Alike, hnone, hnone']
  exact .nil

/-- An option that stands for a map without leaves in one profile, and for nothing in the other, is defined in the one
    only. -/
theorem isDefined_ne_of_bareAt (hp : p.tree.BareAt path.segments) (hq : q.tree.find? path.segments = none) :
    p.isDefined path ≠ q.isDefined path := by
  obtain ⟨below, hbelow, _⟩ := hp
  have hdefined : p.isDefined path = true := (read_of_defined (Tree.lookup?_of_find? hbelow (by simp))).1
  have hnot : q.isDefined path = false := (read_of_undefined (by rw [Tree.lookup?, hq])).1
  rw [hdefined, hnot]
  decide

end Profile

/-- **Equal profiles read alike but for maps without leaves.** Let two profiles with frozen trees be equal, so that no
    entry of theirs is a value that is no number. At every path, the option is read alike in both (it is defined in
    both or in none, and as every kind it comes out the same in both or fails in both for a reason of one class)
    exactly unless one profile holds a map without leaves there and the other does not. -/
theorem equal_profiles_read_alike_iff {p q : Profile} (hp : p.tree.Frozen) (hq : q.tree.Frozen)
    (hsame : p.same q = true) (path : Path) :
    p.ReadAlike q path ↔ (p.tree.BareAt path.segments ↔ q.tree.BareAt path.segments) := by
  have hleaves := Tree.forall₂_leaves hp hq hsame
  by_cases hl : p.tree.HasLeafAt path.segments
  · have hother := (Tree.hasLeafAt_iff hleaves).mp hl
    obtain ⟨v, w, hv, hw, halike⟩ := Tree.alike_of_hasLeafAt hp hq hleaves hl
    exact iff_of_true (Profile.readAlike_of_alike hv hw halike) (iff_of_false (hp.not_bareAt hl) (hq.not_bareAt hother))
  · have hother := fun hl' => hl ((Tree.hasLeafAt_iff hleaves).mpr hl')
    -- both hold nothing there, both a map without leaves, or one the one and the other the other
    rcases hp.eq_none_or_bareAt hl with hpnone | hpbare
    · have hpnot := Tree.not_bareAt_of_none hpnone
      rcases hq.eq_none_or_bareAt hother with hqnone | hqbare
      · refine iff_of_true (Profile.readAlike_of_undefined ?_ ?_) (iff_of_false hpnot (Tree.not_bareAt_of_none hqnone))
        · rw [Tree.lookup?, hpnone]
        · rw [Tree.lookup?, hqnone]
      · refine iff_of_false (fun hread => ?_) fun hbare => hpnot (hbare.mpr hqbare)
        exact Profile.isDefined_ne_of_bareAt hqbare hpnone hread.1.symm
    · rcases hq.eq_none_or_bareAt hother with hqnone | hqbare
      · refine iff_of_false (fun hread => ?_) fun hbare => Tree.not_bareAt_of_none hqnone (hbare.mp hpbare)
        exact Profile.isDefined_ne_of_bareAt hpbare hqnone hread.1
      · exact iff_of_true (Profile.readAlike_of_bareAt hpbare hqbare) (iff_of_true hpbare hqbare)

/-- A positive and a negative zero make equal profiles, an empty map beside one of them or not, and above them the
    option is read alike. -/
theorem zeros_read_alike :
    let p : Profile := ⟨"a", [("x", .map [("y", .scalar (.double (.zero false))), ("z", .map [])])]⟩
    let q : Profile := ⟨"b", [("x", .map [("y", .scalar (.double (.zero true)))])]⟩
    p.same q = true ∧ p.ReadAlike q ⟨["x"], by decide, by decide⟩ := by
  intro p q
  have hp : p.tree.Frozen := by decide
  have hq : q.tree.Frozen := by decide
  have hsame : p.same q = true := by decide
  refine ⟨hsame, (equal_profiles_read_alike_iff hp hq hsame _).mpr (iff_of_false ?_ ?_)⟩
  · exact hp.not_bareAt ⟨_, List.mem_cons_self, ["y"], rfl⟩
  · exact hq.not_bareAt ⟨_, List.mem_cons_self, ["y"], rfl⟩

/-- A profile that holds an empty map at a path is equal to the empty profile, in which the option is not defined. -/
theorem empty_map_tells_equal_profiles_apart :
    let p : Profile := ⟨defaultProfile, [("a", .map [])]⟩
    let q : Profile := ⟨defaultProfile, []⟩
    let path : Path := ⟨["a"], by decide, by decide⟩
    p.tree.Frozen ∧ q.tree.Frozen ∧ p.same q = true ∧ p.isDefined path = true ∧ q.isDefined path = false ∧
      p.get .stringMap path = .ok (.map []) ∧ q.get .stringMap path = .error (.notDefined "a" defaultProfile) := by
  exact ⟨by decide, by decide, rfl, rfl, rfl, rfl, rfl⟩

end LayeredConfig
