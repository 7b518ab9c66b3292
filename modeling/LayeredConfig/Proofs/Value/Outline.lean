import LayeredConfig.Proofs.Path
import LayeredConfig.Proofs.Value.Freeze
import Mathlib.Algebra.Order.Group.Multiset
/-!
# Outlines of raw values

The outline of a raw value is what its maps and keys come to: which leaves it gives, each with its place and as often
as it is given, and at which places it gives maps. A dotted key counts as the keys between its dots. Outlines are
added, and can be moved beneath a place.

Nesting the dotted keys of a raw map changes how it is written and not its outline (`RawMap.outline_nestDotted`), and
combining two values adds their outlines (`outline_combine`). Therefore nothing is lost, and nothing is given twice
that was not given twice before.
-/
namespace LayeredConfig

/-! ## What a key stands for -/

namespace Key

/-- The keys that a key of a raw map stands for: the pieces of a text between its dots, and of two keys that are the
    same key the same. -/
def parts : Key → List Key
  | text s => (dottedPieces s).map text
  | int n => [int n]
  | bool b => [int (if b then 1 else 0)]
  | null => [null]

theorem map_text_inj {p q : List String} : p.map text = q.map text ↔ p = q :=
  (List.map_injective_iff.mpr fun _ _ => Key.text.inj).eq_iff

theorem parts_ne_nil (k : Key) : k.parts ≠ [] := by
  cases k <;> simp [parts, dottedPieces_ne_nil]

theorem parts_eq_of_same {k l : Key} (h : k.same l) : k.parts = l.parts := by
  cases k <;> cases l <;> simp_all [same, parts, number?]

/-- A key that is cut at its first dot stands for what is before the dot and for all that the rest stands for. -/
theorem parts_of_split? {k : Key} {head rest : String} (h : k.split? = some (head, rest)) :
    k.parts = text head :: (text rest).parts := by
  cases k with
  | text s =>
    rw [split?] at h
    split at h
    · cases h
    · rename_i c behind hdrop
      cases h
      have hc : c = '.' := by
        have hnot := List.head?_dropWhile_not (fun d => decide (d ≠ '.')) s.toList
        rw [hdrop] at hnot
        simpa using hnot
      rw [hc] at hdrop
      have hfront : '.' ∉ s.toList.takeWhile (fun d => decide (d ≠ '.')) := by
        intro hdot
        simpa using List.mem_takeWhile_imp hdot
      have hcut : Text.splitAt '.' s.toList =
          s.toList.takeWhile (fun d => decide (d ≠ '.')) :: Text.splitAt '.' behind := by
        rw [← List.singleton_append, ← Text.splitAt_of_notMem hfront, ← Text.splitAt_append, ← hdrop,
          List.takeWhile_append_dropWhile]
      rw [parts, parts, dottedPieces, hcut, dottedPieces, String.toList_ofList]
      rfl
  | _ => cases h

theorem parts_of_undotted {s : String} (h : (text s).split? = none) : (text s).parts = [text s] := by
  have hdot : '.' ∉ s.toList := split?_text_eq_none_iff.mp h
  have hpieces := dottedPieces_joinDots (List.cons_ne_nil s []) (by simpa using hdot)
  rw [joinDots, String.intercalate_singleton] at hpieces
  rw [parts, hpieces, List.map_singleton]

end Key

/-! ## Outlines -/

/-- What raw values give: leaves with their places, each as often as it is given, and the places of maps. -/
@[ext]
structure Outline where
  leaves : Multiset (List Key × Raw)
  maps : Set (List Key)

namespace Outline

/-- The outline of a map without entries. -/
def empty : Outline := ⟨0, {[]}⟩

def leaf (v : Raw) : Outline := ⟨{([], v)}, ∅⟩

instance : Add Outline := ⟨fun a b => ⟨a.leaves + b.leaves, a.maps ∪ b.maps⟩⟩

@[simp] theorem add_leaves (a b : Outline) : (a + b).leaves = a.leaves + b.leaves := rfl

@[simp] theorem add_maps (a b : Outline) : (a + b).maps = a.maps ∪ b.maps := rfl

instance : AddCommSemigroup Outline where
  add_assoc a b c := by
    ext1
    · exact add_assoc a.leaves b.leaves c.leaves
    · exact Set.union_assoc a.maps b.maps c.maps
  add_comm a b := by
    ext1
    · exact add_comm a.leaves b.leaves
    · exact Set.union_comm a.maps b.maps

/-- An outline moved beneath a place: there are maps above its leaves and maps. -/
def under (keys : List Key) (a : Outline) : Outline :=
  ⟨a.leaves.map fun l => (keys ++ l.1, l.2),
    {place | (place <+: keys ∧ place ≠ keys) ∨ ∃ rest ∈ a.maps, place = keys ++ rest}⟩

theorem mem_leaves_under {keys : List Key} {a : Outline} {place : List Key} {v : Raw} :
    (place, v) ∈ (a.under keys).leaves ↔ ∃ rest, place = keys ++ rest ∧ (rest, v) ∈ a.leaves := by
  rw [under, Multiset.mem_map]
  constructor
  · intro hl
    obtain ⟨⟨rest, w⟩, hl, heq⟩ := hl
    cases heq
    exact ⟨rest, rfl, hl⟩
  · intro hl
    obtain ⟨rest, rfl, hl⟩ := hl
    exact ⟨(rest, v), hl, rfl⟩

theorem mem_maps_under {keys : List Key} {a : Outline} {place : List Key} :
    place ∈ (a.under keys).maps ↔
      (place <+: keys ∧ place ≠ keys) ∨ ∃ rest ∈ a.maps, place = keys ++ rest := Iff.rfl

theorem under_add (keys : List Key) (a b : Outline) : (a + b).under keys = a.under keys + b.under keys := by
  ext1
  · exact Multiset.map_add _ _ _
  · ext place
    simp only [add_maps, Set.mem_union, mem_maps_under, or_and_right, exists_or]
    exact or_or_distrib_left

theorem under_under (front keys : List Key) (a : Outline) : (a.under keys).under front = a.under (front ++ keys) := by
  ext1
  · simp only [under, Multiset.map_map, Function.comp_def, List.append_assoc]
  · ext place
    rw [mem_maps_under, mem_maps_under]
    constructor
    · intro h
      rcases h with ⟨hpre, hne⟩ | ⟨rest, ⟨hpre, hne⟩ | ⟨rest, hrest, rfl⟩, rfl⟩
      · refine .inl ⟨hpre.trans (List.prefix_append front keys), ?_⟩
        rintro rfl
        exact hne (List.append_right_eq_self.mpr (by simpa using hpre.length_le))
      · exact .inl ⟨(List.prefix_append_right_inj front).mpr hpre, fun heq => hne (List.append_cancel_left heq)⟩
      · exact .inr ⟨rest, hrest, (List.append_assoc front keys rest).symm⟩
    · intro h
      rcases h with ⟨hpre, hne⟩ | ⟨rest, hrest, rfl⟩
      · by_cases hfront : place <+: front ∧ place ≠ front
        · exact .inl hfront
        · -- what is not above the first place is at it or beneath it
          have hge : front <+: place := by
            rcases List.prefix_or_prefix_of_prefix hpre (List.prefix_append front keys) with hle | hge
            · have heq : place = front := not_not.mp fun hne => hfront ⟨hle, hne⟩
              exact heq ▸ List.prefix_rfl
            · exact hge
          obtain ⟨rest, rfl⟩ := hge
          refine .inr ⟨rest, .inl ⟨(List.prefix_append_right_inj front).mp hpre, ?_⟩, rfl⟩
          rintro rfl
          exact hne rfl
      · exact .inr ⟨keys ++ rest, .inr ⟨rest, hrest, rfl⟩, List.append_assoc front keys rest⟩

theorem nil_mem_maps_under {keys : List Key} (h : keys ≠ []) (a : Outline) : [] ∈ (a.under keys).maps :=
  .inl ⟨List.nil_prefix, h.symm⟩

theorem add_empty {a : Outline} (h : [] ∈ a.maps) : a + empty = a := by
  ext1
  · exact add_zero a.leaves
  · exact Set.union_eq_self_of_subset_right (Set.singleton_subset_iff.mpr h)

end Outline

mutual

def Raw.outline : Raw → Outline
  | .map entries => RawMap.outline entries
  | v => Outline.leaf v

def RawMap.outline : RawMap → Outline
  | [] => Outline.empty
  | (k, v) :: rest => v.outline.under k.parts + RawMap.outline rest

end

def Raw.isLeaf : Raw → Bool
  | .map _ => false
  | _ => true

@[simp] theorem Raw.outline_map (m : RawMap) : (Raw.map m).outline = m.outline := by rw [Raw.outline]

theorem Raw.outline_of_isLeaf {v : Raw} (h : v.isLeaf) : v.outline = Outline.leaf v := by
  cases v with
  | map m => cases h
  | _ => rw [Raw.outline]; nofun

theorem Raw.eq_map_of_not_isLeaf {v : Raw} (h : ¬ v.isLeaf) : ∃ m, v = .map m := by
  cases v with
  | map m => exact ⟨m, rfl⟩
  | _ => exact absurd rfl h

namespace RawMap

@[simp] theorem outline_nil : outline [] = Outline.empty := by rw [outline]

@[simp] theorem outline_cons (k : Key) (v : Raw) (rest : RawMap) :
    outline ((k, v) :: rest) = v.outline.under k.parts + outline rest := by rw [outline]

theorem nil_mem_maps (m : RawMap) : [] ∈ m.outline.maps := by
  cases m with
  | nil =>
    rw [outline_nil]
    exact Set.mem_singleton []
  | cons e rest =>
    rw [outline_cons]
    exact .inl (Outline.nil_mem_maps_under e.1.parts_ne_nil _)

theorem outline_perm {m n : RawMap} (h : m.Perm n) : m.outline = n.outline := by
  induction h with
  | nil => rfl
  | cons e _ ih => rw [outline_cons, outline_cons, ih]
  | swap d e rest => rw [outline_cons, outline_cons, outline_cons, outline_cons, add_left_comm]
  | trans _ _ ih1 ih2 => rw [ih1, ih2]

/-! ## Writing to a map -/

theorem outline_insert_of_none {m : RawMap} {k : Key} (h : m.get? k = none) (v : Raw) :
    (m.insert k v).outline = v.outline.under k.parts + m.outline := by
  induction m with
  | nil => rw [insert, outline_cons]
  | cons e rest ih =>
    obtain ⟨l, w⟩ := e
    rw [get?] at h
    split at h
    · cases h
    · rename_i hne
      rw [insert, if_neg hne, outline_cons, outline_cons, ih h, add_left_comm]

theorem exists_outline_insert {m : RawMap} {k : Key} {w : Raw} (h : m.get? k = some w) :
    ∃ others, m.outline = w.outline.under k.parts + others ∧
      ∀ v, (m.insert k v).outline = v.outline.under k.parts + others := by
  induction m with
  | nil => cases h
  | cons e rest ih =>
    obtain ⟨l, u⟩ := e
    rw [get?] at h
    split at h
    · rename_i hsame
      cases h
      refine ⟨outline rest, ?_, ?_⟩
      · rw [outline_cons, Key.parts_eq_of_same hsame]
      · intro v
        rw [insert, if_pos hsame, outline_cons, Key.parts_eq_of_same hsame]
    · rename_i hne
      obtain ⟨others, hrest, hinsert⟩ := ih h
      refine ⟨u.outline.under l.parts + others, ?_, ?_⟩
      · rw [outline_cons, hrest, add_left_comm]
      · intro v
        rw [insert, if_neg hne, outline_cons, hinsert, add_left_comm]

end RawMap

/-! ## Nesting -/

mutual

theorem outline_combine {label : Key} {a c : Raw} : (b : Raw) → combine label a b = .ok c →
    c.outline = a.outline + b.outline
  | .map entries, h => by
    rw [combine.eq_def] at h
    simp only at h
    split at h
    · obtain ⟨r, hr, rfl⟩ := Outcome.map_eq_ok_iff.mp h
      rw [Raw.outline_map, Raw.outline_map, Raw.outline_map]
      exact outline_combineEntries entries hr
    · cases h
  | .null, h => by simp [combine] at h
  | .unset, h => by simp [combine] at h
  | .scalar _, h => by simp [combine] at h
  | .list _, h => by simp [combine] at h
  | .option _, h => by simp [combine] at h
  | .foreign _, h => by simp [combine] at h

theorem outline_combineEntries {label : Key} {out r : RawMap} : (entries : RawMap) →
    combineEntries label out entries = .ok r → r.outline = out.outline + RawMap.outline entries
  | [], h => by
    rw [combineEntries] at h
    cases h
    rw [RawMap.outline_nil, Outline.add_empty (RawMap.nil_mem_maps _)]
  | (k, v) :: rest, h => by
    rw [combineEntries] at h
    rw [RawMap.outline_cons]
    split at h
    · rename_i hnone
      rw [outline_combineEntries rest h, RawMap.outline_insert_of_none hnone, add_left_comm, add_assoc]
    · rename_i w hw
      split at h
      · cases h
      · rename_i u hu
        obtain ⟨others, hout, hinsert⟩ := RawMap.exists_outline_insert hw
        rw [outline_combineEntries rest h, hinsert, outline_combine v hu, hout, Outline.under_add]
        simp only [add_assoc, add_left_comm]

end

namespace RawMap

/-- Cutting a key and moving the rest into a map of its own does not change what is given. -/
theorem outline_nestEntry (k : Key) (v : Raw) :
    (nestEntry k v).2.outline.under (nestEntry k v).1.parts = v.outline.under k.parts := by
  rw [nestEntry]
  split
  · rename_i head rest h
    have hundotted := Key.parts_of_undotted (Key.split?_head h)
    rw [Raw.outline_map, outline_cons, outline_nil,
      Outline.add_empty (Outline.nil_mem_maps_under (Key.parts_ne_nil _) _), Outline.under_under, hundotted,
      Key.parts_of_split? h, List.singleton_append]
  · rfl

theorem outline_addNested {label : Key} {out r : RawMap} {k : Key} {v : Raw}
    (h : addNested label out (k, v) = .ok r) : r.outline = v.outline.under k.parts + out.outline := by
  rw [← outline_nestEntry k v]
  simp only [addNested] at h
  split at h
  · rename_i hnone
    cases h
    exact outline_insert_of_none hnone _
  · rename_i w hw
    obtain ⟨u, hu, rfl⟩ := Outcome.map_eq_ok_iff.mp h
    obtain ⟨others, hout, hinsert⟩ := exists_outline_insert hw
    rw [hinsert, outline_combine _ hu, hout, Outline.under_add]
    simp only [add_assoc, add_left_comm]

theorem outline_addAllNested {label : Key} {r : RawMap} (entries : RawMap) {out : RawMap}
    (h : addAllNested label out entries = .ok r) : r.outline = out.outline + outline entries := by
  induction entries generalizing out with
  | nil =>
    rw [addAllNested] at h
    cases h
    rw [outline_nil, Outline.add_empty (nil_mem_maps _)]
  | cons e rest ih =>
    rw [addAllNested] at h
    split at h
    · cases h
    · rename_i out' hadd
      rw [ih h, outline_addNested hadd, outline_cons, add_left_comm, add_assoc]

/-- Nesting the dotted keys of a map does not change what it gives. -/
theorem outline_nestDotted {label : Key} {m r : RawMap} (h : nestDotted label m = .ok r) :
    r.outline = m.outline := by
  rw [nestDotted] at h
  split at h
  · rw [outline_addAllNested _ h, outline_nil, add_comm, Outline.add_empty (nil_mem_maps _)]
    exact outline_perm (sortOrdered_perm m)
  · cases h
    rfl

end RawMap
end LayeredConfig
