import LayeredConfig.Proofs.Ordered
import LayeredConfig.Proofs.Value.Alike
import LayeredConfig.Value.Fingerprint
import Mathlib.Data.List.Nodup
/-!
# Fingerprints are exact

Two values agree when they are of the same type and equal, at every place inside them: lists element by element, maps
key by key in whatever order (`Value.Agrees`). Fingerprints tell exactly this: those of frozen values are the same when
the values agree (`Value.fingerprint_same_iff`), and so no two values of different types ever have the same
fingerprint. Comparing frozen values directly, entry by entry, comes to the same (`Value.same_iff_agrees`).
-/
namespace LayeredConfig

/-- Whether two values are of the same type and equal, at every place inside them. The order of a list counts, that of
    a map does not. -/
inductive Value.Agrees : Value → Value → Prop
  | unset : Agrees .unset .unset
  | scalar {a b : Scalar} (h : a.same b = true) : Agrees (.scalar a) (.scalar b)
  | list {as bs : List Value} (length : as.length = bs.length)
      (items : ∀ (i : Nat) v w, as[i]? = some v → bs[i]? = some w → Agrees v w) : Agrees (.list as) (.list bs)
  | map {s t : List (String × Value)} (keys : ∀ key, (∃ v, (key, v) ∈ s) ↔ ∃ w, (key, w) ∈ t)
      (values : ∀ key v w, (key, v) ∈ s → (key, w) ∈ t → Agrees v w) : Agrees (.map s) (.map t)

def EntriesAgree (as bs : List (String × Value)) : Prop :=
  ∀ key, ((∃ v, (key, v) ∈ as) ↔ ∃ w, (key, w) ∈ bs) ∧ ∀ v w, (key, v) ∈ as → (key, w) ∈ bs → v.Agrees w

namespace Value

theorem agrees_list_iff {as bs : List Value} : (list as).Agrees (list bs) ↔ List.Forall₂ Agrees as bs := by
  rw [List.forall₂_iff_get]
  refine ⟨fun h => ?_, fun h => ?_⟩
  · cases h with
    | list length items =>
      refine ⟨length, fun i hi hi' => items i _ _ ?_ ?_⟩
      · simp [hi]
      · simp [hi']
  · obtain ⟨length, items⟩ := h
    refine .list length fun i v w hv hw => ?_
    obtain ⟨hi, rfl⟩ := List.getElem?_eq_some_iff.mp hv
    obtain ⟨hi', rfl⟩ := List.getElem?_eq_some_iff.mp hw
    exact items i hi hi'

theorem agrees_map_iff {s t : Tree} : (map s).Agrees (map t) ↔ EntriesAgree s t := by
  refine ⟨fun h => ?_, fun h => .map (fun key => (h key).1) fun key => (h key).2⟩
  cases h with
  | map keys values => exact fun key => ⟨keys key, values key⟩

theorem FrozenItems.of_mem {items : List Value} (h : FrozenItems items) {v : Value} (hv : v ∈ items) : v.Frozen := by
  induction items with
  | nil => cases hv
  | cons w rest ih =>
    rw [FrozenItems] at h
    rcases List.mem_cons.mp hv with rfl | hv
    · exact h.2.1
    · exact ih h.2.2 hv

end Value

/-! ## Scalars -/

theorem Scalar.same_iff_tagged {a b : Scalar} : a.same b = true ↔ a.typeName = b.typeName ∧ a.equal b = true := by
  cases a <;> cases b <;> simp [same, equal, typeName, whole?]
  rename_i b c
  cases b <;> cases c <;> decide

namespace Fingerprint

/-! ## Rows and sets -/

theorem sameParts_iff {as bs : List Fingerprint} :
    sameParts as bs = true ↔ List.Forall₂ (fun a b => a.same b = true) as bs := by
  induction as generalizing bs with
  | nil => cases bs <;> simp [sameParts]
  | cons a as ih => cases bs <;> simp [sameParts, ih]

theorem within_iff {as bs : List Fingerprint} : within as bs = true ↔ ∀ a ∈ as, ∃ b ∈ bs, a.same b = true := by
  induction as with
  | nil => simp [within]
  | cons a as ih => simp [within, ih]

theorem holds_iff {as : List Fingerprint} {b : Fingerprint} : holds as b = true ↔ ∃ a ∈ as, a.same b = true := by
  induction as with
  | nil => simp [holds]
  | cons a as ih => simp [holds, ih]

theorem same_set_iff {as bs : List Fingerprint} :
    (set as).same (set bs) = true ↔
      (∀ a ∈ as, ∃ b ∈ bs, a.same b = true) ∧ ∀ b ∈ bs, ∃ a ∈ as, a.same b = true := by
  simp [same, within_iff, holds_iff]

theorem same_row_iff {as bs : List Fingerprint} :
    (row as).same (row bs) = true ↔ List.Forall₂ (fun a b => a.same b = true) as bs := by
  rw [same, sameParts_iff]

theorem same_tagged_iff {s t : String} {a b : Fingerprint} :
    (row [single (.text s), a]).same (row [single (.text t), b]) = true ↔ s = t ∧ a.same b = true := by
  simp [same, sameParts, Scalar.equal]

end Fingerprint

/-! ## Fingerprints of values -/

theorem itemFingerprints_eq_map (items : List Value) : itemFingerprints items = items.map Value.fingerprint := by
  induction items with
  | nil => rfl
  | cons v rest ih => rw [itemFingerprints, ih, List.map_cons]

theorem entryFingerprints_eq_map (entries : List (String × Value)) :
    entryFingerprints entries = entries.map fun e => .row [.single (.text e.1), e.2.fingerprint] := by
  induction entries with
  | nil => rfl
  | cons e rest ih => rw [entryFingerprints, ih, List.map_cons]

namespace Value

/-- No value has the fingerprint of a single value, so none is taken for the name of a type. -/
theorem single_ne_fingerprint (s : Scalar) (v : Value) : (Fingerprint.single s).same v.fingerprint = false := by
  cases v <;> simp [fingerprint, Fingerprint.same]

theorem fingerprint_ne_single (v : Value) (s : Scalar) : v.fingerprint.same (Fingerprint.single s) = false := by
  cases v <;> simp [fingerprint, Fingerprint.same]

theorem tagged_ne_list (s : Scalar) (b : Fingerprint) (items : List Value) :
    (Fingerprint.row [.single s, b]).same (list items).fingerprint = false := by
  cases items <;> simp [fingerprint, itemFingerprints, Fingerprint.same, Fingerprint.sameParts, single_ne_fingerprint]

theorem list_ne_tagged (s : Scalar) (b : Fingerprint) (items : List Value) :
    (list items).fingerprint.same (Fingerprint.row [.single s, b]) = false := by
  cases items <;> simp [fingerprint, itemFingerprints, Fingerprint.same, Fingerprint.sameParts, fingerprint_ne_single]

end Value

/-! ## Keyed values -/

/-- Keyed values agree when each has its match in the other list, by any relation that tells whether values agree, as
    long as no key stands twice. -/
theorem entriesAgree_iff_matched (R : Value → Value → Prop) {as bs : List (String × Value)}
    (hb : (bs.map (·.1)).Nodup)
    (hR : ∀ a ∈ as, ∀ b ∈ bs, R a.2 b.2 ↔ a.2.Agrees b.2) :
    EntriesAgree as bs ↔
      (∀ a ∈ as, ∃ b ∈ bs, a.1 = b.1 ∧ R a.2 b.2) ∧ ∀ b ∈ bs, ∃ a ∈ as, a.1 = b.1 ∧ R a.2 b.2 := by
  refine ⟨fun h => ⟨fun a ha => ?_, fun b hb => ?_⟩, fun h key => ⟨⟨fun hv => ?_, fun hw => ?_⟩, fun v w hv hw => ?_⟩⟩
  · obtain ⟨w, hw⟩ := (h a.1).1.mp ⟨a.2, ha⟩
    exact ⟨(a.1, w), hw, rfl, (hR a ha (a.1, w) hw).mpr ((h a.1).2 a.2 w ha hw)⟩
  · obtain ⟨v, hv⟩ := (h b.1).1.mpr ⟨b.2, hb⟩
    exact ⟨(b.1, v), hv, rfl, (hR (b.1, v) hv b hb).mpr ((h b.1).2 v b.2 hv hb)⟩
  · obtain ⟨v, hv⟩ := hv
    obtain ⟨b, hb, rfl, _⟩ := h.1 (key, v) hv
    exact ⟨b.2, hb⟩
  · obtain ⟨w, hw⟩ := hw
    obtain ⟨a, ha, rfl, _⟩ := h.2 (key, w) hw
    exact ⟨a.2, ha⟩
  · obtain ⟨⟨other, w'⟩, hmem, hkey, hmatch⟩ := h.1 (key, v) hv
    obtain rfl : key = other := hkey
    -- the key stands once, so what it was matched with is what stands under it
    obtain rfl : w' = w := by
      have hsame := List.inj_on_of_nodup_map hb hmem hw rfl
      exact (Prod.mk.inj hsame).2
    exact (hR (key, v) hv (key, w') hmem).mp hmatch

theorem Fingerprint.same_ofEntries_iff {as bs : List (String × Value)} (hb : (bs.map (·.1)).Nodup)
    (h : ∀ a ∈ as, ∀ b ∈ bs, a.2.fingerprint.same b.2.fingerprint = true ↔ a.2.Agrees b.2) :
    (ofEntries as).same (ofEntries bs) = true ↔ EntriesAgree as bs := by
  rw [entriesAgree_iff_matched (fun v w => v.fingerprint.same w.fingerprint = true) hb h, ofEntries, ofEntries,
    same_set_iff, entryFingerprints_eq_map, entryFingerprints_eq_map]
  simp only [List.mem_map, exists_exists_and_eq_and, forall_exists_index, and_imp, forall_apply_eq_imp_iff₂, same_tagged_iff]

theorem Value.sameEntries_iff_agree {κ : Type} [LinearOrder κ] (order : String → κ) {as bs : List (String × Value)}
    (ha : (as.map fun e => order e.1).Pairwise (· < ·)) (hb : (bs.map fun e => order e.1).Pairwise (· < ·))
    (h : ∀ a ∈ as, ∀ b ∈ bs, a.2.same b.2 = true ↔ a.2.Agrees b.2) :
    sameEntries as bs = true ↔ EntriesAgree as bs := by
  have hnodup : (bs.map (·.1)).Nodup :=
    List.pairwise_map.mpr ((List.pairwise_map.mp hb).imp fun hlt heq => hlt.ne (congrArg order heq))
  rw [entriesAgree_iff_matched (fun v w => v.same w = true) hnodup h, sameEntries_iff]
  refine ⟨fun hall => ⟨fun a => exists_of_mem_left hall, fun b => exists_of_mem_right hall⟩, fun hall => ?_⟩
  exact forall₂_of_ascending (fun a b hab => congrArg order hab.1) (List.pairwise_map.mp ha) (List.pairwise_map.mp hb)
    hall.1 hall.2

theorem Tree.Frozen.keys_ascending {t : Tree} (h : t.Frozen) : (t.map fun e => e.1).Pairwise (· < ·) :=
  List.pairwise_map.mpr (frozen_iff.mp h).1

theorem Tree.Frozen.keys_nodup {t : Tree} (h : t.Frozen) : (t.map (·.1)).Nodup := h.keys_ascending.imp ne_of_lt

/-! ## Values of any shape -/

namespace Value

theorem fingerprint_unset_same_iff (w : Value) : unset.fingerprint.same w.fingerprint = true ↔ unset.Agrees w := by
  cases w with
  | unset => exact iff_of_true (by simp [fingerprint, Fingerprint.same, Fingerprint.sameParts, Scalar.equal]) .unset
  | scalar b => exact iff_of_false (by simp [fingerprint, Fingerprint.same, Fingerprint.sameParts]) (by rintro ⟨⟩)
  | list items => exact iff_of_false (by simp [fingerprint.eq_1, tagged_ne_list]) (by rintro ⟨⟩)
  | map t => exact iff_of_false (by simp [fingerprint, Fingerprint.same]) (by rintro ⟨⟩)

theorem fingerprint_scalar_same_iff (a : Scalar) (w : Value) :
    (scalar a).fingerprint.same w.fingerprint = true ↔ (scalar a).Agrees w := by
  cases w with
  | unset => exact iff_of_false (by simp [fingerprint, Fingerprint.same, Fingerprint.sameParts]) (by rintro ⟨⟩)
  | scalar b =>
    rw [fingerprint, fingerprint, Fingerprint.same_tagged_iff, Fingerprint.same, ← Scalar.same_iff_tagged]
    exact ⟨.scalar, fun h => by cases h; assumption⟩
  | list items => exact iff_of_false (by simp [fingerprint.eq_2, tagged_ne_list]) (by rintro ⟨⟩)
  | map t => exact iff_of_false (by simp [fingerprint, Fingerprint.same]) (by rintro ⟨⟩)

end Value

mutual

/-- What holds of a list when it holds of the elements, of a map when it holds of what is under its keys, and of every
    other value, holds of all values. -/
@[elab_as_elim]
theorem Value.inside_induction {motive : Value → Prop} (unset : motive .unset) (scalar : ∀ s, motive (.scalar s))
    (list : ∀ items, (∀ v ∈ items, motive v) → motive (.list items))
    (map : ∀ entries, (∀ e ∈ entries, motive e.2) → motive (.map entries)) : (v : Value) → motive v
  | .unset => unset
  | .scalar s => scalar s
  | .list items => list items (forall_items_induction unset scalar list map items)
  | .map entries => map entries (forall_entries_induction unset scalar list map entries)

theorem forall_items_induction {motive : Value → Prop} (unset : motive .unset) (scalar : ∀ s, motive (.scalar s))
    (list : ∀ items, (∀ v ∈ items, motive v) → motive (.list items))
    (map : ∀ entries, (∀ e ∈ entries, motive e.2) → motive (.map entries)) :
    (items : List Value) → ∀ v ∈ items, motive v
  | [] => nofun
  | v :: rest => List.forall_mem_cons.mpr
      ⟨Value.inside_induction unset scalar list map v, forall_items_induction unset scalar list map rest⟩

theorem forall_entries_induction {motive : Value → Prop} (unset : motive .unset) (scalar : ∀ s, motive (.scalar s))
    (list : ∀ items, (∀ v ∈ items, motive v) → motive (.list items))
    (map : ∀ entries, (∀ e ∈ entries, motive e.2) → motive (.map entries)) :
    (entries : List (String × Value)) → ∀ e ∈ entries, motive e.2
  | [] => nofun
  | (_, v) :: rest => List.forall_mem_cons.mpr
      ⟨Value.inside_induction unset scalar list map v, forall_entries_induction unset scalar list map rest⟩

end

namespace Value

/-- **Fingerprints are exact.** Frozen values have the same fingerprint exactly when they agree. -/
theorem fingerprint_same_iff {v w : Value} (hv : v.Frozen) (hw : w.Frozen) :
    v.fingerprint.same w.fingerprint = true ↔ v.Agrees w := by
  induction v using inside_induction generalizing w with
  | unset => exact fingerprint_unset_same_iff w
  | scalar a => exact fingerprint_scalar_same_iff a w
  | list as ih =>
    cases w with
    | list bs =>
      rw [Frozen] at hv hw
      rw [agrees_list_iff, fingerprint, fingerprint, Fingerprint.same_row_iff, itemFingerprints_eq_map,
        itemFingerprints_eq_map, List.forall₂_map_left_iff, List.forall₂_map_right_iff]
      exact forall₂_congr_mem fun v hmem w hmem' => ih v hmem (hv.of_mem hmem) (hw.of_mem hmem')
    | map t => exact iff_of_false (by simp [fingerprint, Fingerprint.same]) (by rintro ⟨⟩)
    | unset => exact iff_of_false (by simp [fingerprint.eq_1, list_ne_tagged]) (by rintro ⟨⟩)
    | scalar b => exact iff_of_false (by simp [fingerprint.eq_2, list_ne_tagged]) (by rintro ⟨⟩)
  | map s ih =>
    cases w with
    | map t =>
      have hs := Tree.frozen_map.mp hv
      have ht := Tree.frozen_map.mp hw
      rw [agrees_map_iff]
      exact Fingerprint.same_ofEntries_iff ht.keys_nodup fun a ha b hb =>
        ih a ha (hs.value_of_mem ha) (ht.value_of_mem hb)
    | _ => exact iff_of_false (by simp [fingerprint, Fingerprint.same]) (by rintro ⟨⟩)

/-- Comparing frozen values place by place tells whether they agree. -/
theorem same_iff_agrees {v w : Value} (hv : v.Frozen) (hw : w.Frozen) : v.same w = true ↔ v.Agrees w := by
  induction v using inside_induction generalizing w with
  | unset =>
    cases w with
    | unset => simpa [same] using Agrees.unset
    | _ => exact iff_of_false (by simp [same]) (by rintro ⟨⟩)
  | scalar a =>
    cases w with
    | scalar b => exact ⟨.scalar, fun h => by cases h; assumption⟩
    | _ => exact iff_of_false (by simp [same]) (by rintro ⟨⟩)
  | list as ih =>
    cases w with
    | list bs =>
      rw [Frozen] at hv hw
      rw [agrees_list_iff, same, sameItems_iff]
      exact forall₂_congr_mem fun v hmem w hmem' => ih v hmem (hv.of_mem hmem) (hw.of_mem hmem')
    | _ => exact iff_of_false (by simp [same]) (by rintro ⟨⟩)
  | map s ih =>
    cases w with
    | map t =>
      have hs := Tree.frozen_map.mp hv
      have ht := Tree.frozen_map.mp hw
      rw [agrees_map_iff, same]
      exact sameEntries_iff_agree id hs.keys_ascending ht.keys_ascending fun a ha b hb =>
        ih a ha (hs.value_of_mem ha) (ht.value_of_mem hb)
    | _ => exact iff_of_false (by simp [same]) (by rintro ⟨⟩)

end Value
end LayeredConfig
