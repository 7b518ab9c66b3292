import LayeredConfig.Path
import LayeredConfig.Value.Basic
import Mathlib.Data.String.Basic
/-!
# Frozen values

A value is frozen when it has the form that freezing gives: in every map the keys are in ascending order, and
none of them is empty or holds a dot; no element of a list is a tombstone; whole numbers fit in 64 bits.
-/
namespace LayeredConfig

/-- Whether a text can be a key of a stored map. -/
def IsKey (s : String) : Prop := s ≠ "" ∧ '.' ∉ s.toList

instance (s : String) : Decidable (IsKey s) := inferInstanceAs (Decidable (_ ∧ _))

theorem IsSegment.isKey {s : String} (h : IsSegment s) : IsKey s := ⟨h.1, h.2.2⟩

mutual

/-- Whether a value is in stored form. -/
def Value.Frozen : Value → Prop
  | .unset => True
  | .scalar s => s.fits = true
  | .list items => Value.FrozenItems items
  | .map entries => Tree.Frozen entries

/-- Whether the elements of a list are in stored form and none of them is a tombstone. -/
def Value.FrozenItems : List Value → Prop
  | [] => True
  | v :: rest => v ≠ .unset ∧ v.Frozen ∧ Value.FrozenItems rest

def Tree.Frozen : Tree → Prop
  | [] => True
  | (k, v) :: rest => IsKey k ∧ (∀ e ∈ rest, k < e.1) ∧ v.Frozen ∧ Tree.Frozen rest

end

namespace Tree

@[simp] theorem frozen_nil : Frozen [] := by rw [Frozen]; trivial

theorem frozen_cons {k : String} {v : Value} {rest : Tree} :
    Frozen ((k, v) :: rest) ↔ IsKey k ∧ (∀ e ∈ rest, k < e.1) ∧ v.Frozen ∧ Frozen rest := by
  rw [Frozen]

@[simp] theorem frozen_map {t : Tree} : (Value.map t).Frozen ↔ Frozen t := by rw [Value.Frozen]

theorem frozen_iff {t : Tree} :
    Frozen t ↔ t.Pairwise (fun a b => a.1 < b.1) ∧ ∀ e ∈ t, IsKey e.1 ∧ e.2.Frozen := by
  induction t with
  | nil => simp
  | cons e rest ih =>
    obtain ⟨k, v⟩ := e
    rw [frozen_cons, ih, List.pairwise_cons, List.forall_mem_cons]
    constructor
    · intro h
      obtain ⟨hk, hlt, hv, hasc, hrest⟩ := h
      exact ⟨⟨hlt, hasc⟩, ⟨hk, hv⟩, hrest⟩
    · intro h
      obtain ⟨⟨hlt, hasc⟩, ⟨hk, hv⟩, hrest⟩ := h
      exact ⟨hk, hlt, hv, hasc, hrest⟩

theorem Frozen.isKey_of_mem {t : Tree} (h : Frozen t) {e : String × Value} (he : e ∈ t) : IsKey e.1 :=
  ((frozen_iff.mp h).2 e he).1

theorem Frozen.value_of_mem {t : Tree} (h : Frozen t) {e : String × Value} (he : e ∈ t) : e.2.Frozen :=
  ((frozen_iff.mp h).2 e he).2

theorem Frozen.sublist {t u : Tree} (h : Frozen t) (hs : u.Sublist t) : Frozen u := by
  rw [frozen_iff] at h ⊢
  exact ⟨h.1.sublist hs, fun e he => h.2 e (hs.subset he)⟩

end Tree

/-! ## Deciding it -/

instance Value.decidableNeUnset : (v : Value) → Decidable (v ≠ .unset)
  | .unset => isFalse fun h => h rfl
  | .scalar _ => isTrue fun h => by cases h
  | .list _ => isTrue fun h => by cases h
  | .map _ => isTrue fun h => by cases h

mutual

instance Value.decidableFrozen : (v : Value) → Decidable v.Frozen
  | .unset => isTrue (by rw [Value.Frozen]; trivial)
  | .scalar s => decidable_of_iff (s.fits = true) (by rw [Value.Frozen])
  | .list items =>
    have := Value.decidableFrozenItems items
    decidable_of_iff (Value.FrozenItems items) (by rw [Value.Frozen])
  | .map t =>
    have := Tree.decidableFrozen t
    decidable_of_iff (Tree.Frozen t) Tree.frozen_map.symm

instance Value.decidableFrozenItems : (items : List Value) → Decidable (Value.FrozenItems items)
  | [] => isTrue (by rw [Value.FrozenItems]; trivial)
  | v :: rest =>
    have := Value.decidableFrozen v
    have := Value.decidableFrozenItems rest
    decidable_of_iff (v ≠ .unset ∧ v.Frozen ∧ Value.FrozenItems rest) (by rw [Value.FrozenItems])

instance Tree.decidableFrozen : (t : List (String × Value)) → Decidable (Tree.Frozen t)
  | [] => isTrue Tree.frozen_nil
  | (k, v) :: rest =>
    have := Value.decidableFrozen v
    have := Tree.decidableFrozen rest
    decidable_of_iff (IsKey k ∧ (∀ e ∈ rest, k < e.1) ∧ v.Frozen ∧ Tree.Frozen rest) Tree.frozen_cons.symm

end

end LayeredConfig
