import LayeredConfig.Proofs.Tree.Place
import LayeredConfig.Value.Reading
import Mathlib.Data.List.Forall2
/-!
# Values that are the same read alike

Two values that are the same, and two maps with the same leaves at the same places, are read alike as every kind:
either both come out, with readings that are the same, or both fail, with failures of one class (`Value.Alike.read`).
-/
namespace LayeredConfig

/-! ## Results that are alike -/

/-- Whether two failures of a typed read are of one class. -/
inductive Failure.SameClass : Failure → Failure → Prop
  | notDefined {path profile path' profile' : String} : SameClass (.notDefined path profile) (.notDefined path' profile')
  | mismatch {m n : Mismatch} : SameClass (.mismatch m) (.mismatch n)
  | tooLargeForDouble : SameClass .tooLargeForDouble .tooLargeForDouble

/-- Whether two results are values in a relation, or failures of one class. -/
inductive Outcome.Alike {α : Type} (R : α → α → Prop) : Outcome α → Outcome α → Prop
  | ok {a b : α} (h : R a b) : Alike R (.ok a) (.ok b)
  | error {f g : Failure} (h : f.SameClass g) : Alike R (.error f) (.error g)

theorem Outcome.Alike.map {α β : Type} {R : α → α → Prop} {S : β → β → Prop} {x y : Outcome α} (h : Alike R x y)
    {f g : α → β} (hfg : ∀ a b, R a b → S (f a) (g b)) : Alike S (x.map f) (y.map g) := by
  cases h with
  | ok h => exact .ok (hfg _ _ h)
  | error h => exact .error h

/-- Whether two keyed values have the same key, and values that are the same. -/
def SameEntry {κ α : Type} (same : α → α → Bool) (a b : κ × α) : Prop := a.1 = b.1 ∧ same a.2 b.2 = true

/-- Whether two readings are the same, element by element. -/
inductive Reading.Same : Reading → Reading → Prop
  | scalar {a b : Scalar} (h : a.same b = true) : Same (.scalar a) (.scalar b)
  | list {as bs : List Scalar} (h : List.Forall₂ (fun a b => a.same b = true) as bs) : Same (.list as) (.list bs)
  | map {as bs : List (Key × Scalar)} (h : List.Forall₂ (SameEntry Scalar.same) as bs) : Same (.map as) (.map bs)

/-! ## Scalars -/

theorem Scalar.eq_or_double_of_same {a b : Scalar} (h : a.same b = true) :
    (∃ x y, a = .double x ∧ b = .double y ∧ x.same y = true) ∨ a = b ∧ ∀ x, a ≠ .double x := by
  cases a with
  | double x =>
    cases b with
    | double y => exact .inl ⟨x, y, rfl, rfl, h⟩
    | _ => simp [same] at h
  | _ =>
    right
    refine ⟨of_decide_eq_true ?_, by simp⟩
    cases b <;> exact h

theorem Double.same_self {x : Double} (h : x.isNaN = false) : x.same x = true := by
  simp [same, h]

theorem Double.isNaN_of_represents {n : Int} (h : represents n = true) : (ofInt n).isNaN = false := by
  rw [represents, beq_iff_eq, toInt?] at h
  split at h
  · cases h
  · rename_i hfinite
    rw [isNaN, Bool.and_eq_false_iff]
    exact .inl (beq_false_of_ne hfinite)

theorem ScalarKind.same_self_of_read {k : ScalarKind} {s r : Scalar} (h : k.read s = .ok r)
    (hs : ∀ x, s ≠ .double x) : r.same r = true := by
  cases r with
  | double x =>
    rw [ScalarKind.read.eq_def] at h
    split at h
    · cases h
    · split at h <;> cases h
    · split at h <;> cases h
    · split at h <;> cases h
    · exact absurd rfl (hs _)
    · split at h
      · cases h
      · split at h
        · rename_i hrepresents
          cases h
          exact Double.same_self (Double.isNaN_of_represents hrepresents)
        · cases h
    · cases h
    · cases h
    · split at h <;> cases h
    · cases h
  | _ => simp [Scalar.same]

theorem ScalarKind.read_same {a b : Scalar} (h : a.same b = true) (k : ScalarKind) :
    (∃ r q, k.read a = .ok r ∧ k.read b = .ok q ∧ r.same q = true) ∨
      ∃ misfit, k.read a = .error misfit ∧ k.read b = .error misfit := by
  rcases Scalar.eq_or_double_of_same h with ⟨x, y, rfl, rfl, hxy⟩ | ⟨rfl, hnot⟩
  · cases k with
    | double => exact .inl ⟨.double x, .double y, rfl, rfl, hxy⟩
    | _ => exact .inr ⟨.otherType, rfl, rfl⟩
  · cases hread : k.read a with
    | error misfit => exact .inr ⟨misfit, rfl, rfl⟩
    | ok r => exact .inl ⟨r, r, rfl, rfl, ScalarKind.same_self_of_read hread hnot⟩

/-! ## Values -/

namespace Value

theorem sameItems_iff {as bs : List Value} :
    sameItems as bs = true ↔ List.Forall₂ (fun a b => a.same b = true) as bs := by
  induction as generalizing bs with
  | nil => cases bs <;> simp [sameItems]
  | cons a as ih => cases bs <;> simp [sameItems, ih]

theorem sameEntries_iff {as bs : List (String × Value)} :
    sameEntries as bs = true ↔ List.Forall₂ (SameEntry Value.same) as bs := by
  induction as generalizing bs with
  | nil => cases bs <;> simp [sameEntries]
  | cons a as ih =>
    cases bs with
    | nil => simp [sameEntries]
    | cons b bs => simp [sameEntries, ih, SameEntry]

/-- Whether two values are the same, or maps with the same leaves. -/
def Alike : Value → Value → Prop
  | map t, map u => List.Forall₂ (SameEntry Value.same) (Tree.leaves t) (Tree.leaves u)
  | v, w => v.same w = true

variable {v w : Value}

theorem alike_of_same (hv : v.isLeaf) (h : v.same w = true) : v.Alike w := by
  cases v with
  | map t => cases hv
  | _ => cases w <;> exact h

theorem readScalar_same (h : v.same w = true) (k : ScalarKind) (path : String) :
    Outcome.Alike (fun a b => a.same b = true) (v.readScalar k path) (w.readScalar k path) := by
  cases v with
  | scalar a =>
    cases w with
    | scalar b =>
      rw [same] at h
      rw [readScalar, readScalar]
      rcases ScalarKind.read_same h k with ⟨r, q, hr, hq, hsame⟩ | ⟨misfit, ha, hb⟩
      · rw [hr, hq]
        exact .ok hsame
      · rw [ha, hb]
        cases misfit with
        | otherType => exact .error .mismatch
        | tooLargeForDouble => exact .error .tooLargeForDouble
    | _ => simp [same] at h
  | _ =>
    cases w with
    | scalar b => simp [same] at h
    | _ => exact .error .mismatch

theorem readItems_same {vs ws : List Value} (h : List.Forall₂ (fun a b => a.same b = true) vs ws) (k : ScalarKind)
    (path : String) (i : Nat) :
    Outcome.Alike (List.Forall₂ fun a b => a.same b = true) (readItems (readScalar k) path i vs)
      (readItems (readScalar k) path i ws) := by
  induction h generalizing i with
  | nil => exact .ok .nil
  | @cons v w _ _ hfirst _ ih =>
    have hread := readScalar_same hfirst k (itemLabel path i)
    rw [readItems, readItems]
    generalize v.readScalar k (itemLabel path i) = x, w.readScalar k (itemLabel path i) = y at hread ⊢
    cases hread with
    | error hclass => exact .error hclass
    | ok hsame => exact (ih (i + 1)).map fun _ _ hrest => .cons hsame hrest

theorem readLeaves_same {ls ms : List (String × Value)} (h : List.Forall₂ (SameEntry Value.same) ls ms)
    (path : String) : Outcome.Alike (List.Forall₂ (SameEntry Scalar.same)) (readLeaves path ls) (readLeaves path ms) := by
  induction h with
  | nil => exact .ok .nil
  | @cons l m _ _ hfirst _ ih =>
    obtain ⟨k, v⟩ := l
    obtain ⟨k', w⟩ := m
    obtain ⟨rfl, hsame⟩ := hfirst
    have hread := readScalar_same hsame .string (path ++ "." ++ k)
    dsimp only at hread
    rw [readLeaves, readLeaves]
    generalize v.readScalar .string (path ++ "." ++ k) = x, w.readScalar .string (path ++ "." ++ k) = y at hread ⊢
    cases hread with
    | error hclass => exact .error hclass
    | ok hread => exact ih.map fun _ _ hrest => .cons ⟨rfl, hread⟩ hrest

theorem flatten_same {t u : Tree} (h : List.Forall₂ (SameEntry Value.same) t.leaves u.leaves) :
    List.Forall₂ (SameEntry Value.same) t.flatten u.flatten := by
  rw [Tree.flatten, Tree.flatten, List.forall₂_map_left_iff, List.forall₂_map_right_iff]
  exact h.imp fun _ _ hentry => ⟨congrArg joinDots hentry.1, hentry.2⟩

theorem Alike.read (h : v.Alike w) (kind : Kind) (path : String) :
    Outcome.Alike Reading.Same (v.read kind path) (w.read kind path) := by
  cases v with
  | map t =>
    cases w with
    | map u =>
      cases kind with
      | stringMap => exact (readLeaves_same (flatten_same h) path).map fun _ _ => .map
      | _ => exact .error .mismatch
    | _ => simp [Alike, same] at h
  | list vs =>
    cases w with
    | list ws =>
      cases kind with
      | list k =>
        have hitems : sameItems vs ws = true := h
        exact (readItems_same (sameItems_iff.mp hitems) k path 0).map fun _ _ => .list
      | _ => exact .error .mismatch
    | _ => simp [Alike, same] at h
  | scalar a =>
    cases w with
    | scalar b =>
      cases kind with
      | scalar k => exact (readScalar_same h k path).map fun _ _ => .scalar
      | _ => exact .error .mismatch
    | _ => simp [Alike, same] at h
  | unset =>
    cases w with
    | unset => cases kind <;> exact .error .mismatch
    | _ => simp [Alike, same] at h

end Value
end LayeredConfig
