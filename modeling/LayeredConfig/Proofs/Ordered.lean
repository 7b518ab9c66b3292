import LayeredConfig.Value.KeyOrder
import Mathlib.Data.List.Forall2
import Mathlib.Data.List.Perm.Basic
import Mathlib.Data.String.Basic
/-!
# What sorting gives

Sorting keeps the elements (`sortOrdered_perm`) and puts none of them behind one that it comes before
(`sortOrdered_pairwise`), provided that coming before is as an order should be: what comes before an element comes
before everything that does not come before that element. Keys that are texts can be put in order, and come out in the
order of the texts (`orderedByKey_of_texts`).
-/
namespace LayeredConfig

variable {α : Type} {before : α → α → Bool}

theorem insertOrdered_perm (x : α) (xs : List α) : (insertOrdered before x xs).Perm (x :: xs) := by
  induction xs with
  | nil => exact List.Perm.refl _
  | cons y ys ih =>
    rw [insertOrdered]
    split
    · exact (ih.cons y).trans (List.Perm.swap x y ys)
    · exact List.Perm.refl _

theorem sortOrdered_perm (xs : List α) : (sortOrdered before xs).Perm xs := by
  induction xs with
  | nil => exact List.Perm.refl _
  | cons x xs ih => exact (insertOrdered_perm x _).trans (ih.cons x)

/-- Coming before is an order up to elements that it does not tell apart. -/
structure Orders (before : α → α → Bool) : Prop where
  asymm : ∀ x y, before x y → ¬ before y x
  trans : ∀ x y z, before x y → ¬ before z y → before x z

theorem insertOrdered_pairwise (h : Orders before) (x : α) {xs : List α}
    (hxs : xs.Pairwise fun a b => ¬ before b a) :
    (insertOrdered before x xs).Pairwise fun a b => ¬ before b a := by
  induction xs with
  | nil => simp [insertOrdered]
  | cons y ys ih =>
    obtain ⟨hy, hys⟩ := List.pairwise_cons.mp hxs
    rw [insertOrdered]
    split
    · rename_i hyx
      refine List.pairwise_cons.mpr ⟨?_, ih hys⟩
      intro z hz
      rcases List.mem_cons.mp ((insertOrdered_perm x ys).mem_iff.mp hz) with hz | hz
      · exact hz ▸ h.asymm y x hyx
      · exact hy z hz
    · rename_i hyx
      refine List.pairwise_cons.mpr ⟨?_, hxs⟩
      intro z hz hzx
      rcases List.mem_cons.mp hz with hz | hz
      · exact hyx (hz ▸ hzx)
      · exact hy z hz (h.trans z x y hzx hyx)

theorem sortOrdered_pairwise (h : Orders before) (xs : List α) :
    (sortOrdered before xs).Pairwise fun a b => ¬ before b a := by
  induction xs with
  | nil => exact List.Pairwise.nil
  | cons x xs ih => exact insertOrdered_pairwise h x ih

theorem orders_byText (text : α → String) : Orders fun x y => decide (text x < text y) where
  asymm := by
    intro x y hxy hyx
    exact lt_asymm (of_decide_eq_true hxy) (of_decide_eq_true hyx)
  trans := by
    intro x y z hxy hzy
    exact decide_eq_true (lt_of_lt_of_le (of_decide_eq_true hxy) (not_lt.mp (by simpa using hzy)))

theorem sortOrdered_ascending (text : α → String) {xs : List α}
    (hxs : xs.Pairwise fun a b => text a ≠ text b) :
    (sortOrdered (fun x y => decide (text x < text y)) xs).Pairwise fun a b => text a < text b := by
  have hsorted := sortOrdered_pairwise (orders_byText text) xs
  have hne : (sortOrdered (fun x y => decide (text x < text y)) xs).Pairwise fun a b => text a ≠ text b :=
    (sortOrdered_perm xs).symm.pairwise hxs Ne.symm
  refine (hsorted.and hne).imp ?_
  intro a b h
  obtain ⟨hle, hab⟩ := h
  exact lt_of_le_of_ne (not_lt.mp (by simpa using hle)) hab

/-- Lists in strictly ascending order are the same as soon as they have the same elements. -/
theorem eq_of_ascending {text : α → String} {xs ys : List α} (hxs : xs.Pairwise fun a b => text a < text b)
    (hys : ys.Pairwise fun a b => text a < text b) (h : ∀ x, x ∈ xs ↔ x ∈ ys) : xs = ys := by
  have hne : ∀ {a b : α}, text a < text b → a ≠ b := by
    intro a b hab heq
    exact lt_irrefl (text b) (heq ▸ hab)
  refine List.Perm.eq_of_pairwise ?_ hxs hys ((List.perm_ext_iff_of_nodup (hxs.imp hne) (hys.imp hne)).mpr h)
  intro a b _ _ hab hba
  exact absurd hab (lt_asymm hba)

theorem sortOrdered_eq_self {xs : List α} (hxs : xs.Pairwise fun a b => ¬ before b a) :
    sortOrdered before xs = xs := by
  induction xs with
  | nil => rfl
  | cons x xs ih =>
    obtain ⟨hx, hxs⟩ := List.pairwise_cons.mp hxs
    rw [sortOrdered, ih hxs]
    cases xs with
    | nil => rfl
    | cons y ys => rw [insertOrdered, if_neg (hx y List.mem_cons_self)]

/-! ## Lists side by side -/

section SideBySide

variable {β : Type} {R : α → β → Prop} {xs : List α} {ys : List β}

theorem exists_of_mem_left (h : List.Forall₂ R xs ys) {x : α} (hx : x ∈ xs) : ∃ y ∈ ys, R x y := by
  induction h with
  | nil => cases hx
  | @cons a b _ _ hab _ ih =>
    rcases List.mem_cons.mp hx with rfl | hx
    · exact ⟨b, List.mem_cons_self, hab⟩
    · obtain ⟨y, hy, hxy⟩ := ih hx
      exact ⟨y, List.mem_cons_of_mem b hy, hxy⟩

theorem exists_of_mem_right (h : List.Forall₂ R xs ys) {y : β} (hy : y ∈ ys) : ∃ x ∈ xs, R x y :=
  exists_of_mem_left h.flip hy

theorem forall₂_congr_mem {S : α → β → Prop} (h : ∀ x ∈ xs, ∀ y ∈ ys, R x y ↔ S x y) :
    List.Forall₂ R xs ys ↔ List.Forall₂ S xs ys := by
  induction xs generalizing ys with
  | nil => simp
  | cons x xs ih =>
    cases ys with
    | nil => simp
    | cons y ys =>
      rw [List.forall₂_cons, List.forall₂_cons, h x List.mem_cons_self y List.mem_cons_self,
        ih fun x' hx' y' hy' => h x' (List.mem_cons_of_mem x hx') y' (List.mem_cons_of_mem y hy')]

theorem insertOrdered_forall₂ {before' : β → β → Bool}
    (hR : ∀ x x' y y', R x y → R x' y' → before x x' = before' y y') {x : α} {y : β} (hxy : R x y)
    (h : List.Forall₂ R xs ys) : List.Forall₂ R (insertOrdered before x xs) (insertOrdered before' y ys) := by
  induction h with
  | nil => exact .cons hxy .nil
  | cons hab hrest ih =>
    rw [insertOrdered, insertOrdered, hR _ _ _ _ hab hxy]
    split
    · exact .cons hab ih
    · exact .cons hxy (.cons hab hrest)

theorem sortOrdered_forall₂ {before' : β → β → Bool}
    (hR : ∀ x x' y y', R x y → R x' y' → before x x' = before' y y') (h : List.Forall₂ R xs ys) :
    List.Forall₂ R (sortOrdered before xs) (sortOrdered before' ys) := by
  induction h with
  | nil => exact .nil
  | cons hab _ ih => exact insertOrdered_forall₂ (R := R) hR hab ih

theorem forall₂_of_ascending {κ : Type} [LinearOrder κ] {key : α → κ} {key' : β → κ} (hR : ∀ x y, R x y → key x = key' y)
    (hxs : xs.Pairwise fun a b => key a < key b) (hys : ys.Pairwise fun a b => key' a < key' b)
    (hleft : ∀ x ∈ xs, ∃ y ∈ ys, R x y) (hright : ∀ y ∈ ys, ∃ x ∈ xs, R x y) : List.Forall₂ R xs ys := by
  induction xs generalizing ys with
  | nil =>
    cases ys with
    | nil => exact .nil
    | cons y ys =>
      obtain ⟨x, hx, _⟩ := hright y List.mem_cons_self
      cases hx
  | cons x xs ih =>
    cases ys with
    | nil =>
      obtain ⟨y, hy, _⟩ := hleft x List.mem_cons_self
      cases hy
    | cons y ys =>
      obtain ⟨hx, hxs⟩ := List.pairwise_cons.mp hxs
      obtain ⟨hy, hys⟩ := List.pairwise_cons.mp hys
      -- the first elements match, for each matches with one whose key is no smaller than the first key
      have hfirst : R x y := by
        obtain ⟨y', hy', hxy'⟩ := hleft x List.mem_cons_self
        rcases List.mem_cons.mp hy' with rfl | hy'
        · exact hxy'
        · obtain ⟨x', hx', hx'y⟩ := hright y List.mem_cons_self
          have hlt : key x' < key x := hR x y' hxy' ▸ hR x' y hx'y ▸ hy y' hy'
          rcases List.mem_cons.mp hx' with rfl | hx'
          · exact hx'y
          · exact absurd hlt (lt_asymm (hx x' hx'))
      refine .cons hfirst (ih hxs hys ?_ ?_)
      · intro x' hx'
        obtain ⟨y', hy', hx'y'⟩ := hleft x' (List.mem_cons_of_mem x hx')
        rcases List.mem_cons.mp hy' with rfl | hy'
        · exact absurd ((hR x y' hfirst).trans (hR x' y' hx'y').symm) (hx x' hx').ne
        · exact ⟨y', hy', hx'y'⟩
      · intro y' hy'
        obtain ⟨x', hx', hx'y'⟩ := hright y' (List.mem_cons_of_mem y hy')
        rcases List.mem_cons.mp hx' with rfl | hx'
        · exact absurd ((hR x' y hfirst).symm.trans (hR x' y' hx'y')) (hy y' hy').ne
        · exact ⟨x', hx', hx'y'⟩

end SideBySide

/-! ## Keys in order -/

theorem comparableKeys_of_texts {m : RawMap} (h : ∀ e ∈ m, ∃ s, e.1 = .text s) : comparableKeys m = true := by
  induction m with
  | nil => rfl
  | cons e rest ih =>
    obtain ⟨he, hrest⟩ := List.forall_mem_cons.mp h
    cases rest with
    | nil => rfl
    | cons d rest =>
      obtain ⟨hd, _⟩ := List.forall_mem_cons.mp hrest
      obtain ⟨k, v⟩ := e
      obtain ⟨l, w⟩ := d
      obtain ⟨s, rfl⟩ := he
      obtain ⟨t, rfl⟩ := hd
      rw [comparableKeys, ih hrest]
      rfl

/-- Texts can be put in order, and the order is that of the texts. -/
theorem orderedByKey_of_texts {m : RawMap} (h : ∀ e ∈ m, ∃ s, e.1 = .text s) :
    orderedByKey m = .ok m.sortedByText := by
  rw [orderedByKey, clash?, if_pos (comparableKeys_of_texts h), RawMap.sortedByText]
  refine congrArg Except.ok (List.forall₂_eq_eq_eq ▸ ?_)
  have hself : List.Forall₂ (fun a b => a = b ∧ ∃ s, a.1 = .text s) m m :=
    List.forall₂_same.mpr fun e he => ⟨rfl, h e he⟩
  refine (sortOrdered_forall₂ ?_ hself).imp fun _ _ hab => hab.1
  rintro a a' _ _ ⟨rfl, s, hs⟩ ⟨rfl, t, ht⟩
  rw [hs, ht]
  rfl

theorem mem_orderedByKey {β : Type} {entries ordered : List (Key × β)} (h : orderedByKey entries = .ok ordered)
    {e : Key × β} : e ∈ ordered ↔ e ∈ entries := by
  rw [orderedByKey] at h
  split at h
  · cases h
  · cases h
    exact (sortOrdered_perm entries).mem_iff

end LayeredConfig
