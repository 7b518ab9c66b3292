import LayeredConfig.Proofs.Tree.Loose
import LayeredConfig.Proofs.Value.Clear
/-!
# Overlays of raw maps

A raw map laid over another keeps the entries of the lower one under keys that it has not, and has an entry for each
of its own, its value laid over what was under the key (`RawMap.mem_merge`, `RawMap.exists_mem_merge`). Its outline
therefore has all that the higher map gives, and of the lower map all that the higher one does not decide, and nothing
else (`RawMap.outline_merge`). What it gives may be more: a dotted key of the higher map decides only what stands under
the same dotted key, so that an overlay need not freeze although both maps do.
-/
namespace LayeredConfig

/-! ## Keys -/

namespace Key

@[simp] theorem same_self (k : Key) : k.same k = true := by
  cases k <;> simp [same, number?]

theorem same_trans {k l n : Key} (h : k.same l) (h' : l.same n) : k.same n := by
  cases k <;> cases l <;> cases n <;> simp_all [same, number?]

theorem eq_of_same_text {k : Key} {s : String} (h : k.same (text s)) : k = text s := by
  cases k <;> simp_all [same, number?]

end Key

theorem Raw.over_none (v : Raw) : v.over none = v := Raw.over_of_not_map v fun _ h => Option.some_ne_none _ h.symm

theorem Raw.over_of_not_maps (v : Raw) {below : Option Raw}
    (h : ∀ higher lower, v = .map higher → below ≠ some (.map lower)) : v.over below = v := by
  cases v with
  | map higher => exact Raw.over_of_not_map _ fun lower => h higher lower rfl
  | _ => simp [Raw.over]

/-! ## Entries -/

namespace RawMap

variable {m lower higher : RawMap} {k key : Key} {v : Raw} {d e : Key × Raw}

theorem exists_mem_of_get? (h : m.get? k = some v) : ∃ l, l.same k ∧ (l, v) ∈ m := by
  induction m with
  | nil => cases h
  | cons d rest ih =>
    obtain ⟨l, w⟩ := d
    rw [get?] at h
    split at h
    · rename_i hsame
      cases h
      exact ⟨l, hsame, List.mem_cons_self⟩
    · obtain ⟨n, hn, hmem⟩ := ih h
      exact ⟨n, hn, List.mem_cons_of_mem _ hmem⟩

theorem Distinct.get?_of_mem (h : Distinct m) (he : e ∈ m) (hk : e.1.same k) : m.get? k = some e.2 := by
  induction m with
  | nil => cases he
  | cons d rest ih =>
    obtain ⟨l, w⟩ := d
    obtain ⟨hl, _, hrest⟩ := distinct_cons.mp h
    rw [get?]
    rcases List.mem_cons.mp he with rfl | he
    · exact if_pos hk
    · rw [if_neg, ih hrest he]
      intro hlk
      exact hl e he (Key.same_trans hlk (Key.same_comm e.1 k ▸ hk))

theorem get?_insert_of_not_same (h : ¬ k.same key) (m : RawMap) (v : Raw) : (m.insert k v).get? key = m.get? key := by
  induction m with
  | nil => simp [insert, get?, h]
  | cons d rest ih =>
    obtain ⟨l, w⟩ := d
    rw [insert]
    split
    · rename_i hlk
      have hl : ¬ l.same key := fun hl => h (Key.same_trans (Key.same_comm l k ▸ hlk) hl)
      rw [get?, get?, if_neg hl, if_neg hl]
    · rw [get?, get?, ih]

theorem exists_mem_insert (m : RawMap) (k : Key) (v : Raw) : ∃ l, l.same k ∧ (l, v) ∈ m.insert k v := by
  induction m with
  | nil => exact ⟨k, Key.same_self k, List.mem_cons_self⟩
  | cons d rest ih =>
    obtain ⟨l, w⟩ := d
    rw [insert]
    split
    · rename_i hlk
      exact ⟨l, hlk, List.mem_cons_self⟩
    · obtain ⟨n, hn, hmem⟩ := ih
      exact ⟨n, hn, List.mem_cons_of_mem _ hmem⟩

theorem mem_insert_of_not_same (he : e ∈ m) (h : ¬ e.1.same k) (v : Raw) : e ∈ m.insert k v := by
  induction m with
  | nil => cases he
  | cons d rest ih =>
    obtain ⟨l, w⟩ := d
    rw [insert]
    rcases List.mem_cons.mp he with rfl | he
    · rw [if_neg h]
      exact List.mem_cons_self
    · split
      · exact List.mem_cons_of_mem _ he
      · exact List.mem_cons_of_mem _ (ih he)

theorem mem_or_same_of_mem_insert (he : e ∈ m.insert k v) : e ∈ m ∨ e.1.same k ∧ e.2 = v := by
  induction m with
  | nil =>
    rw [insert, List.mem_singleton] at he
    rw [he]
    exact .inr ⟨Key.same_self k, rfl⟩
  | cons d rest ih =>
    obtain ⟨l, w⟩ := d
    rw [insert] at he
    split at he
    · rename_i hlk
      rcases List.mem_cons.mp he with rfl | he
      · exact .inr ⟨hlk, rfl⟩
      · exact .inl (List.mem_cons_of_mem _ he)
    · rcases List.mem_cons.mp he with rfl | he
      · exact .inl List.mem_cons_self
      · exact (ih he).imp_left (List.mem_cons_of_mem _)

theorem get?_eq_none (h : ∀ e ∈ m, ¬ e.1.same k) : m.get? k = none := by
  cases hg : m.get? k with
  | none => rfl
  | some v =>
    obtain ⟨l, hl, hmem⟩ := exists_mem_of_get? hg
    exact absurd hl (h _ hmem)

theorem insert_of_get?_none (h : m.get? k = none) (v : Raw) : m.insert k v = m ++ [(k, v)] := by
  induction m with
  | nil => rfl
  | cons d rest ih =>
    obtain ⟨l, w⟩ := d
    rw [get?] at h
    split at h
    · cases h
    · rename_i hne
      rw [insert, if_neg hne, ih h, List.cons_append]

theorem mem_merge_of_unkeyed (he : e ∈ lower) (h : ∀ d ∈ higher, ¬ e.1.same d.1) : e ∈ merge lower higher := by
  induction higher generalizing lower with
  | nil =>
    rw [merge]
    exact he
  | cons d rest ih =>
    obtain ⟨hd, hrest⟩ := List.forall_mem_cons.mp h
    rw [merge]
    exact ih (mem_insert_of_not_same he hd _) hrest

/-- Each entry of the higher map is laid over what was under its key. -/
theorem exists_mem_merge (hh : Distinct higher) (hd : d ∈ higher) (lower : RawMap) :
    ∃ l, l.same d.1 ∧ (l, d.2.over (lower.get? d.1)) ∈ merge lower higher := by
  induction higher generalizing lower with
  | nil => cases hd
  | cons c rest ih =>
    obtain ⟨k, v⟩ := c
    obtain ⟨hk, _, hrest⟩ := distinct_cons.mp hh
    rw [merge]
    rcases List.mem_cons.mp hd with rfl | hd
    · obtain ⟨l, hl, hmem⟩ := exists_mem_insert lower k (v.over (lower.get? k))
      refine ⟨l, hl, mem_merge_of_unkeyed hmem fun c hc hsame => hk c hc ?_⟩
      exact Key.same_trans (Key.same_comm l k ▸ hl) hsame
    · obtain ⟨l, hl, hmem⟩ := ih hrest hd (lower.insert k (v.over (lower.get? k)))
      rw [get?_insert_of_not_same (hk d hd)] at hmem
      exact ⟨l, hl, hmem⟩

theorem mem_merge (hh : Distinct higher) (he : e ∈ merge lower higher) :
    e ∈ lower ∨ ∃ d ∈ higher, e.1.same d.1 ∧ e.2 = d.2.over (lower.get? d.1) := by
  induction higher generalizing lower with
  | nil =>
    rw [merge] at he
    exact .inl he
  | cons c rest ih =>
    obtain ⟨k, v⟩ := c
    obtain ⟨hk, _, hrest⟩ := distinct_cons.mp hh
    rw [merge] at he
    rcases ih hrest he with he | ⟨d, hd, hsame, hvalue⟩
    · rcases mem_or_same_of_mem_insert he with he | ⟨hsame, hvalue⟩
      · exact .inl he
      · exact .inr ⟨(k, v), List.mem_cons_self, hsame, hvalue⟩
    · rw [get?_insert_of_not_same (hk d hd)] at hvalue
      exact .inr ⟨d, List.mem_cons_of_mem _ hd, hsame, hvalue⟩

/-- A map laid over one that has none of its keys goes on from it. -/
theorem merge_append (hh : Distinct higher) (h : ∀ e ∈ lower, ∀ d ∈ higher, ¬ e.1.same d.1) :
    merge lower higher = lower ++ higher := by
  induction higher generalizing lower with
  | nil => rw [merge, List.append_nil]
  | cons d rest ih =>
    obtain ⟨k, v⟩ := d
    obtain ⟨hk, _, hrest⟩ := distinct_cons.mp hh
    have hnone : lower.get? k = none := get?_eq_none fun e he => h e he (k, v) List.mem_cons_self
    rw [merge, hnone, Raw.over_none, insert_of_get?_none hnone, ih hrest, List.append_assoc]
    · rfl
    · intro e he d hd
      rcases List.mem_append.mp he with he | he
      · exact h e he d (List.mem_cons_of_mem _ hd)
      · rw [List.mem_singleton.mp he]
        exact hk d hd

theorem merge_nil (hh : Distinct higher) : merge [] higher = higher :=
  merge_append hh fun _ he => absurd he List.not_mem_nil

end RawMap

/-! ## Outlines -/

namespace Outline

variable {a b : Outline} {keys place : List Key} {x : Option Raw}

/-- Whether an outline gives a leaf at a place, or a map if no leaf is named. -/
def Gives (a : Outline) (place : List Key) : Option Raw → Prop
  | some v => (place, v) ∈ a.leaves
  | none => place ∈ a.maps

/-- Whether an outline decides what stands at a place: it gives a map there, or a leaf there or above. -/
def Decides (a : Outline) (place : List Key) : Prop :=
  a.Gives place none ∨ ∃ front v, a.Gives front (some v) ∧ front <+: place

theorem Gives.decides (h : a.Gives place x) : a.Decides place := by
  cases x with
  | none => exact .inl h
  | some v => exact .inr ⟨place, v, h, List.prefix_rfl⟩

def nothing : Outline := ⟨0, ∅⟩

theorem not_gives_nothing : ¬ nothing.Gives place x := by
  cases x with
  | none => exact Set.notMem_empty place
  | some v => exact Multiset.notMem_zero _

theorem gives_under_iff :
    (a.under keys).Gives place x ↔
      (x = none ∧ place <+: keys ∧ place ≠ keys) ∨ ∃ rest, place = keys ++ rest ∧ a.Gives rest x := by
  cases x with
  | none =>
    simp only [true_and]
    exact or_congr_right ⟨fun ⟨rest, hrest, hplace⟩ => ⟨rest, hplace, hrest⟩,
      fun ⟨rest, hplace, hrest⟩ => ⟨rest, hrest, hplace⟩⟩
  | some v =>
    rw [or_iff_right (by simp)]
    exact mem_leaves_under

theorem Gives.under (h : a.Gives place x) (keys : List Key) : (a.under keys).Gives (keys ++ place) x :=
  gives_under_iff.mpr (.inr ⟨place, rfl, h⟩)

theorem head?_of_gives_under {k : Key} {rest : List Key} (hkeys : keys ≠ [])
    (h : (a.under keys).Gives (k :: rest) x) : keys.head? = some k := by
  obtain ⟨key, back, rfl⟩ := List.exists_cons_of_ne_nil hkeys
  rcases gives_under_iff.mp h with ⟨_, hpre, _⟩ | ⟨rest', heq, _⟩
  · rw [(List.cons_prefix_cons.mp hpre).1]
    rfl
  · rw [(List.cons.inj heq).1]
    rfl

/-- Whether an outline has all that a higher one gives, all that a lower one gives where the higher one does not
    decide, and nothing else. -/
structure Overlays (laid lower higher : Outline) : Prop where
  of_higher : ∀ place x, higher.Gives place x → laid.Gives place x
  of_lower : ∀ place x, lower.Gives place x → ¬ higher.Decides place → laid.Gives place x
  among : ∀ place x, laid.Gives place x → higher.Gives place x ∨ lower.Gives place x

end Outline

def outlineOf (below : Option Raw) : Outline := below.elim .nothing Raw.outline

namespace RawMap

variable {m lower higher : RawMap} {d e : Key × Raw} {k : Key} {place : List Key} {x : Option Raw}

theorem gives_iff :
    m.outline.Gives place x ↔
      (place = [] ∧ x = none) ∨ ∃ e ∈ m, (e.2.outline.under e.1.parts).Gives place x := by
  cases x with
  | none =>
    simp only [and_true]
    exact mem_maps_iff
  | some v =>
    rw [or_iff_right (by simp)]
    exact mem_leaves_iff

/-- A map gives what one of its values gives, beneath the key, however the key is written. -/
theorem gives_of_mem (he : e ∈ m) (hk : e.1.same k) (h : (e.2.outline.under k.parts).Gives place x) :
    m.outline.Gives place x :=
  gives_iff.mpr (.inr ⟨e, he, Key.parts_eq_of_same hk ▸ h⟩)

theorem decides_of_mem (he : e ∈ m) (h : e.2.outline.Decides place) : m.outline.Decides (e.1.parts ++ place) := by
  rcases h with hmap | ⟨front, v, hv, hpre⟩
  · exact .inl (gives_of_mem he (Key.same_self _) (hmap.under _))
  · exact .inr ⟨_, v, gives_of_mem he (Key.same_self _) (hv.under _), (List.prefix_append_right_inj _).mpr hpre⟩

/-- An overlay of maps gives what the higher one does, and what the lower one does where that does not decide, if it
    is so with their values. -/
theorem outline_merge (hh : Distinct higher) (hl : Distinct lower)
    (hover : ∀ d ∈ higher, ∀ below : Option Raw, (∀ r, below = some r → r.Distinct) →
      (d.2.over below).outline.Overlays (outlineOf below) d.2.outline) :
    (merge lower higher).outline.Overlays lower.outline higher.outline := by
  have hvalue : ∀ d ∈ higher, (d.2.over (lower.get? d.1)).outline.Overlays (outlineOf (lower.get? d.1)) d.2.outline :=
    fun d hd => hover d hd _ fun r hr => hl.of_get? hr
  constructor
  · intro place x h
    rcases gives_iff.mp h with ⟨rfl, rfl⟩ | ⟨d, hd, h⟩
    · exact nil_mem_maps _
    · obtain ⟨n, hn, hmem⟩ := exists_mem_merge hh hd lower
      refine gives_of_mem hmem hn (Outline.gives_under_iff.mpr ((Outline.gives_under_iff.mp h).imp id ?_))
      rintro ⟨rest, hplace, hrest⟩
      exact ⟨rest, hplace, (hvalue d hd).of_higher rest x hrest⟩
  · intro place x h hnot
    rcases gives_iff.mp h with ⟨rfl, rfl⟩ | ⟨e, he, h⟩
    · exact nil_mem_maps _
    · by_cases hkeyed : ∃ d ∈ higher, e.1.same d.1
      · obtain ⟨d, hd, hsame⟩ := hkeyed
        have hparts : e.1.parts = d.1.parts := Key.parts_eq_of_same hsame
        have hget : lower.get? d.1 = some e.2 := hl.get?_of_mem he hsame
        obtain ⟨n, hn, hmem⟩ := exists_mem_merge hh hd lower
        have hd' := hvalue d hd
        rw [hget] at hmem hd'
        rw [hparts] at h
        refine gives_of_mem hmem hn (Outline.gives_under_iff.mpr ((Outline.gives_under_iff.mp h).imp id ?_))
        rintro ⟨rest, rfl, hrest⟩
        exact ⟨rest, rfl, hd'.of_lower rest x hrest fun hdecides => hnot (decides_of_mem hd hdecides)⟩
      · have hunkeyed : ∀ d ∈ higher, ¬ e.1.same d.1 := fun d hd hsame => hkeyed ⟨d, hd, hsame⟩
        exact gives_iff.mpr (.inr ⟨e, mem_merge_of_unkeyed he hunkeyed, h⟩)
  · intro place x h
    rcases gives_iff.mp h with ⟨rfl, rfl⟩ | ⟨e, he, h⟩
    · exact .inl (nil_mem_maps _)
    · rcases mem_merge hh he with he | ⟨d, hd, hsame, heq⟩
      · exact .inr (gives_iff.mpr (.inr ⟨e, he, h⟩))
      · rw [heq, Key.parts_eq_of_same hsame] at h
        rcases Outline.gives_under_iff.mp h with habove | ⟨rest, rfl, hrest⟩
        · exact .inl (gives_of_mem hd (Key.same_self _) (Outline.gives_under_iff.mpr (.inl habove)))
        · rcases (hvalue d hd).among rest x hrest with hhigher | hlower
          · exact .inl (gives_of_mem hd (Key.same_self _) (hhigher.under _))
          · cases hget : lower.get? d.1 with
            | none =>
              rw [hget] at hlower
              exact absurd hlower Outline.not_gives_nothing
            | some r =>
              rw [hget] at hlower
              obtain ⟨n, hn, hmem⟩ := exists_mem_of_get? hget
              exact .inr (gives_of_mem hmem hn (Outline.Gives.under hlower _))

end RawMap

theorem Raw.overlays_of_not_maps (v : Raw) {below : Option Raw}
    (h : ∀ higher lower, v = .map higher → below ≠ some (.map lower)) :
    (v.over below).outline.Overlays (outlineOf below) v.outline := by
  rw [Raw.over_of_not_maps v h]
  by_cases hleaf : v.isLeaf
  · -- a leaf decides everything beneath its place
    have hself : v.outline.Gives [] (some v) := by
      rw [Raw.outline_of_isLeaf hleaf]
      exact Multiset.mem_singleton_self _
    exact ⟨fun _ _ h => h, fun place _ _ hnot => absurd (.inr ⟨[], v, hself, List.nil_prefix⟩) hnot,
      fun _ _ h => .inl h⟩
  · obtain ⟨higher, rfl⟩ := Raw.eq_map_of_not_isLeaf hleaf
    refine ⟨fun _ _ h => h, ?_, fun _ _ h => .inl h⟩
    intro place x hx hnot
    cases below with
    | none => exact absurd hx Outline.not_gives_nothing
    | some r =>
      -- a leaf under the map stands at its place, which the map decides
      have hr : r.isLeaf := by
        by_contra hnotleaf
        obtain ⟨lower, rfl⟩ := Raw.eq_map_of_not_isLeaf hnotleaf
        exact h higher lower rfl rfl
      replace hx : r.outline.Gives place x := hx
      rw [Raw.outline_of_isLeaf hr] at hx
      cases x with
      | none => cases hx
      | some u =>
        obtain ⟨rfl, _⟩ := Prod.mk.inj (Multiset.mem_singleton.mp hx)
        have hmap : (Raw.map higher).outline.Gives [] none := Raw.outline_map higher ▸ RawMap.nil_mem_maps higher
        exact absurd hmap.decides hnot

/-- A value laid over another gives what it gave, and of the other what it does not decide. -/
theorem Raw.outline_over (v : Raw) (hv : v.Distinct) {below : Option Raw} (hb : ∀ r, below = some r → r.Distinct) :
    (v.over below).outline.Overlays (outlineOf below) v.outline := by
  by_cases hmaps : ∃ higher lower, v = .map higher ∧ below = some (.map lower)
  · obtain ⟨higher, lower, hhigher, rfl⟩ := hmaps
    have hdistinct : RawMap.Distinct higher := RawMap.distinct_map.mp (hhigher ▸ hv)
    have hlower : RawMap.Distinct lower := RawMap.distinct_map.mp (hb _ rfl)
    rw [hhigher, Raw.over, Raw.outline_map, Raw.outline_map]
    show Outline.Overlays _ (Raw.outline (.map lower)) _
    rw [Raw.outline_map]
    refine RawMap.outline_merge hdistinct hlower ?_
    intro d hd below hb
    have hweight := Raw.weight_lt_of_mem_entries hd
    exact Raw.outline_over d.2 (hdistinct.of_mem hd) hb
  · exact Raw.overlays_of_not_maps v fun higher lower hhigher hlower => hmaps ⟨higher, lower, hhigher, hlower⟩
termination_by v.weight
decreasing_by
  rw [hhigher, Raw.weight]
  omega

end LayeredConfig
