import LayeredConfig.Proofs.Ordered
import LayeredConfig.Proofs.Outcome
import LayeredConfig.Proofs.Value.Frozen
import LayeredConfig.Value.Freeze
import Mathlib.Data.List.TakeWhile
/-!
# What freezing gives

Freezing a raw value whose maps have each key once gives a frozen value (`freeze_frozen`), and so does freezing a
raw tree (`freezeTree_frozen`). Freezing what is frozen already changes nothing (`freeze_thaw`,
`freezeTree_thaw`): a stored value, handed in again, is stored as it is.
-/
namespace LayeredConfig

mutual

/-- Whether every map in a raw value has each of its keys once, as maps do. -/
def Raw.Distinct : Raw → Prop
  | .list items => Raw.DistinctItems items
  | .map entries => RawMap.Distinct entries
  | _ => True

def Raw.DistinctItems : List Raw → Prop
  | [] => True
  | v :: rest => v.Distinct ∧ Raw.DistinctItems rest

def RawMap.Distinct : RawMap → Prop
  | [] => True
  | (k, v) :: rest => (∀ e ∈ rest, ¬ k.same e.1) ∧ v.Distinct ∧ RawMap.Distinct rest

end

@[simp] theorem Raw.distinct_scalar (s : Scalar) : (Raw.scalar s).Distinct := by simp [Raw.Distinct]

@[simp] theorem Raw.distinct_unset : Raw.unset.Distinct := by simp [Raw.Distinct]

namespace Key

theorem same_comm (a b : Key) : a.same b = b.same a := by
  cases a <;> cases b <;> simp [same, number?, eq_comm]

theorem split?_text_eq_none_iff {s : String} : (Key.text s).split? = none ↔ '.' ∉ s.toList := by
  have hnil : s.toList.dropWhile (· ≠ '.') = [] ↔ '.' ∉ s.toList := by
    rw [List.dropWhile_eq_nil_iff]
    constructor
    · intro h hdot
      simpa using h '.' hdot
    · intro h c hc
      exact decide_eq_true fun heq => h (heq ▸ hc)
  rw [← hnil]
  simp only [split?]
  split
  · rename_i h
    exact ⟨fun _ => h, fun _ => rfl⟩
  · rename_i h
    rw [h]
    simp

theorem split?_head {k : Key} {head rest : String} (h : k.split? = some (head, rest)) :
    (Key.text head).split? = none := by
  cases k with
  | text s =>
    simp only [split?] at h
    split at h
    · cases h
    · cases h
      rw [split?_text_eq_none_iff, String.toList_ofList]
      intro hdot
      simpa using List.mem_takeWhile_imp hdot
  | _ => simp [split?] at h

end Key

/-! ## Nesting keeps keys apart -/

namespace RawMap

@[simp] theorem distinct_nil : Distinct [] := by rw [Distinct]; trivial

theorem distinct_cons {k : Key} {v : Raw} {rest : RawMap} :
    Distinct ((k, v) :: rest) ↔ (∀ e ∈ rest, ¬ k.same e.1) ∧ v.Distinct ∧ Distinct rest := by
  rw [Distinct]

@[simp] theorem distinct_map {m : RawMap} : (Raw.map m).Distinct ↔ Distinct m := by rw [Raw.Distinct]

theorem distinct_iff {m : RawMap} :
    Distinct m ↔ m.Pairwise (fun a b => ¬ a.1.same b.1) ∧ ∀ e ∈ m, e.2.Distinct := by
  induction m with
  | nil => simp
  | cons e rest ih =>
    obtain ⟨k, v⟩ := e
    rw [distinct_cons, ih, List.pairwise_cons, List.forall_mem_cons]
    constructor
    · intro h
      obtain ⟨hk, hv, hrest, hvals⟩ := h
      exact ⟨⟨hk, hrest⟩, hv, hvals⟩
    · intro h
      obtain ⟨⟨hk, hrest⟩, hv, hvals⟩ := h
      exact ⟨hk, hv, hrest, hvals⟩

theorem Distinct.perm {m n : RawMap} (h : Distinct m) (hp : m.Perm n) : Distinct n := by
  rw [distinct_iff] at h ⊢
  refine ⟨hp.pairwise h.1 ?_, fun e he => h.2 e (hp.mem_iff.mpr he)⟩
  intro a b hab
  rwa [Key.same_comm]

theorem Distinct.of_mem {m : RawMap} (h : Distinct m) {e : Key × Raw} (he : e ∈ m) : e.2.Distinct :=
  (distinct_iff.mp h).2 e he

theorem Distinct.of_get? {m : RawMap} (h : Distinct m) {k : Key} {v : Raw} (hg : m.get? k = some v) :
    v.Distinct := by
  induction m with
  | nil => simp [get?] at hg
  | cons e rest ih =>
    obtain ⟨l, w⟩ := e
    obtain ⟨_, hw, hrest⟩ := distinct_cons.mp h
    rw [get?] at hg
    split at hg
    · cases hg
      exact hw
    · exact ih hrest hg

theorem mem_insert {m : RawMap} {k : Key} {v : Raw} {e : Key × Raw} (h : e ∈ m.insert k v) :
    e.1 = k ∨ ∃ w, (e.1, w) ∈ m := by
  induction m with
  | nil =>
    rw [insert, List.mem_singleton] at h
    exact .inl (by rw [h])
  | cons d rest ih =>
    obtain ⟨l, w⟩ := d
    rw [insert] at h
    split at h
    · rcases List.mem_cons.mp h with h | h
      · exact .inr ⟨w, by simp [h]⟩
      · exact .inr ⟨e.2, List.mem_cons_of_mem _ h⟩
    · rcases List.mem_cons.mp h with h | h
      · exact .inr ⟨w, by simp [h]⟩
      · rcases ih h with h | h
        · exact .inl h
        · obtain ⟨u, hu⟩ := h
          exact .inr ⟨u, List.mem_cons_of_mem _ hu⟩

theorem Distinct.insert {m : RawMap} (h : Distinct m) (k : Key) {v : Raw} (hv : v.Distinct) :
    Distinct (m.insert k v) := by
  induction m with
  | nil => exact distinct_cons.mpr ⟨by simp, hv, distinct_nil⟩
  | cons e rest ih =>
    obtain ⟨l, w⟩ := e
    obtain ⟨hl, hw, hrest⟩ := distinct_cons.mp h
    rw [RawMap.insert]
    split
    · exact distinct_cons.mpr ⟨hl, hv, hrest⟩
    · rename_i hne
      refine distinct_cons.mpr ⟨?_, hw, ih hrest⟩
      intro d hd
      rcases mem_insert hd with hd | hd
      · rwa [hd]
      · obtain ⟨u, hu⟩ := hd
        exact hl (d.1, u) hu

end RawMap

mutual

theorem combine_distinct {label : Key} {a c : Raw} (ha : a.Distinct) : (b : Raw) → b.Distinct →
    combine label a b = .ok c → c.Distinct
  | .map entries, hb, h => by
    rw [combine.eq_def] at h
    simp only at h
    split at h
    · obtain ⟨r, hr, rfl⟩ := Outcome.map_eq_ok_iff.mp h
      exact RawMap.distinct_map.mpr
        (combineEntries_distinct (RawMap.distinct_map.mp ha) entries (RawMap.distinct_map.mp hb) hr)
    · cases h
  | .null, _, h => by simp [combine] at h
  | .unset, _, h => by simp [combine] at h
  | .scalar _, _, h => by simp [combine] at h
  | .list _, _, h => by simp [combine] at h
  | .option _, _, h => by simp [combine] at h
  | .foreign _, _, h => by simp [combine] at h

theorem combineEntries_distinct {label : Key} {out r : RawMap} (ho : RawMap.Distinct out) : (entries : RawMap) →
    RawMap.Distinct entries → combineEntries label out entries = .ok r → RawMap.Distinct r
  | [], _, h => by
    rw [combineEntries] at h
    cases h
    exact ho
  | (k, v) :: rest, he, h => by
    have ⟨_, hv, hrest⟩ := RawMap.distinct_cons.mp he
    rw [combineEntries] at h
    split at h
    · exact combineEntries_distinct (ho.insert k hv) rest hrest h
    · rename_i w hw
      split at h
      · cases h
      · rename_i u hu
        exact combineEntries_distinct (ho.insert k (combine_distinct (ho.of_get? hw) v hv hu)) rest hrest h

end

namespace RawMap

/-- Whether no key of a raw map has a dot to be cut at. -/
def Undotted (m : RawMap) : Prop := ∀ e ∈ m, e.1.split? = none

theorem nestEntry_split? (k : Key) (v : Raw) : (nestEntry k v).1.split? = none := by
  rw [nestEntry]
  split
  · rename_i head rest h
    exact Key.split?_head h
  · rename_i h
    exact h

theorem nestEntry_distinct {k : Key} {v : Raw} (h : v.Distinct) : (nestEntry k v).2.Distinct := by
  rw [nestEntry]
  split
  · exact distinct_map.mpr (distinct_cons.mpr ⟨by simp, h, distinct_nil⟩)
  · exact h

theorem Undotted.insert {m : RawMap} (h : Undotted m) {k : Key} (hk : k.split? = none) (v : Raw) :
    Undotted (m.insert k v) := by
  intro e he
  rcases mem_insert he with he | he
  · rwa [he]
  · obtain ⟨w, hw⟩ := he
    exact h (e.1, w) hw

theorem addNested_nested {label : Key} {out r : RawMap} {k : Key} {v : Raw} (hv : v.Distinct)
    (ho : Distinct out ∧ Undotted out) (h : addNested label out (k, v) = .ok r) : Distinct r ∧ Undotted r := by
  have hkey := nestEntry_split? k v
  have hval := nestEntry_distinct (k := k) hv
  simp only [addNested] at h
  split at h
  · cases h
    exact ⟨ho.1.insert _ hval, ho.2.insert hkey _⟩
  · rename_i w hw
    obtain ⟨u, hu, rfl⟩ := Outcome.map_eq_ok_iff.mp h
    exact ⟨ho.1.insert _ (combine_distinct (ho.1.of_get? hw) _ hval hu), ho.2.insert hkey _⟩

theorem addAllNested_nested {label : Key} {r : RawMap} (entries : RawMap) (he : ∀ e ∈ entries, e.2.Distinct)
    {out : RawMap} (ho : Distinct out ∧ Undotted out) (h : addAllNested label out entries = .ok r) :
    Distinct r ∧ Undotted r := by
  induction entries generalizing out with
  | nil =>
    rw [addAllNested] at h
    cases h
    exact ho
  | cons e rest ih =>
    obtain ⟨hv, hrest⟩ := List.forall_mem_cons.mp he
    rw [addAllNested] at h
    split at h
    · cases h
    · rename_i out' hadd
      exact ih hrest (addNested_nested hv ho hadd) h

theorem nestDotted_nested {label : Key} {m r : RawMap} (hm : Distinct m) (h : nestDotted label m = .ok r) :
    Distinct r ∧ Undotted r := by
  rw [nestDotted] at h
  split at h
  · have hsorted : Distinct m.sortedByText := hm.perm (sortOrdered_perm m).symm
    exact addAllNested_nested _ (distinct_iff.mp hsorted).2 ⟨distinct_nil, by simp [Undotted]⟩ h
  · rename_i hany
    cases h
    refine ⟨hm, ?_⟩
    intro e he
    by_contra hne
    exact hany (List.any_eq_true.mpr ⟨e, he, Option.isSome_iff_ne_none.mpr hne⟩)

end RawMap

/-! ## The steps of freezing -/

theorem freeze_map_of_nested {label : Key} {m r : RawMap} (h : RawMap.nestDotted label m = .ok r) :
    freeze label (.map m) = (freezeEntries label r.sortedByText).map .map := by
  rw [freeze.eq_def]
  simp only
  split
  · rename_i f hf
    cases h.symm.trans hf
  · rename_i r' hr'
    cases h.symm.trans hr'
    rfl

theorem freeze_map_eq_ok_iff {label : Key} {m : RawMap} {w : Value} :
    freeze label (.map m) = .ok w ↔
      ∃ r t, RawMap.nestDotted label m = .ok r ∧ freezeEntries label r.sortedByText = .ok t ∧ w = .map t := by
  constructor
  · intro h
    rw [freeze.eq_def] at h
    simp only at h
    split at h
    · cases h
    · rename_i r hr
      obtain ⟨t, ht, rfl⟩ := Outcome.map_eq_ok_iff.mp h
      exact ⟨r, t, hr, ht, rfl⟩
  · intro h
    obtain ⟨r, t, hr, ht, rfl⟩ := h
    rw [freeze_map_of_nested hr, ht]
    rfl

theorem freezeTree_eq_ok_iff {what : String} {m : RawMap} {t : Tree} :
    freezeTree what (.map m) = .ok t ↔ freeze what (.map m) = .ok (.map t) := by
  rw [freeze_map_eq_ok_iff, freezeTree]
  constructor
  · intro h
    split at h
    · cases h
    · rename_i r hr
      exact ⟨r, t, hr, h, rfl⟩
  · intro h
    obtain ⟨r, u, hr, hu, heq⟩ := h
    cases heq
    rw [hr]
    exact hu

theorem freezeEntries_eq_ok_iff {label : Key} {entries : RawMap} {t : Tree} :
    freezeEntries label entries = .ok t ↔
      List.Forall₂ (fun e d => e.1 = .text d.1 ∧ d.1 ≠ "" ∧ freeze (label.child e.1) e.2 = .ok d.2) entries t := by
  induction entries generalizing t with
  | nil =>
    rw [freezeEntries, List.forall₂_nil_left_iff]
    constructor
    · intro h
      cases h
      rfl
    · intro h
      rw [h]
  | cons e rest ih =>
    obtain ⟨k, v⟩ := e
    rw [freezeEntries.eq_def, List.forall₂_cons_left_iff]
    simp only
    constructor
    · intro h
      split at h
      · split at h
        · cases h
        · rename_i s hs
          split at h
          · cases h
          · rename_i w hw
            obtain ⟨u, hu, rfl⟩ := Outcome.map_eq_ok_iff.mp h
            exact ⟨(s, w), u, ⟨rfl, hs, hw⟩, ih.mp hu, rfl⟩
      · cases h
    · intro h
      obtain ⟨⟨s, w⟩, u, ⟨rfl, hs, hw⟩, hrest, rfl⟩ := h
      dsimp only at hs hw ⊢
      rw [if_neg hs, hw, ih.mpr hrest]
      rfl

/-! ## What is frozen has the stored form -/

theorem Raw.weight_lt_of_mem_entries {m : RawMap} {e : Key × Raw} (h : e ∈ m) :
    e.2.weight < Raw.weightEntries m := by
  induction m with
  | nil => cases h
  | cons d rest ih =>
    obtain ⟨k, v⟩ := d
    rw [Raw.weightEntries]
    rcases List.mem_cons.mp h with h | h
    · rw [h]
      show v.weight < _
      omega
    · have := ih h
      omega

/-- Nesting makes new maps, but none that weighs more than the map it began with. -/
theorem RawMap.weight_lt_of_nestDotted {label : Key} {m r : RawMap} (hr : nestDotted label m = .ok r)
    {e : Key × Raw} (he : e ∈ r) : e.2.weight < (Raw.map m).weight := by
  have hentry := Raw.weight_lt_of_mem_entries he
  have hnest := RawMap.weight_nestDotted hr
  rw [Raw.weight]
  omega

theorem Raw.weight_lt_of_mem_items {items : List Raw} {v : Raw} (h : v ∈ items) :
    v.weight < (Raw.list items).weight := by
  induction items with
  | nil => cases h
  | cons w rest ih =>
    rw [Raw.weight, Raw.weightItems]
    rcases List.mem_cons.mp h with h | h
    · rw [h]
      omega
    · have hrest := ih h
      rw [Raw.weight] at hrest
      omega

theorem Raw.distinct_of_mem_items {items : List Raw} (hd : Raw.DistinctItems items) {v : Raw} (h : v ∈ items) :
    v.Distinct := by
  induction items with
  | nil => cases h
  | cons w rest ih =>
    rw [Raw.DistinctItems] at hd
    rcases List.mem_cons.mp h with h | h
    · exact h ▸ hd.1
    · exact ih hd.2 h

theorem frozenItems_of_freezeItems {label : Key} {i : Nat} {items : List Raw} {out : List Value}
    (h : freezeItems label i items = .ok out) (hv : ∀ v ∈ items, ∀ l w, freeze l v = .ok w → w.Frozen) :
    Value.FrozenItems out := by
  induction items generalizing i out with
  | nil =>
    rw [freezeItems] at h
    cases h
    rw [Value.FrozenItems]
    trivial
  | cons v rest ih =>
    obtain ⟨hv, hrest⟩ := List.forall_mem_cons.mp hv
    rw [freezeItems] at h
    split at h
    · cases h
    · cases h
    · rename_i w hne hw
      obtain ⟨u, hu, rfl⟩ := Outcome.map_eq_ok_iff.mp h
      rw [Value.FrozenItems]
      exact ⟨fun heq => hne (heq ▸ rfl), hv _ w hw, ih hu hrest⟩

namespace RawMap

theorem frozen_of_freezeEntries {label : Key} {m : RawMap} {t : Tree} (hm : Distinct m ∧ Undotted m)
    (h : freezeEntries label m.sortedByText = .ok t) (hv : ∀ e ∈ m, ∀ l w, freeze l e.2 = .ok w → w.Frozen) :
    Tree.Frozen t := by
  rw [freezeEntries_eq_ok_iff] at h
  have hmem : ∀ {e}, e ∈ m.sortedByText ↔ e ∈ m := (sortOrdered_perm m).mem_iff
  -- all keys that froze are texts, and different keys have different texts
  have hne : m.Pairwise fun a b => a.1.plain ≠ b.1.plain := by
    refine (distinct_iff.mp hm.1).1.imp_of_mem ?_
    intro a b ha hb hab heq
    obtain ⟨c, _, hc, _⟩ := exists_of_mem_left h (hmem.mpr ha)
    obtain ⟨d, _, hd, _⟩ := exists_of_mem_left h (hmem.mpr hb)
    rw [hc, hd] at hab heq
    exact hab (decide_eq_true heq)
  have hasc := sortOrdered_ascending (fun e : Key × Raw => e.1.plain) hne
  have hkeys : m.sortedByText.map (fun e => e.1.plain) = t.map (·.1) := by
    rw [← List.forall₂_eq_eq_eq, List.forall₂_map_left_iff, List.forall₂_map_right_iff]
    exact h.imp fun e d hed => congrArg Key.plain hed.1
  rw [Tree.frozen_iff]
  constructor
  · have hlt : (t.map (·.1)).Pairwise (· < ·) := by
      rw [← hkeys, List.pairwise_map]
      exact hasc
    exact List.pairwise_map.mp hlt
  · intro d hd
    obtain ⟨e, he, hkey, hne, hf⟩ := exists_of_mem_right h hd
    have hcut : (Key.text d.1).split? = none := hkey ▸ hm.2 e (hmem.mp he)
    exact ⟨⟨hne, Key.split?_text_eq_none_iff.mp hcut⟩, hv e (hmem.mp he) _ _ hf⟩

end RawMap

theorem freeze_scalar {label : Key} {s : Scalar} {w : Value} (h : freeze label (.scalar s) = .ok w) :
    w = .scalar s ∧ s.fits = true := by
  cases s with
  | int n =>
    rw [freeze] at h
    split at h
    · rename_i hfits
      cases h
      exact ⟨rfl, hfits⟩
    · cases h
  | _ =>
    rw [freeze.eq_def] at h
    cases h
    exact ⟨rfl, rfl⟩

theorem freeze_frozen {label : Key} : (v : Raw) → {w : Value} → v.Distinct → freeze label v = .ok w → w.Frozen
  | .null, w, _, h => by
    rw [freeze] at h
    cases h
    rw [Value.Frozen]
    trivial
  | .unset, w, _, h => by
    rw [freeze] at h
    cases h
    rw [Value.Frozen]
    trivial
  | .scalar s, w, _, h => by
    obtain ⟨hw, hfits⟩ := freeze_scalar h
    rw [hw, Value.Frozen]
    exact hfits
  | .list items, w, hd, h => by
    rw [freeze] at h
    obtain ⟨out, hout, rfl⟩ := Outcome.map_eq_ok_iff.mp h
    rw [Value.Frozen]
    refine frozenItems_of_freezeItems hout ?_
    intro u hu l x hx
    have hweight := Raw.weight_lt_of_mem_items hu
    rw [Raw.Distinct] at hd
    exact freeze_frozen u (Raw.distinct_of_mem_items hd hu) hx
  | .map entries, w, hd, h => by
    obtain ⟨r, t, hr, ht, rfl⟩ := freeze_map_eq_ok_iff.mp h
    have hnested := RawMap.nestDotted_nested (RawMap.distinct_map.mp hd) hr
    refine Tree.frozen_map.mpr (RawMap.frozen_of_freezeEntries hnested ht ?_)
    intro e he l x hx
    have hweight := RawMap.weight_lt_of_nestDotted hr he
    exact freeze_frozen e.2 (hnested.1.of_mem he) hx
  | .option o, w, _, h => by simp [freeze] at h
  | .foreign f, w, _, h => by simp [freeze] at h
termination_by v => v.weight

theorem freezeTree_frozen {what : String} {v : Raw} {t : Tree} (hd : v.Distinct)
    (h : freezeTree what v = .ok t) : t.Frozen := by
  cases v with
  | map entries => exact Tree.frozen_map.mp (freeze_frozen _ hd (freezeTree_eq_ok_iff.mp h))
  | _ => cases h

/-! ## What is frozen stays as it is -/

theorem RawMap.nestDotted_of_undotted {m : RawMap} (h : m.Undotted) (label : Key) : nestDotted label m = .ok m := by
  rw [nestDotted, if_neg]
  intro hany
  obtain ⟨e, he, hsome⟩ := List.any_eq_true.mp hany
  rw [h e he] at hsome
  cases hsome

theorem RawMap.forall₂_of_freeze {m : RawMap} {label : Key} {t : Tree} (hu : m.Undotted)
    (h : freeze label (.map m) = .ok (.map t)) :
    List.Forall₂ (fun e d => e.1 = .text d.1 ∧ d.1 ≠ "" ∧ freeze (label.child e.1) e.2 = .ok d.2) m.sortedByText t := by
  obtain ⟨r, u, hr, hentries, heq⟩ := freeze_map_eq_ok_iff.mp h
  cases heq
  rw [nestDotted_of_undotted hu] at hr
  cases hr
  exact freezeEntries_eq_ok_iff.mp hentries

theorem RawMap.texts_of_freeze {m : RawMap} {label : Key} {t : Tree} (hu : m.Undotted)
    (h : freeze label (.map m) = .ok (.map t)) : ∀ e ∈ m, ∃ s, e.1 = .text s := by
  intro e he
  obtain ⟨d, _, hd, _⟩ := exists_of_mem_left (forall₂_of_freeze hu h) ((sortOrdered_perm m).mem_iff.mpr he)
  exact ⟨d.1, hd⟩

theorem freeze_singleton {label : Key} {s : String} {v : Raw} {w : Value} (hs : IsKey s)
    (h : freeze (label.child s) v = .ok w) : freeze label (.map [(.text s, v)]) = .ok (.map [(s, w)]) := by
  have hundotted : RawMap.Undotted [(.text s, v)] := by
    intro e he
    rw [List.mem_singleton.mp he]
    exact Key.split?_text_eq_none_iff.mpr hs.2
  exact freeze_map_eq_ok_iff.mpr ⟨_, [(s, w)], RawMap.nestDotted_of_undotted hundotted label,
    freezeEntries_eq_ok_iff.mpr (.cons ⟨rfl, hs.1, h⟩ .nil), rfl⟩

namespace Tree

theorem mem_thawEntries {t : Tree} {e : Key × Raw} (h : e ∈ Value.thawEntries t) :
    ∃ d ∈ t, e = (.text d.1, d.2.thaw) := by
  induction t with
  | nil => cases h
  | cons d rest ih =>
    obtain ⟨k, v⟩ := d
    rw [Value.thawEntries] at h
    rcases List.mem_cons.mp h with h | h
    · exact ⟨(k, v), List.mem_cons_self, h⟩
    · obtain ⟨d, hd, he⟩ := ih h
      exact ⟨d, List.mem_cons_of_mem _ hd, he⟩

theorem Frozen.nestDotted_thawEntries {t : Tree} (h : Frozen t) (label : Key) :
    RawMap.nestDotted label (Value.thawEntries t) = .ok (Value.thawEntries t) := by
  apply RawMap.nestDotted_of_undotted
  intro e he
  obtain ⟨d, hd, rfl⟩ := mem_thawEntries he
  exact Key.split?_text_eq_none_iff.mpr (h.isKey_of_mem hd).2

theorem thawEntries_eq_map (t : Tree) : Value.thawEntries t = t.map fun d => (.text d.1, d.2.thaw) := by
  induction t with
  | nil => rfl
  | cons d rest ih => rw [Value.thawEntries, ih, List.map_cons]

theorem Frozen.sortedByText_thawEntries {t : Tree} (h : Frozen t) :
    RawMap.sortedByText (Value.thawEntries t) = Value.thawEntries t := by
  apply sortOrdered_eq_self
  rw [thawEntries_eq_map, List.pairwise_map]
  refine (frozen_iff.mp h).1.imp ?_
  intro a b hab hba
  exact lt_asymm hab (of_decide_eq_true hba)

end Tree

mutual

theorem freeze_thaw (label : Key) : (v : Value) → v.Frozen → freeze label v.thaw = .ok v
  | .unset, _ => by rw [Value.thaw, freeze]
  | .scalar s, h => by
    rw [Value.Frozen] at h
    rw [Value.thaw]
    cases s with
    | int n => rw [freeze, if_pos h]
    | _ => rw [freeze]; intro n hn; cases hn
  | .list items, h => by
    rw [Value.Frozen] at h
    rw [Value.thaw, freeze, freezeItems_thaw label 0 items h]
    rfl
  | .map t, h => by
    have ht := Tree.frozen_map.mp h
    rw [Value.thaw]
    refine freeze_map_eq_ok_iff.mpr ⟨_, t, ht.nestDotted_thawEntries label, ?_, rfl⟩
    rw [ht.sortedByText_thawEntries]
    exact freezeEntries_thaw label t ht

theorem freezeItems_thaw (label : Key) (i : Nat) : (items : List Value) → Value.FrozenItems items →
    freezeItems label i (Value.thawItems items) = .ok items
  | [], _ => by rw [Value.thawItems, freezeItems]
  | v :: rest, h => by
    rw [Value.FrozenItems] at h
    obtain ⟨hne, hv, hrest⟩ := h
    rw [Value.thawItems, freezeItems, freeze_thaw _ v hv, freezeItems_thaw label (i + 1) rest hrest]
    cases v with
    | unset => exact absurd rfl hne
    | _ => rfl

theorem freezeEntries_thaw (label : Key) : (t : List (String × Value)) → Tree.Frozen t →
    freezeEntries label (Value.thawEntries t) = .ok t
  | [], _ => by rw [Value.thawEntries, freezeEntries]
  | (k, v) :: rest, h => by
    obtain ⟨hk, _, hv, hrest⟩ := Tree.frozen_cons.mp h
    rw [Value.thawEntries, freezeEntries.eq_def]
    simp only
    rw [if_neg hk.1, freeze_thaw _ v hv, freezeEntries_thaw label rest hrest]
    rfl

end

theorem freezeTree_thaw (what : String) {t : Tree} (h : t.Frozen) :
    freezeTree what (.map (Value.thawEntries t)) = .ok t := by
  rw [freezeTree_eq_ok_iff, ← Value.thaw]
  exact freeze_thaw _ (.map t) (Tree.frozen_map.mpr h)

/-- A raw map that is a stored tree but for its dotted keys freezes to the tree. -/
theorem freeze_of_nested {label : Key} {m : RawMap} {t : Tree}
    (h : RawMap.nestDotted label m = .ok (Value.thawEntries t)) (ht : t.Frozen) : freeze label (.map m) = .ok (.map t) := by
  rw [freeze_map_of_nested h, ht.sortedByText_thawEntries, freezeEntries_thaw label t ht]
  rfl

end LayeredConfig
