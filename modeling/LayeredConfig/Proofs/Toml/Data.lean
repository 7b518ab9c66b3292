import LayeredConfig.Proofs.Tree.LooseLayers
import LayeredConfig.Proofs.Value.Data
import LayeredConfig.Toml.Document
/-!
# What a document can hold

Whatever is read from a document is data (`Toml.parseBytes_isData`): no value in it is absent, and every key of every
table is a text that stands for one entry. Each reader of a part hands on data if the readers that it calls do; the
tables are changed at one place at a time, which keeps them data (`Toml.changeTable_isData`).
-/
namespace LayeredConfig

/-! ## Entries of data -/

namespace Raw.IsData

variable {m : RawMap} {v : Raw}

theorem empty : IsData (.map []) := .map (by simp) .nil (by simp)

theorem get? (h : IsData (.map m)) {k : Key} (hg : m.get? k = some v) : v.IsData := by
  obtain ⟨l, _, hmem⟩ := RawMap.exists_mem_of_get? hg
  exact h.entries (l, v) hmem

theorem insert (h : IsData (.map m)) (k : String) (hv : v.IsData) : IsData (.map (m.insert k v)) := by
  have hdistinct := (RawMap.distinct_map.mp h.distinct).insert (.text k) hv.distinct
  refine .map ?_ (RawMap.distinct_iff.mp hdistinct).1 ?_
  · intro e he
    rcases RawMap.mem_insert he with hk | ⟨w, hw⟩
    · exact ⟨k, hk⟩
    · exact h.texts (e.1, w) hw
  · intro e he
    rcases RawMap.mem_or_same_of_mem_insert he with hold | ⟨_, hnew⟩
    · exact h.entries e hold
    · exact hnew ▸ hv

end Raw.IsData

namespace Toml

variable {α β : Type}

theorem bind_eq_ok_iff {x : Parsed α} {f : α → Parsed β} {b : β} :
    (x >>= f) = .ok b ↔ ∃ a, x = .ok a ∧ f a = .ok b := by
  cases x <;> simp [bind, Except.bind]

theorem map_eq_ok_iff {x : Parsed α} {f : α → β} {b : β} : x.map f = .ok b ↔ ∃ a, x = .ok a ∧ f a = b := by
  cases x <;> simp [Except.map]

theorem found_eq_ok_iff {x : Option α} {a : α} : found x = .ok a ↔ x = some a := by
  cases x <;> simp [found]

/-! ## Scalars -/

theorem truth?_isData {cs rest : List Char} {v : Raw} (h : truth? cs = some (v, rest)) : v.IsData := by
  unfold truth? at h
  split at h <;> cases h <;> exact .scalar _

theorem moment?_isData {cs rest : List Char} {v : Raw} (h : moment? cs = some (.ok (v, rest))) : v.IsData := by
  unfold moment? at h
  split at h
  · split at h
    · split at h <;> cases h <;> exact .foreign _
    · cases h
  · obtain ⟨more, _, heq⟩ := Option.map_eq_some_iff.mp h
    cases heq
    exact .foreign _

theorem based?_isData {base : Nat} {cs rest : List Char} {v : Raw} (h : based? base cs = some (v, rest)) :
    v.IsData := by
  unfold based? at h
  simp only at h
  split at h <;> cases h
  exact .scalar _

theorem whole_isData {negative : Bool} {digits : List Char} {v : Raw} (h : whole negative digits = .ok v) :
    v.IsData := by
  unfold whole at h
  split at h <;> cases h
  exact .scalar _

theorem decimal?_isData {cs rest : List Char} {v : Raw} (h : decimal? cs = some (.ok (v, rest))) : v.IsData := by
  unfold decimal? at h
  simp only [Option.bind_eq_bind, Option.bind_eq_some_iff] at h
  obtain ⟨⟨digits, cs⟩, _, h⟩ := h
  simp only at h
  split at h
  · cases h
    exact .scalar _
  · split at h
    · obtain ⟨n, hn, heq⟩ := map_eq_ok_iff.mp (Option.some.inj h)
      cases heq
      exact whole_isData hn
    · cases h
      exact .scalar _

theorem number?_isData {cs rest : List Char} {v : Raw} (h : number? cs = some (.ok (v, rest))) : v.IsData := by
  unfold number? at h
  simp only at h
  split at h
  · rename_i n hn
    cases h
    split at hn
    · exact based?_isData hn
    · exact based?_isData hn
    · exact based?_isData hn
    · cases hn
  · exact decimal?_isData h

theorem named?_isData {cs rest : List Char} {v : Raw} (h : named? cs = some (v, rest)) : v.IsData := by
  unfold named? at h
  simp only at h
  split at h <;> cases h <;> exact .scalar _

theorem atom_isData {cs rest : List Char} {v : Raw} (h : atom cs = .ok (v, rest)) : v.IsData := by
  unfold atom at h
  split at h
  · rename_i b hb
    cases h
    exact truth?_isData hb
  · split at h
    · rename_i m hm
      cases h
      exact moment?_isData hm
    · split at h
      · rename_i n hn
        cases h
        exact number?_isData hn
      · exact named?_isData (found_eq_ok_iff.mp h)

/-! ## Tables -/

/-- Whether a change of a table keeps it data. -/
def KeepsData (change : RawMap → Option RawMap) : Prop :=
  ∀ ⦃m r⦄, Raw.IsData (.map m) → change m = some r → Raw.IsData (.map r)

theorem some_keepsData : KeepsData some := by
  intro m r hm h
  cases h
  exact hm

theorem writeNew_keepsData (key : String) {v : Raw} (hv : v.IsData) : KeepsData (writeNew key v) := by
  intro m r hm h
  rw [writeNew] at h
  split at h <;> cases h
  exact hm.insert key hv

theorem appendTable_keepsData (key : String) : KeepsData (appendTable key) := by
  intro m r hm h
  rw [appendTable] at h
  split at h
  · cases h
    exact hm.insert key (.list (by simpa using .empty))
  · rename_i items hitems
    cases h
    refine hm.insert key (.list ?_)
    rw [List.forall_mem_append]
    exact ⟨(hm.get? hitems).items, by simpa using .empty⟩
  · cases h

theorem changeTable_isData {throughArrays : Bool} {change : RawMap → Option RawMap} (hchange : KeepsData change)
    (place : List String) : KeepsData (changeTable throughArrays change place) := by
  induction place with
  | nil => exact hchange
  | cons key rest ih =>
    intro m r hm h
    rw [changeTable] at h
    split at h
    · obtain ⟨t, ht, rfl⟩ := Option.map_eq_some_iff.mp h
      exact hm.insert key (ih .empty ht)
    · rename_i inner hinner
      obtain ⟨t, ht, rfl⟩ := Option.map_eq_some_iff.mp h
      exact hm.insert key (ih (hm.get? hinner) ht)
    · rename_i items hitems
      have hdata := (hm.get? hitems).items
      split at h
      · cases h
      · split at h
        · rename_i inner hlast
          obtain ⟨t, ht, rfl⟩ := Option.map_eq_some_iff.mp h
          refine hm.insert key (.list ?_)
          rw [List.forall_mem_append]
          refine ⟨fun v hv => hdata v (List.dropLast_subset items hv), ?_⟩
          simpa using ih (hdata _ (List.mem_of_getLast? hlast)) ht
        · cases h
    · cases h

/-! ## Values -/

mutual

theorem value_isData : (fuel : Nat) → {cs rest : List Char} → {v : Raw} → value fuel cs = .ok (v, rest) → v.IsData
  | 0, _, _, _, h => by
    rw [value] at h
    cases h
  | fuel + 1, cs, rest, v, h => by
    rw [value.eq_def] at h
    simp only at h
    split at h
    · obtain ⟨inside, _, h⟩ := bind_eq_ok_iff.mp h
      obtain ⟨⟨items, behind⟩, hitems, h⟩ := bind_eq_ok_iff.mp h
      cases h
      exact .list (elements_isData fuel hitems)
    · obtain ⟨⟨table, behind⟩, htable, h⟩ := bind_eq_ok_iff.mp h
      cases h
      exact inlineTable_isData fuel htable
    · split at h
      · obtain ⟨⟨text, behind⟩, _, h⟩ := bind_eq_ok_iff.mp h
        cases h
        exact .scalar _
      · exact atom_isData h
    · cases h

theorem elements_isData : (fuel : Nat) → {cs rest : List Char} → {items : List Raw} →
    elements fuel cs = .ok (items, rest) → ∀ v ∈ items, v.IsData
  | 0, _, _, _, h => by
    rw [elements] at h
    cases h
  | fuel + 1, cs, rest, items, h => by
    rw [elements.eq_def] at h
    simp only at h
    split at h
    · cases h
      simp
    · obtain ⟨⟨v, behind⟩, hv, h⟩ := bind_eq_ok_iff.mp h
      obtain ⟨filled, _, h⟩ := bind_eq_ok_iff.mp h
      split at h
      · cases h
        simpa using value_isData fuel hv
      · obtain ⟨next, _, h⟩ := bind_eq_ok_iff.mp h
        obtain ⟨⟨more, last⟩, hmore, h⟩ := bind_eq_ok_iff.mp h
        cases h
        exact List.forall_mem_cons.mpr ⟨value_isData fuel hv, elements_isData fuel hmore⟩
      · cases h

theorem inlineTable_isData : (fuel : Nat) → {cs rest : List Char} → {m : RawMap} →
    inlineTable fuel cs = .ok (m, rest) → Raw.IsData (.map m)
  | 0, _, _, _, h => by
    rw [inlineTable] at h
    cases h
  | fuel + 1, cs, rest, m, h => by
    rw [inlineTable] at h
    split at h
    · cases h
      exact .empty
    · exact pairs_isData fuel .empty h

theorem pairs_isData : (fuel : Nat) → {table : RawMap} → {closed : List (List String)} → {cs rest : List Char} →
    {m : RawMap} → Raw.IsData (.map table) → pairs fuel table closed cs = .ok (m, rest) → Raw.IsData (.map m)
  | 0, _, _, _, _, _, _, h => by
    rw [pairs] at h
    cases h
  | fuel + 1, table, closed, cs, rest, m, htable, h => by
    rw [pairs] at h
    obtain ⟨⟨key, behind⟩, _, h⟩ := bind_eq_ok_iff.mp h
    obtain ⟨marked, _, h⟩ := bind_eq_ok_iff.mp h
    obtain ⟨⟨v, last⟩, hv, h⟩ := bind_eq_ok_iff.mp h
    simp only at h
    split at h
    · cases h
    · obtain ⟨written, hwritten, h⟩ := bind_eq_ok_iff.mp h
      have hdata : Raw.IsData (.map written) :=
        changeTable_isData (writeNew_keepsData _ (value_isData fuel hv)) _ htable (found_eq_ok_iff.mp hwritten)
      split at h
      · cases h
        exact hdata
      · exact pairs_isData fuel hdata h
      · cases h

end

/-! ## Documents -/

namespace Document

variable {d d' : Document}

theorem openTable_isData {place : List String} (hd : Raw.IsData (.map d.data)) (h : d.openTable place = some d') :
    Raw.IsData (.map d'.data) := by
  rw [openTable] at h
  split at h
  · cases h
  · obtain ⟨data, hdata, rfl⟩ := Option.map_eq_some_iff.mp h
    exact changeTable_isData some_keepsData place hd hdata

theorem openElement_isData {place : List String} (hd : Raw.IsData (.map d.data)) (h : d.openElement place = some d') :
    Raw.IsData (.map d'.data) := by
  rw [openElement] at h
  simp only at h
  split at h
  · cases h
  · obtain ⟨data, hdata, rfl⟩ := Option.map_eq_some_iff.mp h
    exact changeTable_isData (appendTable_keepsData _) _ hd hdata

theorem write_isData {key : List String} {v : Raw} (hd : Raw.IsData (.map d.data)) (hv : v.IsData)
    (h : d.write key v = some d') : Raw.IsData (.map d'.data) := by
  rw [write] at h
  split at h
  · cases h
  · obtain ⟨data, hdata, rfl⟩ := Option.map_eq_some_iff.mp h
    exact changeTable_isData (writeNew_keepsData _ hv) _ hd hdata

theorem statement_isData {cs rest : List Char} (hd : Raw.IsData (.map d.data))
    (h : d.statement cs = .ok (d', rest)) : Raw.IsData (.map d'.data) := by
  unfold statement at h
  split at h
  · obtain ⟨⟨place, behind⟩, _, h⟩ := Option.bind_eq_some_iff.mp (found_eq_ok_iff.mp h)
    obtain ⟨opened, hopened, h⟩ := Option.bind_eq_some_iff.mp h
    obtain ⟨first, _, h⟩ := Option.bind_eq_some_iff.mp h
    obtain ⟨second, _, h⟩ := Option.bind_eq_some_iff.mp h
    cases h
    exact openElement_isData hd hopened
  · obtain ⟨⟨place, behind⟩, _, h⟩ := Option.bind_eq_some_iff.mp (found_eq_ok_iff.mp h)
    obtain ⟨opened, hopened, h⟩ := Option.bind_eq_some_iff.mp h
    obtain ⟨first, _, h⟩ := Option.bind_eq_some_iff.mp h
    cases h
    exact openTable_isData hd hopened
  · split at h
    · obtain ⟨⟨key, behind⟩, _, h⟩ := bind_eq_ok_iff.mp h
      obtain ⟨marked, _, h⟩ := bind_eq_ok_iff.mp h
      obtain ⟨⟨v, last⟩, hv, h⟩ := bind_eq_ok_iff.mp h
      obtain ⟨written, hwritten, h⟩ := bind_eq_ok_iff.mp h
      cases h
      exact write_isData hd (value_isData _ hv) (found_eq_ok_iff.mp hwritten)
    · cases h
      exact hd
  · cases h
    exact hd

theorem lines_isData (fuel : Nat) {d : Document} {cs : List Char} (hd : Raw.IsData (.map d.data))
    (h : d.lines fuel cs = .ok d') : Raw.IsData (.map d'.data) := by
  induction fuel generalizing d cs with
  | zero => cases h
  | succ fuel ih =>
    rw [lines] at h
    obtain ⟨⟨next, rest⟩, hnext, h⟩ := bind_eq_ok_iff.mp h
    have hdata := statement_isData hd hnext
    obtain ⟨behind, _, h⟩ := bind_eq_ok_iff.mp h
    split at h
    · cases h
      exact hdata
    · split at h
      · exact ih hdata h
      · cases h

end Document

theorem parseBytes_isData {bytes : ByteArray} {m : RawMap} (h : parseBytes bytes = .ok m) : Raw.IsData (.map m) := by
  obtain ⟨text, _, h⟩ := bind_eq_ok_iff.mp h
  obtain ⟨d, hd, rfl⟩ := map_eq_ok_iff.mp h
  exact Document.lines_isData _ .empty hd

end Toml
end LayeredConfig
