import LayeredConfig.Proofs.Profile.Failures
import LayeredConfig.Proofs.Toml.Data
/-!
# What reading a file gives

A file that can have a name and holds no number that is too long is handed out as a tree without tombstones, or fails
with what is wrong with the configuration (`FileSource.handOut_sound`, `FileSource.handOut_fails`). Such a tree resolves
to profiles every entry of which can be written (`Config.entries_render`), or is wrong as configuration.
-/
namespace LayeredConfig

variable {f : Failure}

/-! ## Tables of data -/

theorem Outcome.foldlM_keeps {α β : Type} {step : β → α → Outcome β} {P : β → Prop}
    (hstep : ∀ a x b, P a → step a x = .ok b → P b) {xs : List α} {a b : β} (ha : P a)
    (h : xs.foldlM step a = .ok b) : P b := by
  induction xs generalizing a with
  | nil =>
    cases h
    exact ha
  | cons x rest ih =>
    rw [List.foldlM_cons] at h
    obtain ⟨c, hc, h⟩ := Outcome.bind_eq_ok_iff.mp h
    exact ih (hstep a x c ha hc) h

theorem extractTable_keeps {P : Raw → Prop} (hempty : P (.map []))
    (hget : ∀ (m : RawMap) k v, P (.map m) → m.get? k = some v → P v) {data r : Raw} {table : Option String}
    (hdata : P data) (h : extractTable data table = .ok r) : P r := by
  rw [extractTable] at h
  split at h
  · cases h
    exact hdata
  · obtain ⟨path, _, h⟩ := Outcome.bind_eq_ok_iff.mp h
    obtain ⟨inner, hinner, h⟩ := Outcome.bind_eq_ok_iff.mp h
    have hkeeps : P inner := by
      refine Outcome.foldlM_keeps ?_ hdata hinner
      intro node segment next hnode hstep
      split at hstep
      · rename_i entries
        cases hstep
        cases hfound : RawMap.get? entries segment with
        | none => exact hempty
        | some v => exact hget entries segment v hnode hfound
      · cases hstep
    split at h <;> cases h
    exact hkeeps

theorem RawMap.hasLong_of_get? {m : RawMap} {k : Key} {v : Raw} (h : m.get? k = some v) (hv : v.HasLong) :
    RawMap.HasLong m := by
  obtain ⟨l, _, hmem⟩ := RawMap.exists_mem_of_get? h
  exact RawMap.hasLong_iff_mem.mpr ⟨(l, v), hmem, hv⟩

/-- Whether no whole number in a file has more decimal digits than are read or written. -/
def Toml.WithinDigits (bytes : ByteArray) : Prop :=
  (∀ digits, parseBytes bytes ≠ .error (.numeralTooLong digits)) ∧
    ∀ m, parseBytes bytes = .ok m → ¬ RawMap.HasLong m

theorem treeOfData_fails {what : String} {data : Raw} (hdata : data.IsData) (hlong : ¬ data.HasLong)
    (h : treeOfData what data = .error f) : f.isOfConfiguration = true := by
  rcases treeOfData_error h with rfl | ⟨m, rfl, h⟩
  · rfl
  rcases expand_fails h with h | h | ⟨_, h⟩
  · rw [orderedByKey_of_texts hdata.texts] at h
    cases h
  · exact Failure.isOfConfiguration_of_isOfExpanding h
  · rw [Raw.HasLong] at hlong
    exact absurd h hlong

/-! ## Files -/

namespace FileSource

variable {s : FileSource} {bytes : ByteArray}

theorem data_of_treeOfBytes {made : Outcome Tree} (h : s.treeOfBytes bytes = .ok made) :
    ∃ (m : RawMap) (r : Raw), Toml.parseBytes bytes = .ok m ∧ extractTable (.map m) s.table = .ok r ∧ r.IsData ∧
      made = treeOfData s.path r := by
  rw [treeOfBytes] at h
  split at h
  · cases h
  · cases h
  · rename_i m hm
    obtain ⟨r, hr, rfl⟩ := Outcome.map_eq_ok_iff.mp h
    exact ⟨m, r, hm, hr, extractTable_keeps .empty (fun _ _ _ hm => hm.get?) (Toml.parseBytes_isData hm) hr, rfl⟩

theorem handOut_fails {state : FileState} (hname : state ≠ .unnameable)
    (hdigits : ∀ bytes, state = .content bytes → Toml.WithinDigits bytes) (h : s.handOut state = .error f) :
    f.isOfConfiguration = true := by
  cases fails_of_handOut h with
  | unnameable => exact absurd rfl hname
  | numeral hlong => exact absurd hlong ((hdigits _ rfl).1 _)
  | table _ h =>
    obtain ⟨name, hpath | rfl⟩ := extractTable_error h
    · exact Failure.isOfConfiguration_of_isOfExpanding (Path.parse_fails hpath)
    · rfl
  | @tree _ m r _ hm hr h =>
    have hdata : r.IsData := extractTable_keeps .empty (fun _ _ _ hm => hm.get?) (Toml.parseBytes_isData hm) hr
    have hlong : ¬ r.HasLong := by
      refine extractTable_keeps (P := fun v => ¬ v.HasLong) ?_ ?_ ?_ hr
      · simp [Raw.HasLong, RawMap.HasLong]
      · intro m k v hnot hfound hv
        rw [Raw.HasLong] at hnot
        exact hnot (RawMap.hasLong_of_get? hfound hv)
      · rw [Raw.HasLong]
        exact (hdigits _ rfl).2 m hm
    exact treeOfData_fails hdata hlong h
  | _ => rfl

theorem handOut_sound {state : FileState} {t : Tree} (h : s.handOut state = .ok t) :
    t.Frozen ∧ ¬ t.HasTombstone := by
  have hnothing : Tree.Frozen [] ∧ ¬ Tree.HasTombstone [] := ⟨Tree.frozen_nil, by simp [Tree.HasTombstone]⟩
  cases state with
  | missing =>
    rw [handOut] at h
    split at h <;> cases h
    exact hnothing
  | unnameable => cases h
  | unreadable problem => cases h
  | content bytes =>
    rw [handOut] at h
    split at h
    · cases h
    · rename_i made hmade
      obtain ⟨m, r, _, _, hdata, rfl⟩ := data_of_treeOfBytes hmade
      unfold treeOfData at h
      split at h
      · exact ⟨expand_frozen (RawMap.distinct_map.mp hdata.distinct) h, not_hasTombstone_of_expand hdata h⟩
      · cases h

end FileSource

/-! ## Entries -/

/-- Every entry of a profile of a tree without tombstones can be written. -/
theorem Config.entries_render {t : Tree} (ht : t.Frozen) (hnone : ¬ t.HasTombstone) {generation : Int}
    {config : Config} (hr : resolve (.tree t) generation = .ok config) {name : String} {snapshot : Snapshot}
    (h : config.profile name = .ok snapshot) {e : String × Value} (he : e ∈ snapshot.entries) :
    ∃ text, e.2.render = .ok text := by
  rw [Value.render_comes_out_iff]
  intro htombstone
  obtain ⟨u, hu, htree, hstems⟩ := exists_unpruned_of_profile ht hr h
  rw [Profile.entries, htree] at he
  obtain ⟨hfound, hleaf⟩ := (Tree.mem_flatten_iff hu.prune).mp he
  obtain ⟨hfound, hne⟩ := (Tree.find?_prune_iff hu hleaf).mp hfound
  obtain ⟨other, hother⟩ := hstems _ _ hfound hleaf hne
  have hmap : (Value.map t).find? other = some e.2 := by rw [Value.find?_map, hother]
  have htree := Value.hasTombstone_of_find? hmap htombstone
  rw [Value.HasTombstone] at htree
  exact hnone htree

end LayeredConfig
