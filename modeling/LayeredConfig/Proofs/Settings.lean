import LayeredConfig.Proofs.Outcome
import LayeredConfig.Proofs.Tree.LooseLayers
import LayeredConfig.Settings
/-!
# What settings are made of

Settings that cannot be read are wrong as configuration (`Settings.ofEnvironment_fails`). The file that they name is one
that the environment or the caller gave, in its plain form, so no character comes into its name that was in none of
those (`Settings.nulFree_of_ofEnvironment`).
-/
namespace LayeredConfig

/-! ## Names without NUL -/

/-- Whether a text is without the character NUL, which no file can have in its name. -/
def NulFree (s : String) : Prop := '\x00' ∉ s.toList

instance (s : String) : Decidable (NulFree s) := inferInstanceAs (Decidable (_ ∉ _))

theorem mem_of_mem_intercalate {c : Char} {sep : List Char} {parts : List (List Char)} (h : c ∈ sep.intercalate parts) :
    c ∈ sep ∨ ∃ part ∈ parts, c ∈ part := by
  induction parts with
  | nil => cases h
  | cons first rest ih =>
    cases rest with
    | nil => exact .inr ⟨first, List.mem_cons_self, by simpa using h⟩
    | cons next more =>
      rw [List.intercalate_cons_cons, List.append_assoc, List.mem_append, List.mem_append] at h
      rcases h with h | h | h
      · exact .inr ⟨first, List.mem_cons_self, h⟩
      · exact .inl h
      · exact (ih h).imp_right fun ⟨part, hpart, hc⟩ => ⟨part, List.mem_cons_of_mem first hpart, hc⟩

namespace NulFree

variable {s t : String}

theorem stripOf (h : NulFree s) (drop : Char → Bool) : NulFree (Text.stripOf drop s) := by
  intro hmem
  rw [Text.stripOf, String.toList_ofList, List.mem_reverse] at hmem
  exact h (List.dropWhile_subset _ (List.mem_reverse.mp (List.dropWhile_subset _ hmem)))

theorem nonBlank? (h : NulFree s) (ht : Settings.nonBlank? s = some t) : NulFree t := by
  rw [Settings.nonBlank?] at ht
  split at ht <;> cases ht
  exact h.stripOf Text.isBlank

theorem nameParts (h : NulFree s) : ∀ part ∈ LayeredConfig.nameParts s, NulFree part := by
  intro part hpart hmem
  obtain ⟨piece, hpiece, rfl⟩ := List.mem_map.mp (List.mem_of_mem_filter hpart)
  rw [String.toList_ofList] at hmem
  exact h ((Text.of_mem_splitAt hpiece).2 hmem)

theorem nameRoot (s : String) : NulFree (LayeredConfig.nameRoot s) := by
  rw [LayeredConfig.nameRoot]
  split <;> decide

theorem plainName (h : NulFree s) : NulFree (LayeredConfig.plainName s) := by
  rw [LayeredConfig.plainName]
  split
  · decide
  · rw [NulFree, String.toList_append, String.toList_intercalate, List.mem_append]
    rintro (hroot | hparts)
    · exact nameRoot s hroot
    · rcases mem_of_mem_intercalate hparts with hslash | ⟨part, hpart, hmem⟩
      · exact absurd hslash (by decide)
      · obtain ⟨name, hname, rfl⟩ := List.mem_map.mp hpart
        exact h.nameParts name hname hmem

end NulFree

/-! ## Fields -/

theorem Pairs.exists_mem_of_get? {pairs : Pairs} {name : String} {v : Raw} (h : pairs.get? name = some v) :
    ∃ e ∈ pairs, e.1.isText name = true ∧ e.2 = v := by
  rw [get?, List.findRev?_eq_find?_reverse] at h
  obtain ⟨e, he, rfl⟩ := Option.map_eq_some_iff.mp h
  exact ⟨e, List.mem_reverse.mp (List.mem_of_find?_eq_some he), by simpa using List.find?_some he, rfl⟩

theorem RawMap.mem_of_pairs_get? {m : RawMap} {name : String} {v : Raw} (h : m.pairs.get? name = some v) :
    (Key.text name, v) ∈ m := by
  obtain ⟨e, he, hname, rfl⟩ := Pairs.exists_mem_of_get? h
  obtain ⟨⟨k, w⟩, hmem, rfl⟩ := List.mem_map.mp he
  cases k with
  | text s =>
    obtain rfl : s = name := by simpa [Key.toRaw, Raw.isText] using hname
    exact hmem
  | _ => cases hname

namespace Settings

variable {f : Failure}

theorem mem_override {overrides fields : RawMap} {e : Key × Raw} (h : e ∈ override fields overrides) :
    e ∈ fields ∨ ∃ o ∈ overrides, e.1.same o.1 ∧ e.2 = o.2 := by
  induction overrides generalizing fields with
  | nil => exact .inl h
  | cons o rest ih =>
    rcases ih h with hfirst | ⟨p, hp, hsame⟩
    · simp only at hfirst
      split at hfirst
      · exact .inl hfirst
      · exact (RawMap.mem_or_same_of_mem_insert hfirst).imp_right fun hsame => ⟨o, List.mem_cons_self, hsame⟩
    · exact .inr ⟨p, List.mem_cons_of_mem o hp, hsame⟩

theorem exists_of_mem_environmentFields {environment : List (String × String)} {e : Key × Raw}
    (h : e ∈ environmentFields environment) : ∃ x ∈ environment, e.2 = .scalar (.text x.2) := by
  obtain ⟨⟨field, name⟩, _, he⟩ := List.mem_filterMap.mp h
  obtain ⟨x, hx, rfl⟩ := Option.map_eq_some_iff.mp he
  exact ⟨x, List.mem_of_find?_eq_some hx, rfl⟩

theorem about_fails {α : Type} {field : String} {x : Except SettingProblem α} (h : about field x = .error f) :
    f.isOfConfiguration = true := by
  cases x <;> cases h
  rfl

theorem about_eq_ok_iff {α : Type} {field : String} {x : Except SettingProblem α} {a : α} :
    about field x = .ok a ↔ x = .ok a := by
  cases x <;> simp [about]

theorem validate_fails {fields : Pairs} (h : validate fields = .error f) : f.isOfConfiguration = true := by
  rcases Outcome.bind_eq_error_iff.mp h with h | ⟨_, _, h⟩
  · exact about_fails h
  rcases Outcome.bind_eq_error_iff.mp h with h | ⟨_, _, h⟩
  · exact about_fails h
  rcases Outcome.bind_eq_error_iff.mp h with h | ⟨_, _, h⟩
  · exact about_fails h
  rcases Outcome.bind_eq_error_iff.mp h with h | ⟨_, _, h⟩
  · exact about_fails h
  split at h <;> cases h
  rfl

theorem configFile_of_validate {fields : Pairs} {s : Settings} (h : validate fields = .ok s) {file : String}
    (hfile : s.configFile = some file) :
    ∃ text name, fields.get? "config_file" = some (.scalar (.text text)) ∧ nonBlank? text = some name ∧
      file = plainName name := by
  obtain ⟨configFile, hfield, h⟩ := Outcome.bind_eq_ok_iff.mp h
  obtain ⟨_, _, h⟩ := Outcome.bind_eq_ok_iff.mp h
  obtain ⟨_, _, h⟩ := Outcome.bind_eq_ok_iff.mp h
  obtain ⟨_, _, h⟩ := Outcome.bind_eq_ok_iff.mp h
  split at h <;> cases h
  obtain ⟨name, rfl, hplain⟩ := Option.map_eq_some_iff.mp hfile
  rw [about_eq_ok_iff] at hfield
  unfold fileSetting at hfield
  split at hfield
  · cases hfield
  · cases hfield
  · rename_i text htext
    exact ⟨text, name, htext, Except.ok.inj hfield, hplain.symm⟩
  · cases hfield

theorem ofEnvironment_fails {environment : List (String × String)} {overrides : RawMap}
    (h : ofEnvironment environment overrides = .error f) : f.isOfConfiguration = true := validate_fails h

theorem nulFree_of_ofEnvironment {environment : List (String × String)} {overrides : RawMap}
    (henvironment : ∀ e ∈ environment, NulFree e.2)
    (hoverrides : ∀ o ∈ overrides, o.1.same "config_file" → ∀ text, o.2 = .scalar (.text text) → NulFree text)
    {s : Settings} (h : ofEnvironment environment overrides = .ok s) {file : String} (hfile : s.configFile = some file) :
    NulFree file := by
  obtain ⟨text, name, hfield, hname, rfl⟩ := configFile_of_validate h hfile
  have htext : NulFree text := by
    rcases mem_override (RawMap.mem_of_pairs_get? hfield) with hmem | ⟨o, ho, hsame, hvalue⟩
    · obtain ⟨x, hx, heq⟩ := exists_of_mem_environmentFields hmem
      cases heq
      exact henvironment x hx
    · exact hoverrides o ho (Key.same_comm _ o.1 ▸ hsame) text hvalue.symm
  exact (htext.nonBlank? hname).plainName

end Settings
end LayeredConfig
