import LayeredConfig.Proofs.Settings
import LayeredConfig.Proofs.Source.Failures
import Mathlib.Data.List.Chain
import Mathlib.Data.List.DropRight
/-!
# Names of tables

The settings of a loader check the name of a table as a whole: the blanks at its ends are dropped, and no piece between
its dots may be empty. A source reads the name as a path, none of whose segments begins or ends with a blank. What the
settings let through can therefore be read exactly when no blank of the name stands beside a dot
(`table_setting_is_readable_iff`); with a blank there, every reading of the file fails for the name.
-/
namespace LayeredConfig
namespace Text

/-! ## Blanks at the ends of a text -/

theorem toList_strip (s : String) : (strip s).toList = (s.toList.dropWhile isBlank).rdropWhile isBlank := by
  rw [strip, stripOf, String.toList_ofList, List.rdropWhile]

theorem not_isBlank_of_head_strip {s : String} : ∀ c ∈ (strip s).toList.head?, ¬ isBlank c := by
  intro c hc
  rw [toList_strip] at hc
  obtain ⟨back, hback⟩ := List.rdropWhile_prefix isBlank (s.toList.dropWhile isBlank)
  have hfirst : (s.toList.dropWhile isBlank).head? = some c := by
    rw [← hback, List.head?_append, Option.mem_def.mp hc, Option.some_or]
  have hnot := List.head?_dropWhile_not isBlank s.toList
  rw [hfirst] at hnot
  simpa using hnot

theorem not_isBlank_of_getLast_strip {s : String} : ∀ c ∈ (strip s).toList.getLast?, ¬ isBlank c := by
  intro c hc
  rw [toList_strip] at hc
  obtain ⟨hne, rfl⟩ := List.mem_getLast?_eq_getLast hc
  exact List.rdropWhile_last_not isBlank _ hne

theorem strip_eq_self_iff {s : String} :
    strip s = s ↔ (∀ c ∈ s.toList.head?, ¬ isBlank c) ∧ ∀ c ∈ s.toList.getLast?, ¬ isBlank c := by
  constructor
  · intro h
    exact ⟨h ▸ not_isBlank_of_head_strip (s := s), h ▸ not_isBlank_of_getLast_strip (s := s)⟩
  · intro h
    obtain ⟨hhead, hlast⟩ := h
    have hdrop : s.toList.dropWhile isBlank = s.toList := by
      refine List.dropWhile_eq_self_iff.mpr fun hpos => hhead _ ?_
      rw [List.head?_eq_getElem?, Option.mem_def, List.getElem?_eq_getElem hpos]
    apply String.toList_inj.mp
    rw [toList_strip, hdrop]
    exact List.rdropWhile_eq_self_iff.mpr fun hne => hlast _ (List.getLast?_eq_some_getLast hne)

theorem strip_strip (s : String) : strip (strip s) = strip s :=
  strip_eq_self_iff.mpr ⟨not_isBlank_of_head_strip, not_isBlank_of_getLast_strip⟩

/-! ## Blanks beside dots -/

/-- Whether of two characters none is a dot while the other one is blank. -/
def Fits (a b : Char) : Prop := ¬ (a = '.' ∧ isBlank b) ∧ ¬ (isBlank a ∧ b = '.')

instance (a b : Char) : Decidable (Fits a b) := inferInstanceAs (Decidable (_ ∧ _))

/-- Whether no blank of a text stands right before or right after a dot. -/
def Tight (text : String) : Prop := text.toList.IsChain Fits

instance (text : String) : Decidable (Tight text) := inferInstanceAs (Decidable (List.IsChain _ _))

variable {cs : List Char}

theorem fits_dot_left {c : Char} : Fits '.' c ↔ ¬ isBlank c := by
  have hdot : isBlank '.' = false := by decide
  simp [Fits, hdot]

theorem fits_dot_right {c : Char} : Fits c '.' ↔ ¬ isBlank c := by
  have hdot : isBlank '.' = false := by decide
  simp [Fits, hdot]

/-- With a dot on either side no blank stands beside a dot when none does without them, and none stands at an end. -/
theorem isChain_between_dots_iff :
    ('.' :: (cs ++ ['.'])).IsChain Fits ↔
      ((∀ c ∈ cs.head?, ¬ isBlank c) ∧ ∀ c ∈ cs.getLast?, ¬ isBlank c) ∧ cs.IsChain Fits := by
  cases cs with
  | nil =>
    simp [fits_dot_left, show isBlank '.' = false by decide]
  | cons c rest =>
    rw [List.isChain_cons, List.isChain_append]
    simp only [List.head?_append, List.head?_cons, Option.some_or, Option.mem_def, Option.some.injEq, forall_eq',
      fits_dot_left, fits_dot_right, List.isChain_singleton, true_and]
    tauto

/-- Pieces joined with dots have no blank beside a dot when none of them has. -/
theorem isChain_intercalate_iff {parts : List (List Char)} (hne : parts ≠ []) :
    ('.' :: (['.'].intercalate parts ++ ['.'])).IsChain Fits ↔ ∀ p ∈ parts, ('.' :: (p ++ ['.'])).IsChain Fits := by
  induction parts with
  | nil => exact absurd rfl hne
  | cons first rest ih =>
    cases rest with
    | nil => simp
    | cons next more =>
      rw [List.intercalate_cons_cons, List.append_assoc, List.append_assoc, List.singleton_append,
        List.isChain_cons_split, ih (List.cons_ne_nil next more), List.forall_mem_cons (a := first)]

/-- A piece without dots neither begins nor ends with a blank when none stands beside the dots around it. -/
theorem isChain_piece_iff (h : '.' ∉ cs) :
    ('.' :: (cs ++ ['.'])).IsChain Fits ↔ strip (String.ofList cs) = String.ofList cs := by
  have hinner : cs.IsChain Fits := by
    refine (List.pairwise_of_forall_mem_list fun a ha b hb => ?_).isChain
    exact ⟨fun hdot => h (hdot.1 ▸ ha), fun hdot => h (hdot.2 ▸ hb)⟩
  rw [isChain_between_dots_iff, strip_eq_self_iff, String.toList_ofList, and_iff_left hinner]

/-- A text with no blank at its ends has none beside a dot when no piece of it begins or ends with one. -/
theorem tight_iff_not_isPadded {text : String} (h : strip text = text) : Tight text ↔ ¬ IsPadded text := by
  have hparts := isChain_intercalate_iff (splitAt_ne_nil '.' text.toList)
  rw [intercalate_splitAt, isChain_between_dots_iff, and_iff_right (strip_eq_self_iff.mp h)] at hparts
  rw [Tight, hparts, IsPadded, dottedPieces]
  simp only [List.mem_map, not_exists, not_and, not_not, forall_exists_index, and_imp, forall_apply_eq_imp_iff₂]
  exact forall₂_congr fun piece hpiece => isChain_piece_iff (of_mem_splitAt hpiece).1

end Text

/-! ## What the settings let through -/

theorem Settings.table_of_validate {fields : Pairs} {s : Settings} (h : validate fields = .ok s) {text table : String}
    (hfield : fields.get? "table" = some (.scalar (.text text))) (htable : s.table = some table) :
    table = Text.strip text ∧ ∀ piece ∈ dottedPieces table, piece ≠ "" := by
  obtain ⟨_, _, h⟩ := Outcome.bind_eq_ok_iff.mp h
  obtain ⟨_, hsetting, h⟩ := Outcome.bind_eq_ok_iff.mp h
  obtain ⟨_, _, h⟩ := Outcome.bind_eq_ok_iff.mp h
  obtain ⟨_, _, h⟩ := Outcome.bind_eq_ok_iff.mp h
  split at h <;> cases h
  obtain rfl := htable
  rw [about_eq_ok_iff, hfield, tableSetting, tableName, nonBlank?] at hsetting
  by_cases hblank : Text.strip text = ""
  · rw [if_pos hblank] at hsetting
    cases hsetting
  · rw [if_neg hblank] at hsetting
    simp only [bind, Except.bind] at hsetting
    split at hsetting
    · cases hsetting
    · rename_i hpieces
      obtain rfl := Option.some.inj (Except.ok.inj hsetting)
      refine ⟨rfl, ?_⟩
      rintro _ hpiece rfl
      exact hpieces (List.contains_iff_mem.mpr hpiece)

/-! ## Which paths a reading calls padded -/

section Padded

variable {path : String}

theorem Path.parse_of_parse_padded {text : String} (h : parse text = .error (.paddedPath path)) :
    parse path = .error (.paddedPath path) := by
  have hrefused := (parse_eq_error_iff.mp h).2
  rw [refusal] at hrefused
  split at hrefused <;> cases hrefused
  exact h

theorem expand_padded {m : RawMap} (h : expand m = .error (.paddedPath path)) :
    Path.parse path = .error (.paddedPath path) := by
  rcases expand_error h with hordered | ⟨⟨k, v⟩, _, hfreeze | hkey⟩
  · rw [orderedByKey] at hordered
    split at hordered <;> cases hordered
  · rcases freeze_fails v hfreeze with hkind | ⟨hlong, _⟩
    · cases hkind
    · cases hlong
  · cases k with
    | text s => exact Path.parse_of_parse_padded hkey
    | _ => cases hkey

namespace FileSource

variable {f : FileSource}

theorem handOut_padded {state : FileState} (h : f.handOut state = .error (.paddedPath path)) :
    Path.parse path = .error (.paddedPath path) := by
  cases fails_of_handOut h with
  | table _ h =>
    obtain ⟨name, hname | htable⟩ := extractTable_error h
    · exact Path.parse_of_parse_padded hname
    · cases htable
  | tree _ _ h =>
    rcases treeOfData_error h with hmap | ⟨m, _, h⟩
    · cases hmap
    · exact expand_padded h

theorem fetch_of_padded (htable : f.table = some path) (h : IsPadded path) {w : World} {bytes : ByteArray}
    (hread : w.files.read f.path = .content bytes) {data : RawMap} (hparse : Toml.parseBytes bytes = .ok data) :
    f.fetch w = (.error (.paddedPath path), w) := by
  have hne : path ≠ "" := by
    rintro rfl
    exact absurd h (by decide)
  have hextract : extractTable (.map data) (some path) = .error (.paddedPath path) := by
    rw [extractTable, Option.filter_some, if_pos (decide_eq_true hne)]
    simp only [Path.parse_of_padded h]
    rfl
  have htree : f.treeOfBytes bytes = .error (.paddedPath path) := by
    rw [treeOfBytes, hparse, htable]
    simp only [hextract]
    rfl
  rw [fetch, hread]
  simp only [htree]

end FileSource

end Padded

namespace Settings

/-- A file source that settings describe reads their table. -/
theorem table_of_source {s : Settings} {w : World} {f : FileSource} (h : (s.source w).1 = .file f) :
    f.table = s.table := by
  rw [source] at h
  split at h <;> cases h
  rfl

/-- **A table that the settings let through can be read unless a blank stands beside a dot.** Let the table be given as
    a text, let the settings be accepted, and let them name a table. The name spells a path exactly when no blank of
    it stands right before or after a dot. Then no reading of the file that the settings describe fails because the
    name is padded; otherwise every reading that understands the file does, and leaves the world as it was. -/
theorem table_setting_is_readable_iff {fields : Pairs} {s : Settings} (h : validate fields = .ok s)
    {text table : String} (hfield : fields.get? "table" = some (.scalar (.text text)))
    (htable : s.table = some table) :
    ((∃ p, Path.parse table = .ok p) ↔ Text.Tight table) ∧
      ∀ w f, (s.source w).1 = .file f →
        (Text.Tight table → ∀ w', (f.fetch w').1 ≠ .error (.paddedPath table)) ∧
        (¬ Text.Tight table → ∀ w' bytes data, w'.files.read f.path = .content bytes →
          Toml.parseBytes bytes = .ok data → f.fetch w' = (.error (.paddedPath table), w')) := by
  obtain ⟨hstrip, hpieces⟩ := table_of_validate h hfield htable
  have hself : Text.strip table = table := by rw [hstrip, Text.strip_strip]
  have htight := Text.tight_iff_not_isPadded hself
  have hreadable : (∃ p, Path.parse table = .ok p) ↔ Text.Tight table := by
    rw [Path.exists_parse_iff hpieces, htight]
  refine ⟨hreadable, fun w f hf => ⟨?_, ?_⟩⟩
  · intro ht w' hfails
    obtain ⟨p, hp⟩ := hreadable.mpr ht
    rw [FileSource.fetch_fst, Outcome.map_eq_error_iff] at hfails
    have hpadded := FileSource.handOut_padded hfails
    rw [hp] at hpadded
    cases hpadded
  · intro ht w' bytes data hread hparse
    have hpadded : IsPadded table := not_not.mp fun hnot => ht (htight.mpr hnot)
    exact FileSource.fetch_of_padded ((table_of_source hf).trans htable) hpadded hread hparse

/-- The blanks at the ends of a table's name are dropped, and the table can be read. -/
theorem table_with_blanks_around_it_is_readable :
    ∃ s f, validate [(.scalar (.text "config_file"), .scalar (.text "d.toml")),
        (.scalar (.text "table"), .scalar (.text " a.b "))] = .ok s ∧
      s.table = some "a.b" ∧ (∃ p, Path.parse "a.b" = .ok p) ∧ (s.source (.ofEnvironment [])).1 = .file f ∧
      ∀ w, (f.fetch w).1 ≠ .error (.paddedPath "a.b") := by
  have hvalid : validate [(.scalar (.text "config_file"), .scalar (.text "d.toml")),
      (.scalar (.text "table"), .scalar (.text " a.b "))] =
      .ok ⟨some "d.toml", some "a.b", Double.zero false, true⟩ := rfl
  obtain ⟨hiff, hfetch⟩ := table_setting_is_readable_iff hvalid rfl rfl
  have htight : Text.Tight "a.b" := by decide
  exact ⟨_, _, hvalid, rfl, hiff.mpr htight, rfl, (hfetch _ _ rfl).1 htight⟩

/-- The settings let a table through that has a blank behind its dot, and no fetch can read it. -/
theorem table_with_a_blank_behind_its_dot_is_let_through :
    ∃ s f w, validate [(.scalar (.text "config_file"), .scalar (.text "d.toml")),
        (.scalar (.text "table"), .scalar (.text "a. b"))] = .ok s ∧
      s.table = some "a. b" ∧ Path.parse "a. b" = .error (.paddedPath "a. b") ∧
      s.source ⟨[(⟨.above 0, ["d.toml"]⟩, .file "x = 1\n".toUTF8)], [], [], []⟩ = (.file f, w) ∧
      f.fetch w = (.error (.paddedPath "a. b"), w) := by
  have hvalid : validate [(.scalar (.text "config_file"), .scalar (.text "d.toml")),
      (.scalar (.text "table"), .scalar (.text "a. b"))] =
      .ok ⟨some "d.toml", some "a. b", Double.zero false, true⟩ := rfl
  have hparse : Toml.parseBytes "x = 1\n".toUTF8 = .ok [(.text "x", .scalar (.int 1))] := rfl
  have hpadded : IsPadded "a. b" := by decide
  exact ⟨_, _, _, hvalid, rfl, rfl, rfl, FileSource.fetch_of_padded rfl hpadded rfl hparse⟩

end Settings
end LayeredConfig
