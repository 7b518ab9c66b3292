import LayeredConfig.Profile.Basic
import LayeredConfig.Proofs.Profile.Equality
import LayeredConfig.Proofs.Tree.Order
import LayeredConfig.Proofs.Value.Fingerprint
import LayeredConfig.Proofs.Value.Kinds
/-!
# Comparing sections and profiles

The comparison key of an option tells exactly what a profile lists at the option and beneath it, and equality of
profiles tells exactly what they list anywhere: the paths and, under each of them, the value, of its own type at every
place inside it (`Profile.comparison_is_exact`). The entries of a section are those of the profile that the option
leads to, with the option's path cut off (`Tree.Frozen.mem_sectionEntries_iff`), and a section read as a map of
strings is nothing but these entries.
-/
namespace LayeredConfig

/-! ## The entries of a section -/

namespace Path

/-- The path of what stands at `rest` beneath an option; with no `rest` it is the option's own. -/
def beneath (o : Path) (rest : String) : String := if rest = "" then o.text else o.text ++ "." ++ rest

/-- Whether a path is the option's own, or leads on from it. -/
def Leads (o : Path) (path : String) : Prop := path = o.text ∨ ∃ rest, rest ≠ "" ∧ path = o.text ++ "." ++ rest

theorem leads_iff {o : Path} {path : String} : o.Leads path ↔ ∃ rest, path = o.beneath rest := by
  refine ⟨fun h => ?_, fun h => ?_⟩
  · rcases h with rfl | ⟨rest, hne, rfl⟩
    · exact ⟨"", (if_pos rfl).symm⟩
    · exact ⟨rest, (if_neg hne).symm⟩
  · obtain ⟨rest, rfl⟩ := h
    by_cases hne : rest = ""
    · exact .inl (if_pos hne)
    · exact .inr ⟨rest, hne, if_neg hne⟩

end Path

namespace Tree

variable {t below : Tree} {o : Path} {v x : Value}

theorem find?_of_lookup? {place : List String} (h : t.lookup? place = some v) : t.find? place = some v := by
  rw [lookup?] at h
  split at h
  · cases h
  · exact h

theorem Frozen.mem_flatten_beneath_iff (h : t.Frozen) (hbelow : t.find? o.segments = some (.map below)) {rest : String} :
    (rest, x) ∈ below.flatten ↔ (o.text ++ "." ++ rest, x) ∈ t.flatten := by
  have hfrozen : below.Frozen := frozen_map.mp (h.of_find? hbelow).1
  rw [mem_flatten_iff hfrozen, mem_flatten_iff h, dottedPieces_append, o.dottedPieces_text, find?_append, hbelow,
    Option.bind_some, Value.find?_map]

theorem Frozen.ne_empty_of_mem_flatten (h : t.Frozen) {path : String} (hx : (path, x) ∈ t.flatten) : path ≠ "" := by
  rintro rfl
  have hkey := (h.of_find? ((mem_flatten_iff h).mp hx).1).2 "" (by decide)
  exact hkey.1 rfl

/-- The entries of a section are those that the option leads to. -/
theorem Frozen.mem_sectionEntries_iff (h : t.Frozen) (hv : t.find? o.segments = some v) {rest : String} :
    (rest, x) ∈ sectionEntries v ↔ (o.beneath rest, x) ∈ t.flatten := by
  have hown : (o.text, x) ∈ t.flatten ↔ v = x ∧ x.isLeaf := by
    rw [mem_flatten_iff h, o.dottedPieces_text, hv, Option.some_inj]
  by_cases hleaf : v.isLeaf
  · have hentries : sectionEntries v = [("", v)] := by
      cases v with
      | map below => cases hleaf
      | _ => rfl
    rw [hentries, List.mem_singleton, Prod.mk.injEq, Path.beneath]
    split
    · rename_i hempty
      rw [hown, and_iff_right hempty, eq_comm]
      exact ⟨fun heq => ⟨heq, heq ▸ hleaf⟩, And.left⟩
    · rename_i hne
      rw [mem_flatten_iff h, dottedPieces_append, o.dottedPieces_text, find?_append, hv, Option.bind_some,
        Value.find?_of_isLeaf hleaf (dottedPieces_ne_nil rest)]
      simp [hne]
  · obtain ⟨below, rfl⟩ := Value.eq_map_of_not_isLeaf hleaf
    rw [sectionEntries, Path.beneath]
    split
    · rename_i hempty
      have hfrozen : below.Frozen := frozen_map.mp (h.of_find? hv).1
      rw [hown]
      refine iff_of_false (fun hx => hfrozen.ne_empty_of_mem_flatten hx hempty) fun hx => hleaf ?_
      rw [hx.1]
      exact hx.2
    · exact h.mem_flatten_beneath_iff hv

end Tree

/-! ## Listed entries -/

/-- Whether entries are listed as those of a frozen tree are: their paths ascend when they are compared key by key, and
    their values are frozen. -/
structure Listed (entries : List (String × Value)) : Prop where
  ascending : (entries.map fun e => dottedPieces e.1).Pairwise (· < ·)
  frozen : ∀ e ∈ entries, e.2.Frozen

theorem Tree.Frozen.listed {t : Tree} (h : t.Frozen) : Listed t.flatten where
  ascending := flatten_keys_ascending h
  frozen _ he := (h.of_find? ((mem_flatten_iff h).mp he).1).1

theorem Value.Frozen.listed {v : Value} (h : v.Frozen) : Listed (sectionEntries v) := by
  cases v with
  | map below => exact (Tree.frozen_map.mp h).listed
  | _ => exact ⟨List.pairwise_singleton _ _, by simpa [sectionEntries] using h⟩

namespace Listed

variable {as bs : List (String × Value)}

theorem same_iff (ha : Listed as) (hb : Listed bs) : Value.sameEntries as bs = true ↔ EntriesAgree as bs :=
  Value.sameEntries_iff_agree dottedPieces ha.ascending hb.ascending fun a hmem b hmem' =>
    Value.same_iff_agrees (ha.frozen a hmem) (hb.frozen b hmem')

theorem nodup (h : Listed as) : (as.map (·.1)).Nodup :=
  List.pairwise_map.mpr ((List.pairwise_map.mp h.ascending).imp fun hlt heq => hlt.ne (congrArg dottedPieces heq))

theorem fingerprint_same (ha : Listed as) (hb : Listed bs) :
    (Fingerprint.ofEntries as).same (Fingerprint.ofEntries bs) = Value.sameEntries as bs := by
  rw [Bool.eq_iff_iff, ha.same_iff hb]
  exact Fingerprint.same_ofEntries_iff hb.nodup fun a hmem b hmem' =>
    Value.fingerprint_same_iff (ha.frozen a hmem) (hb.frozen b hmem')

end Listed

/-! ## Profiles -/

namespace Profile

variable {p q : Profile} {o : Path}

/-- Whether two profiles list the same of some paths, and values under them that agree. -/
def AgreesOn (p q : Profile) (among : String → Prop) : Prop :=
  ∀ path, among path →
    ((∃ v, (path, v) ∈ p.entries) ↔ ∃ w, (path, w) ∈ q.entries) ∧
      ∀ v w, (path, v) ∈ p.entries → (path, w) ∈ q.entries → v.Agrees w

theorem agreesOn_leads_iff (hp : p.tree.Frozen) (hq : q.tree.Frozen) {v w : Value}
    (hv : p.tree.find? o.segments = some v) (hw : q.tree.find? o.segments = some w) :
    p.AgreesOn q o.Leads ↔ EntriesAgree (sectionEntries v) (sectionEntries w) := by
  simp only [AgreesOn, EntriesAgree, Path.leads_iff, entries, hp.mem_sectionEntries_iff hv,
    hq.mem_sectionEntries_iff hw, forall_exists_index, forall_eq_apply_imp_iff]

theorem exists_value_of_isDefined (h : p.isDefined o = true) :
    ∃ v, p.tree.find? o.segments = some v ∧ p.comparisonKey o = .ok (sectionEntries v) := by
  obtain ⟨v, hv⟩ := Option.isSome_iff_exists.mp h
  exact ⟨v, Tree.find?_of_lookup? hv, by rw [comparisonKey, value, hv]; rfl⟩

theorem mem_readLeaves_iff {path : String} {leaves : List (String × Value)} {m : List (Key × Scalar)}
    (h : Value.readLeaves path leaves = .ok m) {e : Key × Scalar} :
    e ∈ m ↔ ∃ key text, e = (.text key, .text text) ∧ (key, .scalar (.text text)) ∈ leaves := by
  obtain ⟨hraw, htexts⟩ := Value.readLeaves_eq_ok h
  have hmem : e ∈ m ↔ ∃ l ∈ leaves, (Key.text l.1, l.2.thaw) = (e.1, Raw.scalar e.2) := by
    rw [← List.mem_map (f := fun l : String × Value => (Key.text l.1, l.2.thaw)), ← hraw]
    exact (List.mem_map_of_injective fun a b hab => by cases a; cases b; cases hab; rfl).symm
  rw [hmem]
  refine ⟨fun hl => ?_, fun he => ?_⟩
  · obtain ⟨⟨key, v⟩, hl, heq⟩ := hl
    obtain ⟨text, rfl⟩ := htexts _ hl
    obtain ⟨hkey, hscalar⟩ := Prod.mk.inj heq
    exact ⟨key, text, Prod.ext hkey.symm (Raw.scalar.inj hscalar).symm, hl⟩
  · obtain ⟨key, text, rfl, hl⟩ := he
    exact ⟨_, hl, by rw [Value.thaw]⟩

/-- A section read as a map of strings is the entries beneath the option, all of them texts. -/
theorem mem_stringMap_iff (hp : p.tree.Frozen) {r : Reading} (h : p.get .stringMap o = .ok r) :
    ∃ m, r = .map m ∧ (m.map (·.1)).Nodup ∧
      ∀ e, e ∈ m ↔ ∃ key text, e = (.text key, .text text) ∧
        (o.text ++ "." ++ key, .scalar (.text text)) ∈ p.entries := by
  cases hv : p.tree.lookup? o.segments with
  | none =>
    rw [(read_of_undefined hv).2] at h
    cases h
  | some v =>
    rw [(read_of_defined hv).2] at h
    have hfound := Tree.find?_of_lookup? hv
    cases v with
    | map below =>
      obtain ⟨m, hm, rfl⟩ := Outcome.map_eq_ok_iff.mp h
      have hfrozen : Tree.Frozen below := Tree.frozen_map.mp (hp.of_find? hfound).1
      refine ⟨m, rfl, ?_, fun e => ?_⟩
      · have hkeys := (Tree.flatten_nodup hfrozen).map fun _ _ => Key.text.inj
        rw [List.map_map] at hkeys
        rw [Value.keys_of_readLeaves hm]
        exact hkeys
      · simp only [mem_readLeaves_iff hm, hp.mem_flatten_beneath_iff hfound, entries]
    | _ => cases h

end Profile

/-- **Comparing is exact.** Let two profiles have frozen trees. Where an option is defined in both, both have a comparison
    key of it, and the keys are the same exactly when the profiles agree in what they list at the option and beneath it.
    The profiles are equal exactly when they agree in all that they list. Both are so too when it is the fingerprints of
    the entries that are compared. A section that can be read as a map of strings has a text under a key exactly when
    the profile lists it there. -/
theorem Profile.comparison_is_exact {p q : Profile} (hp : p.tree.Frozen) (hq : q.tree.Frozen) :
    (∀ o : Path, p.isDefined o = true → q.isDefined o = true →
      ∃ k l, p.comparisonKey o = .ok k ∧ q.comparisonKey o = .ok l ∧
        (Value.sameEntries k l = true ↔ p.AgreesOn q o.Leads) ∧
        (Fingerprint.ofEntries k).same (.ofEntries l) = Value.sameEntries k l) ∧
    (p.same q = true ↔ p.AgreesOn q fun _ => True) ∧
    (Fingerprint.ofEntries p.entries).same (.ofEntries q.entries) = p.same q ∧
    ∀ (o : Path) (r : Reading), p.get .stringMap o = .ok r →
      ∃ m, r = .map m ∧ (m.map (·.1)).Nodup ∧
        ∀ e, e ∈ m ↔ ∃ key text, e = (.text key, .text text) ∧
          (o.text ++ "." ++ key, .scalar (.text text)) ∈ p.entries := by
  refine ⟨fun o hpo hqo => ?_, ?_, hp.listed.fingerprint_same hq.listed, fun o r => mem_stringMap_iff hp⟩
  · obtain ⟨v, hv, hk⟩ := exists_value_of_isDefined hpo
    obtain ⟨w, hw, hl⟩ := exists_value_of_isDefined hqo
    have hvlisted := (hp.of_find? hv).1.listed
    have hwlisted := (hq.of_find? hw).1.listed
    refine ⟨_, _, hk, hl, ?_, hvlisted.fingerprint_same hwlisted⟩
    rw [hvlisted.same_iff hwlisted, agreesOn_leads_iff hp hq hv hw]
  · rw [same, entries, entries, hp.listed.same_iff hq.listed]
    exact ⟨fun h path _ => h path, fun h path => h path trivial⟩

/-- The truth value and the numbers one are told apart inside a list, and so are the profiles, while the section beside
    it is the same in both, and is read as its entries. -/
theorem true_and_one_are_told_apart :
    let texts : Value := .map [("x", .scalar (.text "1")), ("y", .map [("z", .scalar (.text "2"))])]
    let p : Profile := ⟨"a", [("ones", .list [.scalar (.bool true), .scalar (.int 1)]), ("texts", texts)]⟩
    let q : Profile := ⟨"b", [("ones", .list [.scalar (.int 1), .scalar (.double (.ofInt 1))]), ("texts", texts)]⟩
    p.AgreesOn q (Path.Leads ⟨["texts"], by decide, by decide⟩) ∧
      ¬ p.AgreesOn q (Path.Leads ⟨["ones"], by decide, by decide⟩) ∧ ¬ p.AgreesOn q (fun _ => True) ∧
      ("texts.y.z", .scalar (.text "2")) ∈ p.entries := by
  intro texts p q
  have hp : p.tree.Frozen := by decide
  have hq : q.tree.Frozen := by decide
  obtain ⟨hkeys, hsame, _, hread⟩ := Profile.comparison_is_exact hp hq
  refine ⟨?_, ?_, fun hall => absurd (hsame.mpr hall) (by decide), ?_⟩
  · obtain ⟨k, l, hk, hl, hiff, _⟩ := hkeys ⟨["texts"], by decide, by decide⟩ rfl rfl
    cases hk
    cases hl
    exact hiff.mp (by decide)
  · obtain ⟨k, l, hk, hl, hiff, _⟩ := hkeys ⟨["ones"], by decide, by decide⟩ rfl rfl
    cases hk
    cases hl
    exact fun hagree => absurd (hiff.mpr hagree) (by decide)
  · obtain ⟨m, hm, _, hmem⟩ := hread ⟨["texts"], by decide, by decide⟩ _ rfl
    cases hm
    obtain ⟨key, text, heq, hentry⟩ := (hmem (.text "y.z", .text "2")).mp (by decide)
    cases heq
    exact hentry

end LayeredConfig
