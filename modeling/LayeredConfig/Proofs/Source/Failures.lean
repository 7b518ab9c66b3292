import LayeredConfig.Proofs.Source.Files
import LayeredConfig.Proofs.Value.Leaves
/-!
# Why sources fail

What a source hands out can go wrong in many ways: a file cannot be read, what it holds is malformed, a table is
missing, a value does not freeze, a supplier fails. `FileSource.Fails` lists the ways for a file, and a file source
fails in no other (`FileSource.fails_of_handOut`). Profiles have no part in it: no source fails for the name that is
reserved (`Source.fetch_not_reserved`).
-/
namespace LayeredConfig

variable {α β : Type} {f : Failure}

namespace Failure

/-- Whether a failure says what is wrong with entries that spell no tree. -/
def isOfExpanding : Failure → Bool
  | invalidPath _ | paddedPath _ => true
  | f => f.isOfFreezing

def isReserved : Failure → Bool
  | reservedProfile _ => true
  | _ => false

theorem isOfConfiguration_of_isOfExpanding (h : f.isOfExpanding = true) : f.isOfConfiguration = true := by
  cases f <;> first | rfl | cases h

theorem isReserved_eq_false_of_isOfExpanding (h : f.isOfExpanding = true) : f.isReserved = false := by
  cases f <;> first | rfl | cases h

theorem isOfExpanding_of_isOfFreezing (h : f.isOfFreezing = true) : f.isOfExpanding = true := by
  cases f <;> first | rfl | cases h

end Failure

theorem Path.parse_fails {text : String} (h : Path.parse text = .error f) : f.isOfExpanding = true := by
  rw [(parse_eq_error_iff.mp h).2, refusal]
  split <;> rfl

theorem Raw.spelledPath_fails {v : Raw} (h : v.spelledPath = .error f) : f.isOfExpanding = true := by
  unfold spelledPath at h
  split at h
  · exact Path.parse_fails h
  · cases h
    rfl

theorem RawMap.hasLong_iff_mem {m : RawMap} : RawMap.HasLong m ↔ ∃ e ∈ m, e.2.HasLong := by
  induction m with
  | nil => simp [RawMap.HasLong]
  | cons e rest ih =>
    obtain ⟨k, v⟩ := e
    rw [RawMap.HasLong, ih, List.exists_mem_cons_iff]

theorem expandFrom_error {out : Tree} {entries : RawMap} (h : expandFrom out entries = .error f) :
    ∃ e ∈ entries, freeze e.1 e.2 = .error f ∨ e.1.toRaw.spelledPath = .error f := by
  induction entries generalizing out with
  | nil => cases h
  | cons e rest ih =>
    rw [expandFrom] at h
    split at h
    · rename_i g hg
      cases h
      exact ⟨e, List.mem_cons_self, .inl hg⟩
    · split at h
      · rename_i g hg
        cases h
        exact ⟨e, List.mem_cons_self, .inr hg⟩
      · obtain ⟨d, hd, hfails⟩ := ih h
        exact ⟨d, List.mem_cons_of_mem e hd, hfails⟩

theorem expand_error {m : RawMap} (h : expand m = .error f) :
    orderedByKey m = .error f ∨ ∃ e ∈ m, freeze e.1 e.2 = .error f ∨ e.1.toRaw.spelledPath = .error f := by
  rcases Outcome.bind_eq_error_iff.mp h with hm | ⟨ordered, hm, h⟩
  · exact .inl hm
  · obtain ⟨e, he, hfails⟩ := expandFrom_error h
    exact .inr ⟨e, (mem_orderedByKey hm).mp he, hfails⟩

/-- Entries that spell no tree have keys that cannot be put in order, or a path or a value that is none. -/
theorem expand_fails {m : RawMap} (h : expand m = .error f) :
    orderedByKey m = .error f ∨ f.isOfExpanding = true ∨ f = .numberTooLong ∧ RawMap.HasLong m := by
  refine (expand_error h).imp id fun hentry => ?_
  obtain ⟨e, he, hfreeze | hpath⟩ := hentry
  · refine (freeze_fails e.2 hfreeze).imp Failure.isOfExpanding_of_isOfFreezing (And.imp id fun hlong => ?_)
    exact RawMap.hasLong_iff_mem.mpr ⟨e, he, hlong⟩
  · exact .inl (Raw.spelledPath_fails hpath)

theorem treeOfData_error {what : String} {data : Raw} (h : treeOfData what data = .error f) :
    f = .sourceNotMap what data.typeName ∨ ∃ m, data = .map m ∧ expand m = .error f := by
  unfold treeOfData at h
  split at h
  · rename_i m
    exact .inr ⟨m, rfl, h⟩
  · exact .inl (Except.error.inj h).symm

/-! ## Tables -/

theorem Outcome.exists_of_foldlM_error {step : β → α → Outcome β} {xs : List α} {init : β}
    (h : xs.foldlM step init = .error f) : ∃ a, ∃ x ∈ xs, step a x = .error f := by
  induction xs generalizing init with
  | nil => cases h
  | cons x rest ih =>
    rw [List.foldlM_cons] at h
    cases hx : step init x with
    | error g =>
      rw [hx] at h
      cases h
      exact ⟨init, x, List.mem_cons_self, hx⟩
    | ok a =>
      rw [hx] at h
      obtain ⟨b, y, hy, hstep⟩ := ih h
      exact ⟨b, y, List.mem_cons_of_mem x hy, hstep⟩

theorem extractTable_error {data : Raw} {table : Option String} (h : extractTable data table = .error f) :
    ∃ name, Path.parse name = .error f ∨ f = .notATable name := by
  rw [extractTable] at h
  split at h
  · cases h
  · rename_i name _
    refine ⟨name, ?_⟩
    rcases Outcome.bind_eq_error_iff.mp h with hpath | ⟨path, _, h⟩
    · exact .inl hpath
    right
    rcases Outcome.bind_eq_error_iff.mp h with hfold | ⟨node, _, h⟩
    · obtain ⟨node, segment, _, hstep⟩ := Outcome.exists_of_foldlM_error hfold
      split at hstep <;> cases hstep
      rfl
    · split at h <;> cases h
      rfl

/-! ## Files -/

/-- The ways in which a file source fails for what the reading of its file finds. -/
inductive FileSource.Fails (s : FileSource) : FileState → Failure → Prop where
  | missing : Fails s .missing (.fileMissing s.path)
  | unnameable : Fails s .unnameable .nulInFileName
  | unreadable (problem : FileProblem) : Fails s (.unreadable problem) (.fileUnreadable s.path problem)
  | malformed {bytes : ByteArray} (h : Toml.parseBytes bytes = .error .malformed) :
      Fails s (.content bytes) (.fileMalformed s.path)
  | numeral {bytes : ByteArray} {digits : Nat} (h : Toml.parseBytes bytes = .error (.numeralTooLong digits)) :
      Fails s (.content bytes) (.numeralTooLong digits)
  | table {bytes : ByteArray} {m : RawMap} {f : Failure} (hm : Toml.parseBytes bytes = .ok m)
      (h : extractTable (.map m) s.table = .error f) : Fails s (.content bytes) f
  | tree {bytes : ByteArray} {m : RawMap} {r : Raw} {f : Failure} (hm : Toml.parseBytes bytes = .ok m)
      (hr : extractTable (.map m) s.table = .ok r) (h : treeOfData s.path r = .error f) : Fails s (.content bytes) f

theorem FileSource.fails_of_handOut {s : FileSource} {state : FileState} (h : s.handOut state = .error f) :
    s.Fails state f := by
  cases state with
  | missing =>
    rw [handOut] at h
    split at h <;> cases h
    exact .missing
  | unnameable =>
    cases h
    exact .unnameable
  | unreadable problem =>
    cases h
    exact .unreadable problem
  | content bytes =>
    rw [handOut, treeOfBytes] at h
    cases hparse : Toml.parseBytes bytes with
    | error failure =>
      rw [hparse] at h
      cases failure with
      | malformed =>
        cases h
        exact .malformed hparse
      | numeralTooLong digits =>
        cases h
        exact .numeral hparse
    | ok m =>
      rw [hparse] at h
      dsimp only at h
      cases hextract : extractTable (.map m) s.table with
      | error failure =>
        rw [hextract] at h
        cases h
        exact .table hparse hextract
      | ok r =>
        rw [hextract] at h
        exact .tree hparse hextract h

/-! ## The name that is reserved -/

theorem treeOfData_not_reserved {what : String} {data : Raw} (h : treeOfData what data = .error f) :
    f.isReserved = false := by
  rcases treeOfData_error h with rfl | ⟨m, rfl, h⟩
  · rfl
  rcases expand_fails h with h | h | ⟨rfl, _⟩
  · rw [orderedByKey] at h
    split at h <;> cases h
    rfl
  · exact Failure.isReserved_eq_false_of_isOfExpanding h
  · rfl

theorem freezeTree_not_reserved {what : String} {v : Raw} (h : freezeTree what v = .error f) :
    f.isReserved = false := by
  unfold freezeTree at h
  split at h
  · split at h
    · rename_i g hg
      cases h
      obtain ⟨l, rfl⟩ := RawMap.nestDotted_error hg
      rfl
    · rcases freezeEntries_error h with ⟨k, rfl⟩ | ⟨e, _, l, hfails⟩
      · rfl
      · rcases freeze_fails _ hfails with h | ⟨rfl, _⟩
        · exact Failure.isReserved_eq_false_of_isOfExpanding (Failure.isOfExpanding_of_isOfFreezing h)
        · rfl
  · cases h
    rfl

theorem FileSource.handOut_not_reserved {s : FileSource} {state : FileState} (h : s.handOut state = .error f) :
    f.isReserved = false := by
  cases fails_of_handOut h with
  | table _ h =>
    obtain ⟨name, hpath | rfl⟩ := extractTable_error h
    · exact Failure.isReserved_eq_false_of_isOfExpanding (Path.parse_fails hpath)
    · rfl
  | tree _ _ h => exact treeOfData_not_reserved h
  | _ => rfl

mutual

theorem Source.fetch_not_reserved : (s : Source) → (w : World) → {w' : World} →
    s.fetch w = (.error f, w') → f.isReserved = false
  | .fixed _ _, w, w', h => by
    rw [Source.fetch] at h
    cases h
  | .supplied name supplier, w, w', h => by
    have hgiven : ∀ (data : Raw) (w1 : World), ((treeOfData name data).map Content.tree, w1) = (.error f, w') →
        f.isReserved = false := by
      intro data w1 heq
      exact treeOfData_not_reserved (Outcome.map_eq_error_iff.mp (Prod.mk.inj heq).1)
    rw [Source.fetch, askSupplier] at h
    split at h
    · exact hgiven _ _ h
    · simp only at h
      split at h
      · exact hgiven _ _ h
      · cases h
        rfl
  | .file s, w, w', h => by
    have hfetch := s.fetch_fst w
    rw [Source.fetch] at h
    rw [h] at hfetch
    exact FileSource.handOut_not_reserved (Outcome.map_eq_error_iff.mp hfetch.symm)
  | .custom _ _, w, w', h => by
    rw [Source.fetch] at h
    cases h
  | .layered layers, w, w', h => by
    rw [Source.fetch] at h
    split at h
    · rename_i content w1 hcontent
      have hfrozen : content.frozen = .error f := Outcome.map_eq_error_iff.mp (Prod.mk.inj h).1
      cases content with
      | tree t => cases hfrozen
      | loose m =>
        rw [Content.frozen] at hfrozen
        exact freezeTree_not_reserved hfrozen
    · rename_i g w1 hg
      cases h
      exact fetchLayers_not_reserved layers w hg

theorem fetchLayers_not_reserved : (layers : List Source) → (w : World) → {below : Content} → {w' : World} →
    fetchLayers below layers w = (.error f, w') → f.isReserved = false
  | [], w, below, w', h => by
    rw [fetchLayers] at h
    cases h
  | layer :: rest, w, below, w', h => by
    rw [fetchLayers_cons] at h
    split at h
    · exact fetchLayers_not_reserved rest _ h
    · rename_i g w1 hg
      cases h
      exact Source.fetch_not_reserved layer w hg

end

end LayeredConfig
