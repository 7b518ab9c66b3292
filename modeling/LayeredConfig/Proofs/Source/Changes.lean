import LayeredConfig.Proofs.Source.Failures
import LayeredConfig.Proofs.Source.Recall
/-!
# Whether sources can say that they have changed

A source of fixed trees and files, nested in any way, has changed when one of its files has, and asks them in their
order (`Source.changedSince_eq_files`). It cannot say when a file that it has seen before cannot be read, though it is
there, and every file before it is as it was seen last (`Source.changedSince_eq_error_iff`). A name that no file can
have makes every fetch fail, so a source that was fetched once has none (`Source.read_ne_unnameable_of_fetch`).
-/
namespace LayeredConfig

/-! ## Names that no file can have -/

namespace Directory

theorem follow_error {d : Directory} {place : Place} {parts : List String} {state : FileState}
    (h : d.follow place parts = .error state) : state = .missing ∨ ∃ problem, state = .unreadable problem := by
  induction parts generalizing place with
  | nil => cases h
  | cons part rest ih =>
    rw [follow] at h
    split at h
    · cases h
      exact .inl rfl
    · cases h
      exact .inr ⟨_, rfl⟩
    · cases h
      exact .inr ⟨_, rfl⟩
    · split at h
      · exact ih h
      · split at h
        · cases h
          exact .inr ⟨_, rfl⟩
        · exact ih h

theorem read_eq_unnameable_iff {d : Directory} {name : String} :
    d.read name = .unnameable ↔ '\x00' ∈ name.toList := by
  by_cases hnul : '\x00' ∈ name.toList
  · have hlocate : d.locate name = .error .unnameable := by rw [locate, if_pos (List.contains_iff_mem.mpr hnul)]
    simp [read, hlocate, hnul]
  · have hlocate : d.locate name ≠ .error .unnameable := by
      rw [locate, if_neg (by simpa using hnul)]
      split
      · nofun
      · intro herror
        rcases follow_error herror with hstate | ⟨_, hstate⟩ <;> cases hstate
    rw [read]
    split
    · rename_i state hstate
      exact ⟨fun h => absurd (h ▸ hstate) hlocate, fun h => absurd h hnul⟩
    · split <;> simp [hnul]

theorem exists_file_of_read {d : Directory} {name : String} {bytes : ByteArray} (h : d.read name = .content bytes) :
    ∃ place, (place, .file bytes) ∈ d := by
  rw [read] at h
  split at h
  · rename_i state hlocate
    subst h
    rw [locate] at hlocate
    split at hlocate
    · cases hlocate
    · split at hlocate
      · cases hlocate
      · rcases follow_error hlocate with hstate | ⟨_, hstate⟩ <;> cases hstate
  · rename_i place _
    split at h <;> cases h
    rename_i hfound
    rw [get?] at hfound
    split at hfound
    · cases hfound
    · obtain ⟨e, he, hnode⟩ := Option.map_eq_some_iff.mp hfound
      exact ⟨e.1, hnode ▸ List.mem_of_find?_eq_some he⟩

end Directory

mutual

theorem Source.handsOut_of_fetch : (s : Source) → (w : World) → ∀ ⦃content⦄, (s.fetch w).1 = .ok content →
    ∀ f ∈ s.files, ∃ t, f.handOut (w.files.read f.path) = .ok t
  | .fixed _ _, _, _, _ => by simp [Source.files]
  | .supplied _ _, _, _, _ => by simp [Source.files]
  | .file f, w, content, h => by
    rw [Source.files, List.forall_mem_singleton]
    rw [Source.fetch, f.fetch_fst] at h
    obtain ⟨t, ht, _⟩ := Outcome.map_eq_ok_iff.mp h
    exact ⟨t, ht⟩
  | .custom _ _, _, _, _ => by simp [Source.files]
  | .layered layers, w, content, h => by
    rw [Source.fetch_layered] at h
    obtain ⟨below, hbelow, _⟩ := Outcome.bind_eq_ok_iff.mp h
    exact handsOut_of_fetchLayers layers w hbelow

theorem handsOut_of_fetchLayers : (layers : List Source) → (w : World) → ∀ ⦃below content⦄,
    (fetchLayers below layers w).1 = .ok content →
      ∀ f ∈ filesOf layers, ∃ t, f.handOut (w.files.read f.path) = .ok t
  | [], _, _, _, _ => by simp [filesOf]
  | layer :: rest, w, below, content, h => by
    have hkeeps := (layer.fetch_keeps w).1
    have hfirst := layer.handsOut_of_fetch w
    rw [fetchLayers_cons] at h
    rw [filesOf, List.forall_mem_append]
    cases hf : layer.fetch w with
    | mk fetched w' =>
      rw [hf] at h hkeeps hfirst
      cases fetched with
      | error failure => cases h
      | ok c =>
        refine ⟨hfirst rfl, ?_⟩
        rw [← hkeeps]
        exact handsOut_of_fetchLayers rest w' h

end

/-- The files of a source that was fetched once have names that files can have. -/
theorem Source.read_ne_unnameable_of_fetch {s : Source} {w : World} {content : Content}
    (h : (s.fetch w).1 = .ok content) {f : FileSource} (hf : f ∈ s.files) (files : Directory) :
    files.read f.path ≠ .unnameable := by
  obtain ⟨t, ht⟩ := s.handsOut_of_fetch w h f hf
  rw [Ne, Directory.read_eq_unnameable_iff, ← Directory.read_eq_unnameable_iff (d := w.files)]
  intro hread
  rw [hread] at ht
  cases ht

/-! ## Sources of fixed trees and files -/

mutual

/-- Whether a source consists of fixed trees and files, nested in any way. -/
def Source.OfFiles : Source → Prop
  | .fixed _ _ => True
  | .file _ => True
  | .layered layers => AllOfFiles layers
  | .supplied _ _ => False
  | .custom _ _ => False

def AllOfFiles : List Source → Prop
  | [] => True
  | layer :: rest => layer.OfFiles ∧ AllOfFiles rest

end

variable {noted : Int} {w : World}

theorem anyChangedSince_append (first second : List Source) :
    anyChangedSince noted w (first ++ second) =
      match anyChangedSince noted w first with
      | .ok true => .ok true
      | .ok false => anyChangedSince noted w second
      | .error failure => .error failure := by
  induction first with
  | nil => rfl
  | cons layer rest ih =>
    rw [List.cons_append, anyChangedSince, anyChangedSince]
    cases layer.changedSince noted w with
    | error failure => rfl
    | ok changed =>
      cases changed with
      | true => rfl
      | false => exact ih

mutual

/-- Once something was resolved, a source has changed as its files have, asked one after the other. -/
theorem Source.changedSince_eq_files (hn : 1 ≤ noted) : (s : Source) → s.OfFiles →
    s.changedSince noted w = anyChangedSince noted w (s.files.map .file)
  | .fixed _ _, _ => by
    have hnot : decide (noted < 1) = false := by simpa using hn
    rw [Source.changedSince, hnot]
    rfl
  | .file f, _ => by
    show _ = anyChangedSince noted w [.file f]
    rw [anyChangedSince, Source.changedSince]
    cases f.changedSince noted w with
    | error failure => rfl
    | ok changed => cases changed <;> rfl
  | .layered layers, h => by
    rw [Source.changedSince]
    exact anyChangedSince_eq_files hn layers (by rwa [Source.OfFiles] at h)

theorem anyChangedSince_eq_files (hn : 1 ≤ noted) : (layers : List Source) → AllOfFiles layers →
    anyChangedSince noted w layers = anyChangedSince noted w ((filesOf layers).map .file)
  | [], _ => rfl
  | layer :: rest, h => by
    rw [AllOfFiles] at h
    rewrite [filesOf, List.map_append, anyChangedSince_append, anyChangedSince, layer.changedSince_eq_files hn h.1,
      anyChangedSince_eq_files hn rest h.2]
    rcases anyChangedSince noted w (layer.files.map .file) with _ | _ | _ <;> rfl

end

mutual

theorem Source.changedSince_comes_out (hn : noted < 1) : (s : Source) → s.OfFiles →
    ∃ changed, s.changedSince noted w = .ok changed
  | .fixed _ _, _ => ⟨_, by rw [Source.changedSince]⟩
  | .file f, _ => ⟨true, by simp [Source.changedSince, FileSource.changedSince, hn]⟩
  | .layered layers, h => by
    rw [Source.changedSince]
    exact anyChangedSince_comes_out hn layers (by rwa [Source.OfFiles] at h)

theorem anyChangedSince_comes_out (hn : noted < 1) : (layers : List Source) → AllOfFiles layers →
    ∃ changed, anyChangedSince noted w layers = .ok changed
  | [], _ => ⟨false, rfl⟩
  | layer :: rest, h => by
    rw [AllOfFiles] at h
    obtain ⟨changed, hchanged⟩ := layer.changedSince_comes_out hn h.1
    rw [anyChangedSince, hchanged]
    cases changed with
    | true => exact ⟨true, rfl⟩
    | false => exact anyChangedSince_comes_out hn rest h.2

end

/-! ## When a source cannot say -/

theorem FileSource.InStep.sighting {f : FileSource} (h : f.InStep w) :
    w.sighting f.memory = .absent ∧ w.files.read f.path = .missing ∨
      ∃ bytes, w.sighting f.memory = .bytes bytes ∧ w.files.read f.path = .content bytes := by
  rw [InStep, Layer.InStep] at h
  cases hread : w.files.read f.path with
  | missing =>
    rw [hread] at h
    exact .inl ⟨(Option.some.inj h).symm, rfl⟩
  | content bytes =>
    rw [hread] at h
    exact .inr ⟨bytes, (Option.some.inj h).symm, rfl⟩
  | unnameable =>
    rw [hread] at h
    cases h
  | unreadable problem =>
    rw [hread] at h
    cases h

theorem FileSource.changedSince_eq_false_iff {f : FileSource} (hn : 1 ≤ noted) :
    f.changedSince noted w = .ok false ↔ f.InStep w := by
  constructor
  · intro h
    have hlayer : (Layer.file f).source.changedSince noted w = .ok false := by rwa [Layer.source, Source.changedSince]
    exact Layer.inStep_of_changedSince hlayer
  · intro h
    have hnot : ¬ noted < 1 := not_lt.mpr hn
    rcases h.sighting with ⟨hseen, hread⟩ | ⟨bytes, hseen, hread⟩ <;> simp [changedSince, hnot, hseen, hread]

/-- A file cannot be asked when it was seen before and cannot be read now. -/
theorem FileSource.changedSince_eq_error_iff {f : FileSource} (hn : 1 ≤ noted)
    (hname : w.files.read f.path ≠ .unnameable) {failure : Failure} :
    f.changedSince noted w = .error failure ↔
      w.sighting f.memory ≠ .never ∧
        ∃ problem, w.files.read f.path = .unreadable problem ∧ failure = .fileUnreadable f.path problem := by
  have hnot : ¬ noted < 1 := not_lt.mpr hn
  by_cases hseen : w.sighting f.memory = .never
  · simp [changedSince, hseen]
  · cases hread : w.files.read f.path with
    | unnameable => exact absurd hread hname
    | _ => simp [changedSince, hnot, hseen, hread, eq_comm]

/-- Files asked one after the other fail to say at the first that cannot be asked, if none before it has changed. -/
theorem anyChangedSince_files_eq_error_iff {files : List FileSource} {failure : Failure} :
    anyChangedSince noted w (files.map .file) = .error failure ↔
      ∃ before f after, files = before ++ f :: after ∧ (∀ g ∈ before, g.changedSince noted w = .ok false) ∧
        f.changedSince noted w = .error failure := by
  induction files with
  | nil => simp [anyChangedSince]
  | cons g rest ih =>
    rw [List.map_cons, anyChangedSince, Source.changedSince]
    constructor
    · intro h
      split at h
      · cases h
      · rename_i hg
        obtain ⟨before, f, after, rfl, hbefore, hf⟩ := ih.mp h
        exact ⟨g :: before, f, after, rfl, List.forall_mem_cons.mpr ⟨hg, hbefore⟩, hf⟩
      · rename_i hg
        cases h
        exact ⟨[], g, rest, rfl, by simp, hg⟩
    · rintro ⟨before, f, after, hsplit, hbefore, hf⟩
      cases before with
      | nil =>
        obtain ⟨rfl, rfl⟩ := List.cons.inj hsplit
        rw [hf]
      | cons b before =>
        obtain ⟨rfl, rfl⟩ := List.cons.inj hsplit
        obtain ⟨hg, hbefore⟩ := List.forall_mem_cons.mp hbefore
        rw [hg]
        exact ih.mpr ⟨before, f, after, rfl, hbefore, hf⟩

/-- Whether a source that was asked whether it has changed gets as far as a file that cannot be read: it has seen the
    file before, and every file before it is as it was seen last. -/
def Source.StopsAt (s : Source) (noted : Int) (w : World) (f : FileSource) (problem : FileProblem) : Prop :=
  1 ≤ noted ∧ w.sighting f.memory ≠ .never ∧ w.files.read f.path = .unreadable problem ∧
    ∃ before after, s.files = before ++ f :: after ∧ ∀ g ∈ before, g.InStep w

/-- A source cannot say whether it has changed just when it gets as far as a file that cannot be read. -/
theorem Source.changedSince_eq_error_iff {s : Source} (hs : s.OfFiles)
    (hnames : ∀ f ∈ s.files, w.files.read f.path ≠ .unnameable) {failure : Failure} :
    s.changedSince noted w = .error failure ↔
      ∃ f problem, s.StopsAt noted w f problem ∧ failure = .fileUnreadable f.path problem := by
  by_cases hn : 1 ≤ noted
  · rw [s.changedSince_eq_files hn hs, anyChangedSince_files_eq_error_iff]
    constructor
    · rintro ⟨before, f, after, hsplit, hbefore, hf⟩
      obtain ⟨hseen, problem, hread, rfl⟩ :=
        (f.changedSince_eq_error_iff hn (hnames f (by simp [hsplit]))).mp hf
      refine ⟨f, problem, ⟨hn, hseen, hread, before, after, hsplit, ?_⟩, rfl⟩
      exact fun g hg => (g.changedSince_eq_false_iff hn).mp (hbefore g hg)
    · rintro ⟨f, problem, ⟨_, hseen, hread, before, after, hsplit, hbefore⟩, rfl⟩
      refine ⟨before, f, after, hsplit, fun g hg => (g.changedSince_eq_false_iff hn).mpr (hbefore g hg), ?_⟩
      exact (f.changedSince_eq_error_iff hn (hnames f (by simp [hsplit]))).mpr ⟨hseen, problem, hread, rfl⟩
  · obtain ⟨changed, hchanged⟩ := s.changedSince_comes_out (w := w) (not_le.mp hn) hs
    constructor
    · intro h
      rw [hchanged] at h
      cases h
    · rintro ⟨f, problem, ⟨hn', _⟩, _⟩
      exact absurd hn' hn

end LayeredConfig
