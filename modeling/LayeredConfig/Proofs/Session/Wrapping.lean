import LayeredConfig.Proofs.Session.Requests
import LayeredConfig.Proofs.Source.Changes
/-!
# What the background loop hears of

A coordinator that reloads when its source has changed asks the source first. A pass that fails then is told as a failed
reload with the generation that is still served; a source that cannot say whether it has changed fails with what is
wrong with its file (`Coordinator.reloadIfChangedSince_eq_error_iff`). Whoever observes the background loop hears of
just that, turn by turn (`Session.mem_reports_run`).
-/
namespace LayeredConfig

/-- A reload of what has changed fails because the source cannot say, or because the pass fails. -/
theorem Coordinator.reloadIfChangedSince_eq_error_iff {σ : Type} {c : Coordinator} {noted : Int} {feed : Feed σ} {s : σ}
    {failure : Failure} :
    (c.reloadIfChangedSince noted feed s).result = .error failure ↔
      feed.changed noted s = .error failure ∨
        feed.changed noted s = .ok true ∧
          ∃ cause, (c.advance feed s).result = .error cause ∧ failure = .reload c.generation cause := by
  have hreload : (c.reload feed s).result = .error failure ↔
      ∃ cause, (c.advance feed s).result = .error cause ∧ failure = .reload c.generation cause := c.reload_eq_error_iff
  rw [reloadIfChangedSince]
  rcases feed.changed noted s with f | _ | _
  · simp
  · simp
  · rw [← hreload]
    rcases c.reload feed s with ⟨_ | _, c', s'⟩ <;> simp

namespace Session

variable {s : State} {i j : Nat} {failure : Failure}

/-! ## One request -/

theorem source_ask (i j : Nat) (a : Coordinator.Ask) (s : State) :
    (((ask j a).run s).2.cellAt i).source = (s.cellAt i).source := by
  obtain ⟨reports, journal, hrun⟩ := run_ask j a s
  rw [State.cellAt_set (s := s) (by rw [hrun])]
  split
  · rename_i hji
    rw [hji.1]
  · rfl

theorem reports_answered {α : Type} (i j : Nat) (a : Coordinator.Answer World α) (s : State) :
    ((s.answered j (s.cellAt j) a).cellAt i).reports = (s.cellAt i).reports := by
  rw [State.cellAt_set (s := s) (j := i) rfl]
  split
  · rename_i hji
    rw [hji.1]
  · rfl

theorem run_report_of_observed {f : Failure} (h : (s.cellAt j).observed = true) :
    ((report j f).run s).2.coordinators =
      s.coordinators.set j { s.cellAt j with reports := (s.cellAt j).reports ++ [f] } := by
  have hcell : (cell j).run s = (.ok (s.cellAt j), s) := rfl
  rw [report, run_bind, hcell]
  simp only
  rw [if_pos h]
  rfl

theorem run_report_of_unobserved {f : Failure} (h : (s.cellAt j).observed = false) :
    ((report j f).run s).2.coordinators = s.coordinators := by
  have hcell : (cell j).run s = (.ok (s.cellAt j), s) := rfl
  rw [report, run_bind, hcell]
  simp only
  rw [if_neg (by simp [h])]
  rfl

theorem mem_reports_report {f : Failure} (h : failure ∈ ((((report j f).run s).2).cellAt i).reports) :
    failure ∈ (s.cellAt i).reports ∨ j = i ∧ failure = f := by
  cases hobserved : (s.cellAt j).observed with
  | false =>
    rw [State.cellAt, run_report_of_unobserved hobserved] at h
    exact .inl h
  | true =>
    rw [State.cellAt_set (run_report_of_observed hobserved)] at h
    split at h
    · rename_i hji
      rcases List.mem_append.mp h with h | h
      · exact .inl (hji.1 ▸ h)
      · exact .inr ⟨hji.1, List.mem_singleton.mp h⟩
    · exact .inl h

/-- What a coordinator newly hears of after a request is what made a turn of its own background loop fail. -/
theorem mem_reports_ask {a : Coordinator.Ask} (h : failure ∈ (((ask j a).run s).2.cellAt i).reports) :
    failure ∈ (s.cellAt i).reports ∨ ∃ noted, j = i ∧ a = .poll noted ∧
      ((s.cellAt i).coordinator.reloadIfChangedSince noted (s.cellAt i).source.feed s.world).result =
        .error failure := by
  cases a with
  | current =>
    rw [ask, current, run_settled, reports_answered] at h
    exact .inl h
  | reload =>
    rw [ask, reload, run_settled, reports_answered] at h
    exact .inl h
  | reloadIfChanged =>
    rw [ask, reloadIfChanged, run_settled, reports_answered] at h
    exact .inl h
  | poll noted =>
    rw [ask, poll_eq, run_tryCatch, run_settled] at h
    cases hresult : ((s.cellAt j).coordinator.reloadIfChangedSince noted (s.cellAt j).source.feed
        s.world).settled.result with
    | ok _ =>
      rw [hresult] at h
      simp only [reports_answered] at h
      exact .inl h
    | error f =>
      rw [hresult] at h
      rcases mem_reports_report h with h | ⟨rfl, rfl⟩
      · rw [reports_answered] at h
        exact .inl h
      · exact .inr ⟨noted, rfl, rfl, Outcome.map_eq_error_iff.mp hresult⟩

/-- An observed coordinator hears of everything that makes a turn of its background loop fail. -/
theorem reports_poll (hi : i < s.coordinators.length) (hobserved : (s.cellAt i).observed = true) {noted : Int}
    (h : ((s.cellAt i).coordinator.reloadIfChangedSince noted (s.cellAt i).source.feed s.world).result =
      .error failure) :
    (((ask i (.poll noted)).run s).2.cellAt i).reports = (s.cellAt i).reports ++ [failure] := by
  have hsettled : ((s.cellAt i).coordinator.reloadIfChangedSince noted (s.cellAt i).source.feed
      s.world).settled.result = .error failure := Outcome.map_eq_error_iff.mpr h
  rw [ask, poll_eq, run_tryCatch, run_settled, hsettled]
  generalize (s.cellAt i).coordinator.reloadIfChangedSince noted (s.cellAt i).source.feed s.world = answer
  have hanswered : (s.answered i (s.cellAt i) answer).cellAt i =
      { s.cellAt i with coordinator := answer.coordinator } := by
    rw [State.cellAt_set (s := s) (i := i) rfl, if_pos ⟨rfl, hi⟩]
  have hreport := run_report_of_observed (f := failure) (s := s.answered i (s.cellAt i) answer) (j := i)
    (by rw [hanswered]; exact hobserved)
  rw [State.cellAt_set hreport, hanswered, if_pos ⟨rfl, by rw [State.answered, List.length_set]; exact hi⟩]

/-! ## Runs -/

/-- What goes on around a coordinator with a background loop: the files change in any way, or a coordinator in use is
    asked for something, be it by the loop. -/
inductive Happening where
  | files (files : Directory)
  | ask (k : Nat) (a : Coordinator.Ask)

def State.happen (s : State) : Happening → State
  | .files d => { s with world := { s.world with files := d } }
  | .ask k a => ((Session.ask k a).run s).2

def State.run (s : State) (happenings : List Happening) : State := happenings.foldl State.happen s

theorem State.run_concat (s : State) (front : List Happening) (h : Happening) :
    s.run (front ++ [h]) = (s.run front).happen h := List.foldl_concat ..

theorem source_run (i : Nat) (s : State) (happenings : List Happening) :
    ((s.run happenings).cellAt i).source = (s.cellAt i).source := by
  induction happenings using List.reverseRecOn with
  | nil => rfl
  | append_singleton front h ih =>
    rw [State.run_concat, ← ih]
    cases h with
    | files d => rfl
    | ask k a => exact source_ask i k a (s.run front)

/-- What a coordinator hears of in a run made some turn of its background loop fail. -/
theorem mem_reports_run {happenings : List Happening} (h : failure ∈ ((s.run happenings).cellAt i).reports) :
    failure ∈ (s.cellAt i).reports ∨ ∃ front noted back, happenings = front ++ .ask i (.poll noted) :: back ∧
      (((s.run front).cellAt i).coordinator.reloadIfChangedSince noted (s.cellAt i).source.feed
        (s.run front).world).result = .error failure := by
  induction happenings using List.reverseRecOn with
  | nil => exact .inl h
  | append_singleton front e ih =>
    have hbefore (hmem : failure ∈ ((s.run front).cellAt i).reports) :
        failure ∈ (s.cellAt i).reports ∨ ∃ front' noted back,
          front ++ [e] = front' ++ .ask i (.poll noted) :: back ∧
            (((s.run front').cellAt i).coordinator.reloadIfChangedSince noted (s.cellAt i).source.feed
              (s.run front').world).result = .error failure := by
      rcases ih hmem with h | ⟨front', noted, back, rfl, hfails⟩
      · exact .inl h
      · exact .inr ⟨front', noted, back ++ [e], by simp, hfails⟩
    rw [State.run_concat] at h
    cases e with
    | files d => exact hbefore h
    | ask k a =>
      rcases mem_reports_ask h with h | ⟨noted, rfl, rfl, hfails⟩
      · exact hbefore h
      · exact .inr ⟨front, noted, [], rfl, source_run k s front ▸ hfails⟩

/-! ## What is wrapped -/

variable {source : Source} {c : Coordinator} {noted : Int} {w : World}

/-- Whether a source that was asked whether it has changed fails with what is wrong with a file of its own. -/
def Unreadable (source : Source) (noted : Int) (w : World) (failure : Failure) : Prop :=
  ∃ f problem, source.StopsAt noted w f problem ∧ failure = .fileUnreadable f.path problem

/-- Whether a source has changed and the pass fails, which is told as a failed reload with the generation served. -/
def Wrapped (source : Source) (c : Coordinator) (noted : Int) (w : World) (failure : Failure) : Prop :=
  source.changedSince noted w = .ok true ∧
    ∃ cause, (c.advance source.feed w).result = .error cause ∧ failure = .reload c.generation cause

theorem changedSince_eq_error_iff (hsource : source.OfFiles) {first : Coordinator} {w₀ : World} {config : Config}
    (hresolved : (first.advance source.feed w₀).result = .ok config) :
    source.changedSince noted w = .error failure ↔ Unreadable source noted w failure := by
  obtain ⟨content, w₁, hfetch, _⟩ := Coordinator.advance_eq_ok_iff.mp hresolved
  have hcontent : (source.fetch w₀).1 = .ok content := congrArg Prod.fst hfetch
  exact source.changedSince_eq_error_iff hsource fun f hf => Source.read_ne_unnameable_of_fetch hcontent hf w.files

/-- **A failed reload of what has changed is told as one, unless a file cannot be asked.** Take a source of fixed trees
    and files, nested in any way, that was resolved once, and any coordinator over it, in any world. A reload of what
    has changed, since the generation served or since an earlier one, fails just when the source has changed and the
    pass fails, which is told as a failed reload with the generation still served, or when a file that was seen before
    cannot be read although it is there, and every file before it is as it was seen last; then it fails with what is
    wrong with the file. The coordinator stays as it is. What the background loop reports in any run, in which anything
    may happen to the files and to other coordinators, is the failure of one of its turns, and of one of these kinds;
    and whoever observes the loop hears of each. -/
theorem failed_reload_is_told_as_one_iff (hsource : source.OfFiles) {first : Coordinator} {w₀ : World}
    {config : Config} (hresolved : (first.advance source.feed w₀).result = .ok config) :
    (∀ (c : Coordinator) (noted : Int) (w : World) (failure : Failure),
      (c.reloadIfChangedSince noted source.feed w).result = .error failure ↔
        Unreadable source noted w failure ∨ Wrapped source c noted w failure) ∧
    (∀ (c : Coordinator) (noted : Int) (w : World) (failure : Failure),
      (c.reloadIfChangedSince noted source.feed w).result = .error failure →
        (c.reloadIfChangedSince noted source.feed w).coordinator = c ∧
          ((∃ cause, failure = .reload c.generation cause) ↔ ¬ ∃ f problem, source.StopsAt noted w f problem)) ∧
    (∀ (s : State) (i : Nat) (happenings : List Happening) (failure : Failure), (s.cellAt i).source = source →
      failure ∈ ((s.run happenings).cellAt i).reports →
        failure ∈ (s.cellAt i).reports ∨
          ∃ front noted back, happenings = front ++ .ask i (.poll noted) :: back ∧
            (Unreadable source noted (s.run front).world failure ∨
              Wrapped source ((s.run front).cellAt i).coordinator noted (s.run front).world failure)) ∧
    ∀ (s : State) (i : Nat) (noted : Int) (failure : Failure), (s.cellAt i).source = source →
      i < s.coordinators.length → (s.cellAt i).observed = true →
        Unreadable source noted s.world failure ∨ Wrapped source (s.cellAt i).coordinator noted s.world failure →
          (((ask i (.poll noted)).run s).2.cellAt i).reports = (s.cellAt i).reports ++ [failure] := by
  have hchanged : ∀ {noted w failure}, source.changedSince noted w = .error failure ↔ Unreadable source noted w failure :=
    changedSince_eq_error_iff hsource hresolved
  have hfails : ∀ (c : Coordinator) (noted : Int) (w : World) (failure : Failure),
      (c.reloadIfChangedSince noted source.feed w).result = .error failure ↔
        Unreadable source noted w failure ∨ Wrapped source c noted w failure := by
    intro c noted w failure
    rw [Coordinator.reloadIfChangedSince_eq_error_iff, ← hchanged]
    exact Iff.rfl
  refine ⟨hfails, ?_, ?_, ?_⟩
  · intro c noted w failure hfailure
    refine ⟨?_, ?_⟩
    · exact Coordinator.ask_coordinator_of_error (a := .poll noted) (Outcome.map_eq_error_iff.mpr hfailure)
    · rcases (hfails c noted w failure).mp hfailure with ⟨f, problem, hstops, rfl⟩ | ⟨hyes, cause, _, rfl⟩
      · exact ⟨nofun, fun hnot => absurd ⟨f, problem, hstops⟩ hnot⟩
      · refine ⟨fun _ => ?_, fun _ => ⟨cause, rfl⟩⟩
        rintro ⟨f, problem, hstops⟩
        have herror := hchanged.mpr ⟨f, problem, hstops, rfl⟩
        rw [hyes] at herror
        cases herror
  · intro s i happenings failure hs hreported
    rcases mem_reports_run hreported with hold | ⟨front, noted, back, hsplit, hturn⟩
    · exact .inl hold
    · rw [hs] at hturn
      exact .inr ⟨front, noted, back, hsplit, (hfails _ _ _ _).mp hturn⟩
  · intro s i noted failure hs hi hobserved hturn
    refine reports_poll hi hobserved ?_
    rw [hs]
    exact (hfails _ _ _ _).mpr hturn

def optionalFile : Source := .file ⟨"x.toml", none, false, 0⟩

def servingNothing : Config := ⟨1, [], [(defaultProfile, [])]⟩

/-- A folder stands where no file was seen. -/
def turnedFolder : World := ⟨Directory.put [] "x.toml" .folder, [], [], [.absent]⟩

/-- Bytes that are no text stand where no file was seen. -/
def turnedUnreadable : World := ⟨Directory.put [] "x.toml" (.file ⟨#[0xff]⟩), [], [], [.absent]⟩

theorem advance_optionalFile : Coordinator.fresh.advance optionalFile.feed ⟨[], [], [], [.never]⟩ =
    ⟨.ok servingNothing, ⟨some servingNothing⟩, ⟨[], [], [], [.absent]⟩⟩ := rfl

theorem stopsAt_turnedFolder : optionalFile.StopsAt 1 turnedFolder ⟨"x.toml", none, false, 0⟩ .isDirectory :=
  ⟨le_refl 1, nofun, rfl, [], [], rfl, by simp⟩

/-- A file that turned into a folder is told as such, a file that turned malformed as a failed reload. -/
theorem folder_is_told_as_such :
    ((Coordinator.mk (some servingNothing)).reloadIfChanged optionalFile.feed turnedFolder).result =
        .error (.fileUnreadable "x.toml" .isDirectory) ∧
      ((Coordinator.mk (some servingNothing)).reloadIfChanged optionalFile.feed turnedUnreadable).result =
        .error (.reload 1 (.fileMalformed "x.toml")) := by
  have hresolved : (Coordinator.fresh.advance optionalFile.feed ⟨[], [], [], [.never]⟩).result = .ok servingNothing :=
    congrArg Coordinator.Answer.result advance_optionalFile
  have hsource : optionalFile.OfFiles := trivial
  obtain ⟨hfails, _⟩ := failed_reload_is_told_as_one_iff hsource hresolved
  refine ⟨(hfails _ 1 _ _).mpr (.inl ⟨_, _, stopsAt_turnedFolder, rfl⟩), (hfails _ 1 _ _).mpr (.inr ⟨rfl, ?_⟩)⟩
  exact ⟨.fileMalformed "x.toml", rfl, rfl⟩

/-- A file that turned into a folder makes a reload fail as a failed reload, and a reload of what has changed fail as
    something else. -/
theorem folder_is_no_failed_reload :
    (Coordinator.fresh.advance optionalFile.feed ⟨[], [], [], [.never]⟩).coordinator =
        Coordinator.mk (some servingNothing) ∧
      ((Coordinator.mk (some servingNothing)).reload optionalFile.feed turnedFolder).result =
        .error (.reload 1 (.fileUnreadable "x.toml" .isDirectory)) ∧
      ∃ failure,
        ((Coordinator.mk (some servingNothing)).reloadIfChanged optionalFile.feed turnedFolder).result =
          .error failure ∧ ∀ generation cause, failure ≠ .reload generation cause :=
  ⟨rfl, rfl, _, rfl, nofun⟩

end Session
end LayeredConfig
