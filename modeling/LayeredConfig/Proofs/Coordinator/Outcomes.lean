import LayeredConfig.Proofs.Coordinator.Sharing
/-!
# What callers are given

A caller that leads either finds a configuration that is served, when it asked for the current one, or makes the
coordinator's own pass over what the source gives it (`Finds`, `Passes`). What comes of it completes its ticket: the
configuration that it found, or published, or the failure of the pass (`Produces`). Every outcome in a run is accounted
for in this way (`Accounted`), so whoever joined a pass is given what the pass of its leader came to, and passes never
overlap (`callers_never_overlap_passes`).
-/
namespace LayeredConfig.Concurrent

variable {given : Outcome Content} {start s s' : State} {m : Move} {moves : List Move} {i ticket : Nat} {p : Phase}
  {config : Config} {outcome : Outcome Config}

/-- Whether a caller that asks for the current configuration finds one served, in a phase in which it looks. -/
def Finds (start : State) (moves : List Move) (i : Nat) (p : Phase) (config : Config) : Prop :=
  ∃ m s, MadeIn start moves m s ∧ m.who = i ∧ s.callers[i]? = some ⟨.current, p⟩ ∧ s.live.current = some config

/-- Whether a leader makes a pass, over what is served there and then and what the source gives, and what the pass comes
    to. A caller that asks for the current configuration makes one only when none is served. -/
def Passes (start : State) (moves : List Move) (i ticket : Nat) (outcome : Outcome Config) : Prop :=
  ∃ m s request, MadeIn start moves m s ∧ m.who = i ∧ s.callers[i]? = some ⟨request, .leading ticket⟩ ∧
    (request = .current → s.live.current = none) ∧ (s.live.advance .echo m.given).result = outcome

def Publishes (moves : List Move) (i ticket : Nat) (config : Config) : Prop :=
  ∃ m ∈ moves, m.who = i ∧ m.source = .publishing ticket config

/-- What the work of a leader can come to: the configuration that it found served, the one that its pass resolved and it
    published, or the failure of its pass. -/
inductive Produces (start : State) (moves : List Move) (i ticket : Nat) : Outcome Config → Prop
  | found {config : Config} (h : Finds start moves i (.leading ticket) config) :
      Produces start moves i ticket (.ok config)
  | published {config : Config} (h : Passes start moves i ticket (.ok config))
      (hpublishes : Publishes moves i ticket config) : Produces start moves i ticket (.ok config)
  | failed {f : Failure} (h : Passes start moves i ticket (.error f)) : Produces start moves i ticket (.error f)

/-- Whether a caller is given an outcome because it found a configuration at once, led, or waited. -/
def Given (start : State) (moves : List Move) (i : Nat) (outcome : Outcome Config) : Prop :=
  (∃ config, outcome = .ok config ∧ Finds start moves i .started config) ∨
    (∃ t, Registers moves i t ∧ Produces start moves i t outcome) ∨ ∃ t, Receives moves i t outcome

theorem Finds.append (h : Finds start moves i p config) (more : List Move) : Finds start (moves ++ more) i p config := by
  obtain ⟨m, s, hmade, hm⟩ := h
  exact ⟨m, s, hmade.append more, hm⟩

theorem Passes.append (h : Passes start moves i ticket outcome) (more : List Move) :
    Passes start (moves ++ more) i ticket outcome := by
  obtain ⟨m, s, request, hmade, hm⟩ := h
  exact ⟨m, s, request, hmade.append more, hm⟩

theorem Produces.append (h : Produces start moves i ticket outcome) (more : List Move) :
    Produces start (moves ++ more) i ticket outcome := by
  cases h with
  | found h => exact .found (h.append more)
  | published h hpublishes =>
    obtain ⟨m, hmem, hm⟩ := hpublishes
    exact .published (h.append more) ⟨m, List.mem_append_left more hmem, hm⟩
  | failed h => exact .failed (h.append more)

theorem Comes.append {source target : Phase} (h : Comes moves i source target) (more : List Move) :
    Comes (moves ++ more) i source target := by
  obtain ⟨m, hmem, hm⟩ := h
  exact ⟨m, List.mem_append_left more hmem, hm⟩

theorem Given.append (h : Given start moves i outcome) (more : List Move) : Given start (moves ++ more) i outcome := by
  rcases h with ⟨config, hok, hfound⟩ | ⟨t, hregisters, hproduces⟩ | ⟨t, hreceives⟩
  · exact .inl ⟨config, hok, hfound.append more⟩
  · exact .inr (.inl ⟨t, hregisters.append more, hproduces.append more⟩)
  · exact .inr (.inr ⟨t, hreceives.append more⟩)

/-- What a leader produces is what it completes its ticket with. -/
theorem Produces.concludes (hrun : Run start moves s) (h : Produces start moves i ticket outcome) :
    Concludes moves i ticket outcome := by
  cases h with
  | found h =>
    obtain ⟨m, s₀, hmade, rfl, hi, hlive⟩ := h
    refine ⟨m, hmade.mem, rfl, ?_⟩
    obtain ⟨given, _, hturn⟩ := hmade.exists_turn hrun
    have hsource := hturn.shifts.source.symm.trans (State.phase?_of_caller hi)
    cases hturn with
    | finds hj hfound =>
      cases hsource
      cases hfound.symm.trans hlive
      rfl
    | fails hj hneeds | resolves hj hneeds =>
      cases hj.symm.trans hi
      cases (hneeds rfl).symm.trans hlive
    | _ => cases hsource
  | published h hpublishes =>
    obtain ⟨m, hmem, rfl, hsource⟩ := hpublishes
    refine ⟨m, hmem, rfl, ?_⟩
    obtain ⟨s₀, hmade⟩ := hrun.madeIn hmem
    obtain ⟨given, _, hturn⟩ := hmade.exists_turn hrun
    cases hturn with
    | publishes => cases hsource; rfl
    | _ => cases hsource
  | failed h =>
    obtain ⟨m, s₀, request, hmade, rfl, hi, hneeds, hfails⟩ := h
    refine ⟨m, hmade.mem, rfl, ?_⟩
    obtain ⟨given, _, hturn⟩ := hmade.exists_turn hrun
    have hsource := hturn.shifts.source.symm.trans (State.phase?_of_caller hi)
    cases hturn with
    | finds hj hfound =>
      cases hj.symm.trans hi
      cases hfound.symm.trans (hneeds rfl)
    | fails hj _ hpass =>
      cases hsource
      cases hfails.symm.trans hpass
      rfl
    | resolves hj _ hpass => cases hfails.symm.trans hpass
    | _ => cases hsource

/-! ## Every outcome is accounted for -/

/-- Whether what leaders and callers have come to in a run is what their work came to. -/
structure Accounted (start : State) (moves : List Move) (s : State) : Prop where
  concluded : ∀ i t outcome, Concludes moves i t outcome → Produces start moves i t outcome
  resolved : ∀ i t config, s.phase? i = some (.publishing t config) → Passes start moves i t (.ok config)
  left : ∀ i outcome, s.phase? i = some (.leaving outcome) → ∃ t, Registers moves i t ∧ Concludes moves i t outcome
  returned : ∀ i outcome, s.phase? i = some (.returned outcome) → Given start moves i outcome

namespace Accounted

variable (h : Accounted start moves s)

include h

theorem concluded_step (hrun : Run start moves s) (hturn : Turn given s m s')
    (hi : Concludes (moves ++ [m]) i ticket outcome) : Produces start (moves ++ [m]) i ticket outcome := by
  rcases concludes_append.mp hi with hi | ⟨rfl, htarget⟩
  · exact (h.concluded i ticket outcome hi).append [m]
  · have hmade := MadeIn.last hrun m
    cases hturn with
    | finds hj hlive =>
      cases htarget
      exact .found ⟨_, s, hmade, rfl, hj, hlive⟩
    | fails hj hneeds hpass =>
      cases htarget
      exact .failed ⟨_, s, _, hmade, rfl, hj, hneeds, hpass⟩
    | publishes hj =>
      cases htarget
      have hpasses := h.resolved _ _ _ (State.phase?_of_caller hj)
      exact .published (hpasses.append _) ⟨_, List.mem_append_right _ (List.mem_singleton_self _), rfl, rfl⟩
    | _ => cases htarget

theorem resolved_step (hrun : Run start moves s) (hturn : Turn given s m s')
    (hi : s'.phase? i = some (.publishing ticket config)) : Passes start (moves ++ [m]) i ticket (.ok config) := by
  rcases hturn.shifts.phase?_cases hi with ⟨hwho, htarget⟩ | ⟨_, hi⟩
  · have hmade := MadeIn.last hrun m
    cases hturn with
    | resolves hj hneeds hpass =>
      cases htarget
      exact ⟨_, s, _, hmade, hwho, hwho ▸ hj, hneeds, hpass⟩
    | _ => cases htarget
  · exact (h.resolved i ticket config hi).append [m]

theorem left_step (htraced : Traced moves s) (hturn : Turn given s m s') (hi : s'.phase? i = some (.leaving outcome)) :
    ∃ t, Registers (moves ++ [m]) i t ∧ Concludes (moves ++ [m]) i t outcome := by
  rcases hturn.shifts.phase?_cases hi with ⟨rfl, htarget⟩ | ⟨_, hi⟩
  · have hsource := hturn.shifts.source
    cases hturn with
    | @completes j t =>
      cases htarget
      have hregisters := htraced.held _ _ _ hsource rfl
      exact ⟨t, hregisters.append _,
        concludes_append.mpr (.inl ((htraced.concluded _ _ _).mpr ⟨hregisters, .inr hsource⟩))⟩
    | _ => cases htarget
  · obtain ⟨t, hregisters, hconcludes⟩ := h.left i outcome hi
    exact ⟨t, hregisters.append _, concludes_append.mpr (.inl hconcludes)⟩

theorem returned_step (hrun : Run start moves s) (hturn : Turn given s m s')
    (hi : s'.phase? i = some (.returned outcome)) : Given start (moves ++ [m]) i outcome := by
  rcases hturn.shifts.phase?_cases hi with ⟨rfl, htarget⟩ | ⟨_, hi⟩
  · have hmade := MadeIn.last hrun m
    have hsource := hturn.shifts.source
    cases hturn with
    | @served j config hj hlive =>
      cases htarget
      exact .inl ⟨config, rfl, _, s, hmade, rfl, hj, hlive⟩
    | leaves =>
      cases htarget
      obtain ⟨t, hregisters, hconcludes⟩ := h.left _ _ hsource
      exact .inr (.inl ⟨t, hregisters.append _, (h.concluded _ _ _ hconcludes).append _⟩)
    | @receives j t =>
      cases htarget
      exact .inr (.inr ⟨t, comes_append.mpr (.inr ⟨rfl, rfl, rfl⟩)⟩)
    | _ => cases htarget
  · exact (h.returned i outcome hi).append [m]

theorem step (hrun : Run start moves s) (htraced : Traced moves s) (hturn : Turn given s m s') :
    Accounted start (moves ++ [m]) s' where
  concluded _ _ _ := h.concluded_step hrun hturn
  resolved _ _ _ := h.resolved_step hrun hturn
  left _ _ := h.left_step htraced hturn
  returned _ _ := h.returned_step hrun hturn

end Accounted

theorem Run.accounted {requests : List Request} (h : Run (.start .fresh requests) moves s) :
    Accounted (.start .fresh requests) moves s := by
  induction h with
  | still =>
    constructor
    · simp [Concludes]
    all_goals
      intros
      rename_i hi
      cases State.phase?_start hi
  | moved earlier hsource hstep htarget ih =>
    exact ih.step earlier earlier.sound.traced (turn_of_step hsource hstep htarget)

/-- **Concurrent callers never overlap passes.** Whatever callers of a coordinator that has resolved nothing before have
    done, in whatever order and whichever passes failed: at most one of them is between registering the key and removing
    it, and while nobody is, nothing is registered; what has been published has the generations one, two, three and so
    on, and the last is what is served. Who was given an outcome after waiting for a ticket had joined those who wait for
    it; just one caller registered the ticket; and the outcome is what the work of that caller came to, and nothing else
    is: the configuration that it found served, the configuration that its pass resolved and it published, or the failure
    of its pass. Whoever has returned an outcome found it served at once, led to it or waited for it. And nobody who
    still waits is left behind: the ticket is complete, or held by a caller that goes on to complete it. -/
theorem callers_never_overlap_passes {requests : List Request} (h : Run (.start .fresh requests) moves s) :
    (∀ i j p q, s.phase? i = some p → s.phase? j = some q → p.isLeading = true → q.isLeading = true → i = j) ∧
    ((∀ i p, s.phase? i = some p → p.isLeading = false) → s.flights.registered = []) ∧
    (published moves).map (·.generation) = (List.range (published moves).length).map (fun k : Nat => (k : Int) + 1) ∧
    s.live.current = (published moves).getLast? ∧
    (∀ i t outcome, Receives moves i t outcome → Joins moves i t ∧
      ∃ j, Registers moves j t ∧ Produces (.start .fresh requests) moves j t outcome ∧
        (∀ k, Registers moves k t → k = j) ∧
        ∀ other, Produces (.start .fresh requests) moves j t other → other = outcome) ∧
    (∀ i outcome, s.phase? i = some (.returned outcome) → Given (.start .fresh requests) moves i outcome) ∧
    ∀ i t, s.phase? i = some (.waiting t) →
      (∃ outcome, s.flights.receive? t = some outcome) ∨ ∃ j p, s.phase? j = some p ∧ p.ticket? = some t := by
  obtain ⟨hexclusive, hcounted, htraced⟩ := h.sound
  refine ⟨fun i j p q => hexclusive.eq_of_isLeading, fun hnobody => ?_, hcounted.generations, hcounted.live,
    fun i t outcome hi => ?_, h.accounted.returned, fun i t hi => ?_⟩
  · rcases hexclusive with hfree | ⟨i, _, p, hled⟩
    · exact hfree.registered
    · have := hnobody i p hled.phase
      simp [hled.holds.isLeading] at this
  · obtain ⟨hjoins, hcomplete⟩ := htraced.received i t outcome hi
    obtain ⟨j, hj⟩ := (htraced.issued t).mp (htraced.awaited i t hjoins)
    have hconcludes : Concludes moves j t outcome := (htraced.concluded j t outcome).mpr ⟨hj, .inl hcomplete⟩
    refine ⟨hjoins, j, hj, h.accounted.concluded j t outcome hconcludes, fun k hk => htraced.once k j t hk hj,
      fun other hother => ?_⟩
    obtain ⟨_, hother | hother⟩ := (htraced.concluded j t other).mp (hother.concludes h)
    · cases hcomplete.symm.trans hother
      rfl
    · cases hcomplete.symm.trans (hexclusive.open_of_ticket hother rfl)
  · have hlt := htraced.awaited i t (htraced.joined i t hi)
    cases hticket : s.flights.tickets[t] with
    | none => exact .inr (htraced.pending t (by rw [List.getElem?_eq_getElem hlt, hticket]))
    | some outcome =>
      refine .inl ⟨outcome, ?_⟩
      rw [Flights.receive?, List.getElem?_eq_getElem hlt, hticket]
      rfl

/-- Four callers, of which the first has led a pass that failed, and the second has waited for it. -/
def firstFailed : State :=
  run (.error (.fileMissing "x.toml")) (.start .fresh [.current, .reload, .reload, .reload]) [0, 0, 1, 1, 0, 0, 0, 1]

/-- The other two have shared a pass after that. -/
def othersShared : State := run (.ok (.tree [("x", .scalar (.int 1))])) firstFailed [2, 2, 3, 3, 2, 2, 2, 2, 3]

/-- What the callers have done so far. -/
def sharedMoves : List Move :=
  trace (.error (.fileMissing "x.toml")) (.start .fresh [.current, .reload, .reload, .reload]) [0, 0, 1, 1, 0, 0, 0, 1] ++
    trace (.ok (.tree [("x", .scalar (.int 1))])) firstFailed [2, 2, 3, 3, 2, 2, 2, 2, 3]

/-- Who waits for a pass that fails is given its failure; two callers share the next pass and are given what it
    published; and nothing is left in flight. -/
theorem callers_share_the_pass_after_a_failed_one :
    let start := State.start .fresh [.current, .reload, .reload, .reload]
    let failure : Outcome Config := .error (.fileMissing "x.toml")
    let config : Config := ⟨1, [("x", .scalar (.int 1))], [(defaultProfile, [("x", .scalar (.int 1))])]⟩
    Run start sharedMoves othersShared ∧ othersShared.flights.registered = [] ∧
      published sharedMoves = [config] ∧ othersShared.live.current = some config ∧
      Receives sharedMoves 1 0 failure ∧ Produces start sharedMoves 0 0 failure ∧
      Receives sharedMoves 3 1 (.ok config) ∧ Produces start sharedMoves 2 1 (.ok config) ∧
      Given start sharedMoves 2 (.ok config) := by
  intro start failure config
  have hstill : Run start [] start := .still
  have hearlier : Run start _ firstFailed := hstill.follow (.error (.fileMissing "x.toml")) [0, 0, 1, 1, 0, 0, 0, 1]
  have hrun : Run start sharedMoves othersShared := hearlier.follow _ _
  obtain ⟨_, hregistered, _, hlive, hreceived, hreturned, _⟩ := callers_never_overlap_passes hrun
  have hpublished : published sharedMoves = [config] := rfl
  have hfirst : Registers sharedMoves 0 0 := ⟨_, List.mem_of_getElem? (i := 1) rfl, rfl, rfl, rfl⟩
  have hfailure : Receives sharedMoves 1 0 failure := ⟨_, List.mem_of_getElem? (i := 7) rfl, rfl, rfl, rfl⟩
  have hsecond : Registers sharedMoves 2 1 := ⟨_, List.mem_of_getElem? (i := 9) rfl, rfl, rfl, rfl⟩
  have hshared : Receives sharedMoves 3 1 (.ok config) := ⟨_, List.mem_of_getElem? (i := 16) rfl, rfl, rfl, rfl⟩
  obtain ⟨_, j, _, hfailed, hj, _⟩ := hreceived 1 0 _ hfailure
  obtain rfl := hj 0 hfirst
  obtain ⟨_, k, _, hproduced, hk, _⟩ := hreceived 3 1 _ hshared
  obtain rfl := hk 2 hsecond
  refine ⟨hrun, hregistered fun i p hi => ?_, hpublished, by rw [hlive, hpublished]; rfl, hfailure, hfailed, hshared,
    hproduced, hreturned 2 _ rfl⟩
  -- everybody has returned
  obtain ⟨c, hc, rfl⟩ := Option.map_eq_some_iff.mp hi
  have hall : (othersShared.callers.all fun c => !c.phase.isLeading) = true := rfl
  simpa using List.all_eq_true.mp hall c (List.mem_of_getElem? hc)

end LayeredConfig.Concurrent
