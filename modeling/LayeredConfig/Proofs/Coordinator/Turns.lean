import LayeredConfig.Coordinator.Concurrent
import LayeredConfig.Proofs.Coordinator.Passes
/-!
# Runs of concurrent callers

What one step of one caller can do, whatever the others are at (`Turn`, `turn_of_step`), and what callers have done in
a run, whatever turns they took (`Run`). A caller makes one call; a thread that calls again is another caller, which
does not start before.
-/
namespace LayeredConfig.Concurrent

def State.phase? (s : State) (i : Nat) : Option Phase := s.callers[i]?.map (·.phase)

/-- A state but for one caller, which has come to another phase. -/
def State.goes (s : State) (i : Nat) (phase : Phase) : State :=
  { s with callers := s.callers.modify i fun c => { c with phase := phase } }

/-- A step that a caller took: from which phase to which, and what the source gave, which a pass is made over and any
    other step does not look at. -/
structure Move where
  who : Nat
  source : Phase
  target : Phase
  given : Outcome Content

/-- What the steps of a run from one state to another were, the first one first. What the source gives is anything. -/
inductive Run (start : State) : List Move → State → Prop
  | still : Run start [] start
  | moved {moves : List Move} {s s' : State} {m : Move} (earlier : Run start moves s)
      (source : s.phase? m.who = some m.source) (h : step m.given m.who s = some s')
      (target : s'.phase? m.who = some m.target) : Run start (moves ++ [m]) s'

namespace State

variable {s : State} {i j : Nat} {p : Phase}

@[simp] theorem goes_live (s : State) (i : Nat) (p : Phase) : (s.goes i p).live = s.live := rfl

@[simp] theorem goes_flights (s : State) (i : Nat) (p : Phase) : (s.goes i p).flights = s.flights := rfl

theorem phase?_of_caller {c : Caller} (h : s.callers[i]? = some c) : s.phase? i = some c.phase := by
  rw [phase?, h, Option.map_some]

theorem callers_goes (s : State) (i : Nat) (p : Phase) (j : Nat) :
    (s.goes i p).callers[j]? = if i = j then s.callers[j]?.map ({ · with phase := p }) else s.callers[j]? := by
  rw [goes, List.getElem?_modify]
  split
  · rfl
  · simp

theorem phase?_goes (h : (s.phase? i).isSome) (j : Nat) :
    (s.goes i p).phase? j = if i = j then some p else s.phase? j := by
  rw [phase?, callers_goes]
  split
  · rename_i hij
    obtain ⟨c, hc⟩ := Option.isSome_iff_exists.mp (Option.isSome_map .. ▸ h)
    rw [← hij, hc]
    rfl
  · rw [phase?]

theorem set_eq_modify {c : Caller} (h : s.callers[i]? = some c) :
    s.callers.set i { c with phase := p } = s.callers.modify i fun c => { c with phase := p } := by
  apply List.ext_getElem?
  intro j
  rw [List.getElem?_set, List.getElem?_modify]
  obtain ⟨hi, rfl⟩ := List.getElem?_eq_some_iff.mp h
  split
  · rename_i hij
    subst hij
    simp [hi]
  · simp

end State

/-! ## What a step does -/

/-- The steps of a caller, one by one: its move, and the state after it. -/
inductive Turn (given : Outcome Content) (s : State) : Move → State → Prop
  | served {i : Nat} {config : Config} (hi : s.callers[i]? = some ⟨.current, .started⟩)
      (hlive : s.live.current = some config) :
      Turn given s ⟨i, .started, .returned (.ok config), given⟩ (s.goes i (.returned (.ok config)))
  | calls {i : Nat} {request : Request} (hi : s.callers[i]? = some ⟨request, .started⟩)
      (hneeds : request = .current → s.live.current = none) :
      Turn given s ⟨i, .started, .entering, given⟩ (s.goes i .entering)
  | registers {i : Nat} {request : Request} (hi : s.callers[i]? = some ⟨request, .entering⟩)
      (hfree : s.flights.registered = []) :
      Turn given s ⟨i, .entering, .leading s.flights.tickets.length, given⟩
        ({ s with flights := ⟨[((), s.flights.tickets.length)], s.flights.tickets ++ [none]⟩ }.goes i
          (.leading s.flights.tickets.length))
  | joins {i ticket : Nat} {request : Request} {rest : List (Unit × Nat)}
      (hi : s.callers[i]? = some ⟨request, .entering⟩) (hreg : s.flights.registered = ((), ticket) :: rest) :
      Turn given s ⟨i, .entering, .waiting ticket, given⟩ (s.goes i (.waiting ticket))
  | finds {i ticket : Nat} {config : Config} (hi : s.callers[i]? = some ⟨.current, .leading ticket⟩)
      (hlive : s.live.current = some config) :
      Turn given s ⟨i, .leading ticket, .completing ticket (.ok config), given⟩ (s.goes i (.completing ticket (.ok config)))
  | fails {i ticket : Nat} {request : Request} {f : Failure} (hi : s.callers[i]? = some ⟨request, .leading ticket⟩)
      (hneeds : request = .current → s.live.current = none) (hpass : (s.live.advance .echo given).result = .error f) :
      Turn given s ⟨i, .leading ticket, .completing ticket (.error f), given⟩ (s.goes i (.completing ticket (.error f)))
  | resolves {i ticket : Nat} {request : Request} {config : Config}
      (hi : s.callers[i]? = some ⟨request, .leading ticket⟩) (hneeds : request = .current → s.live.current = none)
      (hpass : (s.live.advance .echo given).result = .ok config) :
      Turn given s ⟨i, .leading ticket, .publishing ticket config, given⟩ (s.goes i (.publishing ticket config))
  | publishes {i ticket : Nat} {request : Request} {config : Config}
      (hi : s.callers[i]? = some ⟨request, .publishing ticket config⟩) :
      Turn given s ⟨i, .publishing ticket config, .completing ticket (.ok config), given⟩
        ({ s with live := ⟨some config⟩ }.goes i (.completing ticket (.ok config)))
  | completes {i ticket : Nat} {request : Request} {outcome : Outcome Config}
      (hi : s.callers[i]? = some ⟨request, .completing ticket outcome⟩) :
      Turn given s ⟨i, .completing ticket outcome, .leaving outcome, given⟩
        ({ s with flights := s.flights.complete ticket outcome }.goes i (.leaving outcome))
  | leaves {i : Nat} {request : Request} {outcome : Outcome Config}
      (hi : s.callers[i]? = some ⟨request, .leaving outcome⟩) :
      Turn given s ⟨i, .leaving outcome, .returned outcome, given⟩
        ({ s with flights := ⟨[], s.flights.tickets⟩ }.goes i (.returned outcome))
  | receives {i ticket : Nat} {request : Request} {outcome : Outcome Config}
      (hi : s.callers[i]? = some ⟨request, .waiting ticket⟩)
      (hticket : s.flights.tickets[ticket]? = some (some outcome)) :
      Turn given s ⟨i, .waiting ticket, .returned outcome, given⟩ (s.goes i (.returned outcome))

variable {given : Outcome Content} {s s' : State} {m : Move}

theorem enter_of_free {fs : Flights Unit (Outcome Config)} (h : fs.registered = []) :
    fs.enter () = (.leader fs.tickets.length, ⟨[((), fs.tickets.length)], fs.tickets ++ [none]⟩) := by
  rw [Flights.enter, h]
  rfl

theorem enter_of_registered {fs : Flights Unit (Outcome Config)} {ticket : Nat} {rest : List (Unit × Nat)}
    (h : fs.registered = ((), ticket) :: rest) : fs.enter () = (.follower ticket, fs) := by
  rw [Flights.enter, h]
  rfl

theorem leave_eq (fs : Flights Unit (Outcome Config)) : fs.leave () = ⟨[], fs.tickets⟩ := by
  simp [Flights.leave]

theorem exists_move_of_step {i : Nat} (h : step given i s = some s') :
    ∃ c phase live flights, s.callers[i]? = some c ∧ move s c given = some (phase, live, flights) ∧
      s' = State.goes ⟨live, flights, s.callers⟩ i phase := by
  rw [step] at h
  cases hc : s.callers[i]? with
  | none => simp [hc] at h
  | some c =>
    rw [hc] at h
    obtain ⟨⟨phase, live, flights⟩, hmove, rfl⟩ := Option.map_eq_some_iff.mp h
    refine ⟨c, phase, live, flights, rfl, hmove, ?_⟩
    rw [State.goes, ← State.set_eq_modify hc]

theorem lead_of_needs {request : Request} (hneeds : request = .current → s.live.current = none) (ticket : Nat) :
    lead s request ticket given =
      match (s.live.advance .echo given).result with
      | .error f => .completing ticket (.error f)
      | .ok config => .publishing ticket config := by
  have hlead : lead s request ticket given = lead s .reload ticket given := by
    cases request with
    | reload => rfl
    | current => simp only [lead, hneeds rfl]
  rw [hlead, lead.eq_def]
  cases given with
  | error f => rfl
  | ok content =>
    have hfetch : Feed.echo.fetch (.ok content) = (.ok content, .ok content) := rfl
    cases hresolve : Config.resolve content (s.live.generation + 1) with
    | error f => simp only [Coordinator.advance_of_unresolved hfetch hresolve, hresolve]
    | ok config => simp only [Coordinator.advance_of_ok hfetch hresolve, hresolve]

/-- The pass of a leader ends in one of three ways. -/
theorem exists_turn_of_leading {i ticket : Nat} {request : Request} (hi : s.callers[i]? = some ⟨request, .leading ticket⟩) :
    Turn given s ⟨i, .leading ticket, lead s request ticket given, given⟩
      (s.goes i (lead s request ticket given)) := by
  by_cases hneeds : request = .current → s.live.current = none
  · rw [lead_of_needs hneeds]
    cases hpass : (s.live.advance .echo given).result with
    | error f => exact .fails hi hneeds hpass
    | ok config => exact .resolves hi hneeds hpass
  · obtain ⟨rfl, hlive⟩ := Classical.not_imp.mp hneeds
    obtain ⟨config, hlive⟩ := Option.ne_none_iff_exists'.mp hlive
    have hlead : lead s .current ticket given = .completing ticket (.ok config) := by rw [lead.eq_def, hlive]
    rw [hlead]
    exact .finds hi hlive

theorem exists_turn {i : Nat} (h : step given i s = some s') : ∃ m, m.who = i ∧ m.given = given ∧ Turn given s m s' := by
  obtain ⟨⟨request, phase⟩, phase', live, flights, hi, hmove, rfl⟩ := exists_move_of_step h
  cases phase with
  | started =>
    by_cases hneeds : request = .current → s.live.current = none
    · have hcalls : move s ⟨request, .started⟩ given = some (.entering, s.live, s.flights) := by
        cases request with
        | reload => rfl
        | current => simp only [move, hneeds rfl]
      cases hcalls.symm.trans hmove
      exact ⟨_, rfl, rfl, .calls hi hneeds⟩
    · obtain ⟨rfl, hlive⟩ := Classical.not_imp.mp hneeds
      obtain ⟨config, hlive⟩ := Option.ne_none_iff_exists'.mp hlive
      have hserved : move s ⟨.current, .started⟩ given = some (.returned (.ok config), s.live, s.flights) := by
        simp only [move, hlive]
      cases hserved.symm.trans hmove
      exact ⟨_, rfl, rfl, .served hi hlive⟩
  | entering =>
    simp only [move] at hmove
    cases hregistered : s.flights.registered with
    | nil =>
      rw [enter_of_free hregistered] at hmove
      cases hmove
      exact ⟨_, rfl, rfl, .registers hi hregistered⟩
    | cons entry rest =>
      rw [enter_of_registered hregistered] at hmove
      cases hmove
      exact ⟨_, rfl, rfl, .joins hi hregistered⟩
  | leading ticket =>
    cases hmove
    exact ⟨_, rfl, rfl, exists_turn_of_leading hi⟩
  | publishing ticket config =>
    cases hmove
    exact ⟨_, rfl, rfl, .publishes hi⟩
  | completing ticket outcome =>
    cases hmove
    exact ⟨_, rfl, rfl, .completes hi⟩
  | leaving outcome =>
    cases hmove
    rw [leave_eq]
    exact ⟨_, rfl, rfl, .leaves hi⟩
  | waiting ticket =>
    simp only [move] at hmove
    split at hmove
    · rename_i outcome houtcome
      cases hmove
      exact ⟨_, rfl, rfl, .receives hi (Option.join_eq_some_iff.mp houtcome)⟩
    · cases hmove
  | returned outcome => cases hmove

/-- Whether a move is all that happens to the phases of the callers between two states. -/
structure Move.Shifts (m : Move) (s s' : State) : Prop where
  source : s.phase? m.who = some m.source
  phases : ∀ j, s'.phase? j = if m.who = j then some m.target else s.phase? j

theorem Move.Shifts.target (h : m.Shifts s s') : s'.phase? m.who = some m.target := by rw [h.phases, if_pos rfl]

/-- Who is in a phase has just come to it, or did not move. -/
theorem Move.Shifts.phase?_cases (h : m.Shifts s s') {j : Nat} {q : Phase} (hj : s'.phase? j = some q) :
    m.who = j ∧ m.target = q ∨ m.who ≠ j ∧ s.phase? j = some q := by
  rw [h.phases] at hj
  split at hj
  · exact .inl ⟨‹_›, Option.some.inj hj⟩
  · exact .inr ⟨‹_›, hj⟩

theorem Turn.shifts (h : Turn given s m s') : m.Shifts s s' := by
  have hsource : s.phase? m.who = some m.source := by cases h <;> exact State.phase?_of_caller ‹_›
  have hsome : (s.phase? m.who).isSome := by rw [hsource]; rfl
  refine ⟨hsource, fun j => ?_⟩
  cases h <;> exact State.phase?_goes (s := { s with live := _, flights := _ }) hsome j

theorem Turn.callers (h : Turn given s m s') (j : Nat) : s'.callers[j]? =
    if m.who = j then s.callers[j]?.map ({ · with phase := m.target }) else s.callers[j]? := by
  cases h <;> exact State.callers_goes _ _ _ j

theorem turn_of_step (hsource : s.phase? m.who = some m.source) (h : step m.given m.who s = some s')
    (htarget : s'.phase? m.who = some m.target) : Turn m.given s m s' := by
  obtain ⟨⟨i, source, target, given⟩, hwho, hgiven, hturn⟩ := exists_turn h
  obtain rfl : i = m.who := hwho
  obtain rfl : given = m.given := hgiven
  obtain rfl : m.source = source := Option.some.inj (hsource.symm.trans hturn.shifts.source)
  obtain rfl : m.target = target := Option.some.inj (htarget.symm.trans hturn.shifts.target)
  exact hturn

def trace (given : Outcome Content) (s : State) : List Nat → List Move
  | [] => []
  | i :: rest =>
    match step given i s with
    | none => trace given s rest
    | some s' => ⟨i, (s.phase? i).getD .started, (s'.phase? i).getD .started, given⟩ :: trace given s' rest

theorem Run.follow {start : State} {moves : List Move} (h : Run start moves s) (given : Outcome Content)
    (schedule : List Nat) : Run start (moves ++ trace given s schedule) (run given s schedule) := by
  induction schedule generalizing moves s with
  | nil => simpa [run, trace] using h
  | cons i rest ih =>
    rw [run, trace]
    cases hstep : step given i s with
    | none => exact ih h
    | some s' =>
      obtain ⟨m, rfl, rfl, hturn⟩ := exists_turn hstep
      have hm := hturn.shifts
      simp only [hm.source, hm.target, Option.getD_some]
      simpa using ih (h.moved hm.source hstep hm.target)

/-! ## Moves of a run -/

variable {start : State} {moves : List Move}

theorem Run.exists_last (h : Run start (moves ++ [m]) s') : ∃ s, Run start moves s ∧ Turn m.given s m s' ∧
    step m.given m.who s = some s' := by
  generalize hall : moves ++ [m] = all at h
  cases h with
  | still => simp at hall
  | moved earlier hsource hstep htarget =>
    obtain ⟨rfl, hm⟩ := List.append_inj' hall rfl
    cases hm
    exact ⟨_, earlier, turn_of_step hsource hstep htarget, hstep⟩

theorem Run.unique (h : Run start moves s) (h' : Run start moves s') : s = s' := by
  induction h generalizing s' with
  | still =>
    generalize hnone : ([] : List Move) = none at h'
    cases h' with
    | still => rfl
    | moved => simp at hnone
  | moved _ _ hstep _ ih =>
    obtain ⟨s₀, earlier, _, hstep'⟩ := h'.exists_last
    rw [ih earlier, hstep'] at hstep
    exact (Option.some.inj hstep).symm

/-- The moves up to any of them are those of a run. -/
theorem Run.exists_before {before after : List Move} (h : Run start (before ++ after) s) : ∃ s₀, Run start before s₀ := by
  induction after using List.reverseRecOn generalizing s with
  | nil => exact ⟨s, by simpa using h⟩
  | append_singleton after m ih =>
    rw [← List.append_assoc] at h
    obtain ⟨s₀, earlier, _⟩ := h.exists_last
    exact ih earlier

/-- Whether a move of a run was made in a state. -/
def MadeIn (start : State) (moves : List Move) (m : Move) (s : State) : Prop :=
  ∃ before after, moves = before ++ m :: after ∧ Run start before s

theorem MadeIn.append (h : MadeIn start moves m s) (more : List Move) : MadeIn start (moves ++ more) m s := by
  obtain ⟨before, after, rfl, hrun⟩ := h
  exact ⟨before, after ++ more, by simp, hrun⟩

theorem MadeIn.last (h : Run start moves s) (m : Move) : MadeIn start (moves ++ [m]) m s := ⟨moves, [], rfl, h⟩

theorem Run.madeIn {m : Move} (h : Run start moves s) (hm : m ∈ moves) : ∃ s₀, MadeIn start moves m s₀ := by
  obtain ⟨before, after, rfl⟩ := List.append_of_mem hm
  obtain ⟨s₀, hbefore⟩ := h.exists_before
  exact ⟨s₀, before, after, rfl, hbefore⟩

theorem MadeIn.mem (h : MadeIn start moves m s) : m ∈ moves := by
  obtain ⟨before, after, rfl, _⟩ := h
  simp

theorem MadeIn.exists_turn {s₀ : State} (hmade : MadeIn start moves m s₀) (h : Run start moves s) :
    ∃ given s₁, Turn given s₀ m s₁ := by
  obtain ⟨before, after, rfl, hbefore⟩ := hmade
  rw [List.append_cons] at h
  obtain ⟨s₁, hmoved⟩ := h.exists_before
  obtain ⟨_, earlier, hturn, _⟩ := hmoved.exists_last
  rw [hbefore.unique earlier]
  exact ⟨m.given, s₁, hturn⟩

end LayeredConfig.Concurrent
