import LayeredConfig.Proofs.Coordinator.Passes
import LayeredConfig.Proofs.Profile.Resolution
import LayeredConfig.Session.Coordination
/-!
# Requests in a session

A request in a session is the request to the coordinator: it moves the world and that one coordinator as the
coordinator's answer says, and besides only logs and reports (`run_ask`). So a configuration that is served stays, or
makes way for one of a later generation (`advances_ask`).
-/
namespace LayeredConfig.Session

/-! ## Operations one after the other -/

theorem run_bind {α β : Type} (x : Act α) (f : α → Act β) (s : State) :
    (x >>= f).run s =
      match x.run s with
      | (.ok a, s') => (f a).run s'
      | (.error e, s') => (.error e, s') := by
  show (match x s with | (r, s') => ExceptT.bindCont f r s') = _
  cases h : x s with
  | mk r s' =>
    have hrun : x.run s = (r, s') := h
    rw [hrun]
    cases r <;> rfl

@[simp] theorem run_done {α : Type} (x : Outcome α) (s : State) : (done x).run s = (x, s) := by
  cases x <;> rfl

/-! ## Requests -/

def warnings {α : Type} : Outcome α → List String
  | .ok _ => []
  | .error f => f.reloadWarning

def State.answered {α : Type} (s : State) (i : Nat) (c : CoordinatorCell) (a : Coordinator.Answer World α) : State :=
  { s with
    world := a.state
    coordinators := s.coordinators.set i { c with coordinator := a.coordinator }
    journal := s.journal ++ warnings a.result }

/-- The coordinator under a number; one that is not in use is idle. -/
def State.cellAt (s : State) (i : Nat) : CoordinatorCell := s.coordinators[i]?.getD .idle

theorem State.cellAt_of_getElem? {s : State} {i : Nat} {c : CoordinatorCell} (h : s.coordinators[i]? = some c) :
    s.cellAt i = c := by
  rw [State.cellAt, h]
  rfl

theorem State.getElem?_cellAt (s : State) {i : Nat} (hi : i < s.coordinators.length) :
    s.coordinators[i]? = some (s.cellAt i) := by
  have hget := List.getElem?_eq_getElem hi
  rw [State.cellAt_of_getElem? hget, hget]

theorem run_request {α : Type} (i : Nat) (ask : Coordinator → Feed World → World → Coordinator.Answer World α)
    (s : State) :
    (request i ask).run s =
      ((ask (s.cellAt i).coordinator (s.cellAt i).source.feed s.world).result,
        s.answered i (s.cellAt i) (ask (s.cellAt i).coordinator (s.cellAt i).source.feed s.world)) := by
  show ((match (ask (s.cellAt i).coordinator (s.cellAt i).source.feed s.world).result with
    | .ok a => pure a
    | .error f => do
      log f.reloadWarning
      throw f : Act α)).run _ = _
  unfold State.answered
  cases (ask (s.cellAt i).coordinator (s.cellAt i).source.feed s.world).result with
  | ok a =>
    rw [warnings, List.append_nil]
    rfl
  | error f => rfl

def ask (i : Nat) : Coordinator.Ask → Act Unit
  | .current => do
    let _ ← current i
  | .reload => do
    let _ ← reload i
  | .reloadIfChanged => do
    let _ ← reloadIfChanged i
  | .poll noted => poll i noted

def State.answer (s : State) (i : Nat) (a : Coordinator.Ask) : Coordinator.Answer World Unit :=
  (s.cellAt i).coordinator.ask (s.cellAt i).source.feed s.world a

theorem run_settled {α : Type} (i : Nat) (ask : Coordinator → Feed World → World → Coordinator.Answer World α)
    (s : State) :
    ((do let _ ← request i ask : Act Unit)).run s =
      ((ask (s.cellAt i).coordinator (s.cellAt i).source.feed s.world).settled.result,
        s.answered i (s.cellAt i) (ask (s.cellAt i).coordinator (s.cellAt i).source.feed s.world)) := by
  rw [run_bind, run_request]
  unfold Coordinator.Answer.settled
  cases (ask (s.cellAt i).coordinator (s.cellAt i).source.feed s.world).result <;> rfl

theorem run_tryCatch {α : Type} (x : Act α) (handle : Failure → Act α) (s : State) :
    (tryCatch x handle).run s =
      match x.run s with
      | (.ok a, s') => (.ok a, s')
      | (.error f, s') => (handle f).run s' := by
  simp only [tryCatch, tryCatchThe, MonadExceptOf.tryCatch, ExceptT.tryCatch, ExceptT.run_mk, bind, StateT.bind]
  have hrun : x.run s = x s := rfl
  rw [hrun]
  rcases x s with ⟨r, s'⟩
  cases r <;> rfl

theorem State.set_cellAt (s : State) (i : Nat) : s.coordinators.set i (s.cellAt i) = s.coordinators := by
  apply List.ext_getElem?
  intro j
  rw [List.getElem?_set]
  split
  · rename_i hij
    subst hij
    rw [State.cellAt]
    split
    · rename_i hi
      rw [List.getElem?_eq_getElem hi]
      rfl
    · rename_i hi
      rw [List.getElem?_eq_none (not_lt.mp hi)]
  · rfl

theorem State.cellAt_set {s s' : State} {i : Nat} {c : CoordinatorCell} (h : s'.coordinators = s.coordinators.set i c)
    (j : Nat) : s'.cellAt j = if i = j ∧ i < s.coordinators.length then c else s.cellAt j := by
  rw [State.cellAt, h, List.getElem?_set]
  by_cases hij : i = j
  · subst hij
    by_cases hi : i < s.coordinators.length
    · simp [hi]
    · simp [hi, State.cellAt]
  · simp [hij, State.cellAt]

/-- What becomes of a failure in the background: whoever observes the coordinator hears of it, else it is logged. -/
def report (i : Nat) (f : Failure) : Act Unit := do
  let c ← cell i
  if c.observed then putCell i { c with reports := c.reports ++ [f] } else log [f.backgroundWarning]

theorem poll_eq (i : Nat) (noted : Int) :
    poll i noted = tryCatch (do let _ ← request i fun c => c.reloadIfChangedSince noted) (report i) := rfl

theorem run_report (i : Nat) (f : Failure) (s : State) :
    ∃ reports journal, ((report i f).run s).2 =
      { s with
        coordinators := s.coordinators.set i { s.cellAt i with reports := reports }
        journal := journal } := by
  have hcell : (cell i).run s = (.ok (s.cellAt i), s) := rfl
  rw [report, run_bind, hcell]
  dsimp only
  by_cases hobserved : (s.cellAt i).observed = true
  · rw [if_pos hobserved]
    exact ⟨(s.cellAt i).reports ++ [f], s.journal, rfl⟩
  · rw [if_neg hobserved]
    refine ⟨(s.cellAt i).reports, s.journal ++ [f.backgroundWarning], ?_⟩
    rw [show ({ s.cellAt i with reports := (s.cellAt i).reports } : CoordinatorCell) = s.cellAt i from rfl,
      s.set_cellAt i]
    rfl

theorem State.answered_set {α : Type} (s : State) (i : Nat) (a : Coordinator.Answer World α)
    (reports : List Failure) :
    (s.answered i (s.cellAt i) a).coordinators.set i
        { (s.answered i (s.cellAt i) a).cellAt i with reports := reports } =
      s.coordinators.set i { s.cellAt i with coordinator := a.coordinator, reports := reports } := by
  by_cases hi : i < s.coordinators.length
  · have hcell : (s.answered i (s.cellAt i) a).cellAt i = { s.cellAt i with coordinator := a.coordinator } := by
      rw [State.cellAt, State.answered, List.getElem?_set_self hi]
      rfl
    rw [hcell, State.answered, List.set_set]
  · rw [State.answered, List.set_eq_of_length_le (not_lt.mp hi), List.set_eq_of_length_le (not_lt.mp hi),
      List.set_eq_of_length_le (not_lt.mp hi)]

theorem run_ask (i : Nat) (a : Coordinator.Ask) (s : State) :
    ∃ reports journal, ((ask i a).run s).2 =
      { s with
        world := (s.answer i a).state
        coordinators := s.coordinators.set i
          { s.cellAt i with coordinator := (s.answer i a).coordinator, reports := reports }
        journal := journal } := by
  cases a with
  | current =>
    rw [ask, current, run_settled]
    exact ⟨_, _, rfl⟩
  | reload =>
    rw [ask, reload, run_settled]
    exact ⟨_, _, rfl⟩
  | reloadIfChanged =>
    rw [ask, reloadIfChanged, run_settled]
    exact ⟨_, _, rfl⟩
  | poll noted =>
    rw [ask, poll_eq, run_tryCatch, run_settled]
    generalize ((s.cellAt i).coordinator.reloadIfChangedSince noted (s.cellAt i).source.feed s.world).settled.result = r
    cases r with
    | ok _ => exact ⟨_, _, rfl⟩
    | error f =>
      obtain ⟨reports, journal, hreport⟩ := run_report i f (s.answered i (s.cellAt i)
        ((s.cellAt i).coordinator.reloadIfChangedSince noted (s.cellAt i).source.feed s.world))
      refine ⟨reports, journal, hreport.trans ?_⟩
      rw [State.answered_set]
      rfl

/-! ## What is served -/

def State.live (s : State) (i : Nat) : Option Config := (s.cellAt i).coordinator.current

/-- Whether every configuration that is served in one session still is in another, or has made way for a later one. -/
def State.Advances (s s' : State) : Prop :=
  ∀ i live, s.live i = some live →
    ∃ live', s'.live i = some live' ∧ (live' = live ∨ live.generation < live'.generation)

theorem State.advances_of_live {s s' : State} (h : ∀ i, s'.live i = s.live i) : s.Advances s' := by
  intro i live hlive
  exact ⟨live, (h i).trans hlive, .inl rfl⟩

theorem State.live_set {s s' : State} {i : Nat} {c : CoordinatorCell} (h : s'.coordinators = s.coordinators.set i c)
    (j : Nat) : s'.live j = if i = j ∧ i < s.coordinators.length then c.coordinator.current else s.live j := by
  rw [State.live, State.cellAt_set h]
  split <;> rfl

theorem live_newCoordinator (source : Source) (observed : Bool) (s : State) (i : Nat) :
    ((newCoordinator source observed).run s).2.live i = s.live i := by
  have hrun : ((newCoordinator source observed).run s).2.coordinators =
      s.coordinators ++ [⟨source, .fresh, observed, []⟩] := rfl
  rw [State.live, State.live, State.cellAt, State.cellAt, hrun, List.getElem?_append]
  split
  · rfl
  · rename_i hi
    rw [List.getElem?_eq_none (not_lt.mp hi), List.getElem?_singleton]
    split <;> rfl

/-- A request leaves what is served, or serves a later generation. -/
theorem advances_ask (i : Nat) (a : Coordinator.Ask) (s : State) : s.Advances ((ask i a).run s).2 := by
  intro j live hlive
  obtain ⟨reports, journal, hrun⟩ := run_ask i a s
  rw [State.live_set (s := s) (i := i) (by rw [hrun])]
  split
  · rename_i hij
    obtain ⟨rfl, _⟩ := hij
    have hgeneration : (s.cellAt i).coordinator.generation = live.generation := by
      rw [Coordinator.generation, show (s.cellAt i).coordinator.current = some live from hlive]
    rcases (s.cellAt i).coordinator.ask_cases (s.cellAt i).source.feed s.world a with hkept | ⟨config, hconfig, hnext⟩
    · exact ⟨live, (congrArg _ hkept).trans hlive, .inl rfl⟩
    · refine ⟨config, congrArg _ hconfig, .inr ?_⟩
      rw [hnext, hgeneration]
      exact Int.lt_succ _
  · exact ⟨live, hlive, .inl rfl⟩

theorem run_current_of_live {s : State} {i : Nat} {live : Config} (h : s.live i = some live) :
    (current i).run s = (.ok live, s) := by
  rw [current, run_request, Coordinator.demand_of_served h, State.answered, warnings, List.append_nil]
  rw [show ({ s.cellAt i with coordinator := (s.cellAt i).coordinator } : CoordinatorCell) = s.cellAt i from rfl,
    s.set_cellAt i]

end LayeredConfig.Session
