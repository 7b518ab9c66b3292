import LayeredConfig.Proofs.Coordinator.Passes
import LayeredConfig.Proofs.Profile.Resolution
/-!
# Generations

Whatever a coordinator is asked for, and whatever becomes of its source in between, the generation that it serves is
the number of passes that came out (`generation_counts_successful_passes`). Passes are counted by a feed that records
what it hands out: a turn leaves coordinator and count alone or makes one more pass come out (`step_cases`), so it keeps
the two in balance (`Balanced.step`).
-/
namespace LayeredConfig

variable {σ : Type}

/-- A feed that records what it hands out, the first first. -/
def Feed.recorded (feed : Feed σ) : Feed (σ × List (Outcome Content)) where
  changed generation s := feed.changed generation s.1
  fetch s := ((feed.fetch s.1).1, (feed.fetch s.1).2, s.2 ++ [(feed.fetch s.1).1])

/-- Whether a pass over what was fetched comes out; at which generation does not matter. -/
def comesOut : Outcome Content → Bool
  | .error _ => false
  | .ok content => (Config.resolve content 1).isOk

theorem comesOut_iff {fetched : Outcome Content} (generation : Int) :
    comesOut fetched ↔ ∃ content config, fetched = .ok content ∧ Config.resolve content generation = .ok config := by
  cases fetched with
  | error failure => simp [comesOut]
  | ok content =>
    rw [comesOut]
    constructor
    · intro h
      cases hr : Config.resolve content 1 with
      | error failure =>
        rw [hr] at h
        cases h
      | ok config => exact ⟨content, _, rfl, Config.resolve_generation hr generation⟩
    · intro h
      obtain ⟨_, config, heq, hr⟩ := h
      cases heq
      rw [Config.resolve_generation hr 1]
      rfl

/-- A coordinator, the state that its feed is in, and what the feed has handed out so far. -/
structure Ledger (σ : Type) where
  coordinator : Coordinator
  state : σ
  fetched : List (Outcome Content)

/-- What happens in a turn: the state of the feed changes in any way, or the coordinator is asked for something. -/
inductive Turn (σ : Type) where
  | change (s : σ)
  | ask (a : Coordinator.Ask)

namespace Ledger

variable {feed : Feed σ} {l : Ledger σ}

/-- A coordinator that has not been asked for anything yet. -/
def opening (s : σ) : Ledger σ := ⟨.fresh, s, []⟩

def answer (feed : Feed σ) (l : Ledger σ) (a : Coordinator.Ask) :
    Coordinator.Answer (σ × List (Outcome Content)) Unit :=
  l.coordinator.ask feed.recorded (l.state, l.fetched) a

def step (feed : Feed σ) (l : Ledger σ) : Turn σ → Ledger σ
  | .change s => { l with state := s }
  | .ask a => ⟨(l.answer feed a).coordinator, (l.answer feed a).state.1, (l.answer feed a).state.2⟩

def run (feed : Feed σ) (l : Ledger σ) (turns : List (Turn σ)) : Ledger σ := turns.foldl (step feed) l

/-- How many passes have come out. -/
def successes (l : Ledger σ) : Nat := l.fetched.countP comesOut

theorem advance_recorded (feed : Feed σ) (c : Coordinator) (s : σ) (fetched : List (Outcome Content)) :
    c.advance feed.recorded (s, fetched) =
      ⟨(c.advance feed s).result, (c.advance feed s).coordinator,
        ((c.advance feed s).state, fetched ++ [(feed.fetch s).1])⟩ := by
  have hrecorded : feed.recorded.fetch (s, fetched) =
      ((feed.fetch s).1, (feed.fetch s).2, fetched ++ [(feed.fetch s).1]) := rfl
  cases hf : feed.fetch s with
  | mk outcome s' =>
    rw [hf] at hrecorded
    cases outcome with
    | error failure => rw [Coordinator.advance_of_error hrecorded, Coordinator.advance_of_error hf]
    | ok content =>
      cases hr : Config.resolve content (c.generation + 1) with
      | error failure =>
        rw [Coordinator.advance_of_unresolved hrecorded hr, Coordinator.advance_of_unresolved hf hr]
      | ok config => rw [Coordinator.advance_of_ok hrecorded hr, Coordinator.advance_of_ok hf hr]

theorem comesOut_fetch_iff (feed : Feed σ) (c : Coordinator) (s : σ) :
    comesOut (feed.fetch s).1 ↔ ∃ config, (c.advance feed s).result = .ok config := by
  simp only [comesOut_iff (c.generation + 1), Coordinator.advance_eq_ok_iff]
  constructor
  · intro h
    obtain ⟨content, config, hf, hr⟩ := h
    exact ⟨config, content, (feed.fetch s).2, by rw [← hf], hr⟩
  · intro h
    obtain ⟨config, content, s', hf, hr⟩ := h
    exact ⟨content, config, by rw [hf], hr⟩

/-! ## What one turn does -/

theorem step_of_not_passes {a : Coordinator.Ask} (h : ¬ l.coordinator.Passes feed.recorded (l.state, l.fetched) a) :
    l.step feed (.ask a) = l := by
  obtain ⟨hc, hs⟩ := Coordinator.ask_of_not_passes h
  rw [step, answer, hc, hs]

theorem step_of_passes {a : Coordinator.Ask} (h : l.coordinator.Passes feed.recorded (l.state, l.fetched) a) :
    l.step feed (.ask a) =
      ⟨(l.coordinator.advance feed l.state).coordinator, (l.coordinator.advance feed l.state).state,
        l.fetched ++ [(feed.fetch l.state).1]⟩ := by
  obtain ⟨hc, hs⟩ := Coordinator.ask_of_passes h
  rw [step, answer, hc, hs, advance_recorded]

theorem step_of_failure {a : Coordinator.Ask} (h : l.coordinator.Passes feed.recorded (l.state, l.fetched) a)
    {failure : Failure} (hfails : (l.coordinator.advance feed l.state).result = .error failure) :
    (l.step feed (.ask a)).coordinator = l.coordinator ∧ (l.step feed (.ask a)).successes = l.successes := by
  have hnot : ¬ comesOut (feed.fetch l.state).1 := by
    rw [comesOut_fetch_iff feed l.coordinator]
    simp [hfails]
  rw [step_of_passes h]
  exact ⟨Coordinator.advance_coordinator_of_error hfails, by simp [successes, hnot]⟩

theorem step_of_success {a : Coordinator.Ask} (h : l.coordinator.Passes feed.recorded (l.state, l.fetched) a)
    {config : Config} (hok : (l.coordinator.advance feed l.state).result = .ok config) :
    (l.step feed (.ask a)).coordinator = ⟨some config⟩ ∧ (l.step feed (.ask a)).successes = l.successes + 1 ∧
      config.generation = l.coordinator.generation + 1 := by
  have hout : comesOut (feed.fetch l.state).1 := (comesOut_fetch_iff feed l.coordinator l.state).mpr ⟨config, hok⟩
  rw [step_of_passes h]
  exact ⟨Coordinator.advance_coordinator_of_ok hok, by simp [successes, hout], Coordinator.generation_of_advance hok⟩

/-- Coordinator and count stay as they are, or one more pass comes out and is served. -/
theorem step_cases (feed : Feed σ) (l : Ledger σ) (a : Coordinator.Ask) :
    ((l.step feed (.ask a)).coordinator = l.coordinator ∧ (l.step feed (.ask a)).successes = l.successes) ∨
      ∃ config, (l.step feed (.ask a)).coordinator = ⟨some config⟩ ∧
        (l.step feed (.ask a)).successes = l.successes + 1 ∧ config.generation = l.coordinator.generation + 1 := by
  by_cases hp : l.coordinator.Passes feed.recorded (l.state, l.fetched) a
  · cases hresult : (l.coordinator.advance feed l.state).result with
    | error failure => exact .inl (step_of_failure hp hresult)
    | ok config => exact .inr ⟨config, step_of_success hp hresult⟩
  · rw [step_of_not_passes hp]
    exact .inl ⟨rfl, rfl⟩

/-! ## Runs -/

/-- Whether the generation served is the number of passes that have come out. -/
def Balanced (l : Ledger σ) : Prop := l.coordinator.generation = l.successes

theorem balanced_opening (s : σ) : (opening s).Balanced := rfl

theorem Balanced.step (h : l.Balanced) (turn : Turn σ) : (l.step feed turn).Balanced := by
  cases turn with
  | change s => exact h
  | ask a =>
    rcases step_cases feed l a with ⟨hc, hs⟩ | ⟨config, hc, hs, hgeneration⟩
    · rw [Balanced, hc, hs]
      exact h
    · rw [Balanced, hc, hs]
      show config.generation = _
      rw [hgeneration, show l.coordinator.generation = l.successes from h]
      rfl

theorem Balanced.run (h : l.Balanced) (turns : List (Turn σ)) : (l.run feed turns).Balanced := by
  induction turns generalizing l with
  | nil => exact h
  | cons turn rest ih => exact ih (h.step turn)

/-- **A coordinator serves the generation that is the number of its successful passes.** Take any run of a new
    coordinator over any feed, in which the state of the feed changes in any way between the requests and every change
    check, fetch and resolution may fail. The generation is the number of passes that came out. The next request leaves
    coordinator and count as they are, or makes one more pass come out and serves what it resolved, of exactly the next
    generation, as is every profile of it. A request that fails leaves the coordinator as it is; what is served is
    answered without a pass; and a reload that fails names the generation that is still served, with the first hint
    of what made its pass fail. -/
theorem generation_counts_successful_passes (feed : Feed σ) (s : σ) (turns : List (Turn σ)) {l : Ledger σ}
    (hl : l = (opening s).run feed turns) :
    l.coordinator.generation = l.successes ∧
      (∀ a,
        ((l.step feed (.ask a)).coordinator = l.coordinator ∧ (l.step feed (.ask a)).successes = l.successes) ∨
          ∃ config, (l.step feed (.ask a)).coordinator = ⟨some config⟩ ∧
            (l.step feed (.ask a)).successes = l.successes + 1 ∧
            config.generation = l.coordinator.generation + 1 ∧
            ∀ name snapshot, config.profile name = .ok snapshot → snapshot.generation = config.generation) ∧
      (∀ a failure, (l.answer feed a).result = .error failure →
        (l.step feed (.ask a)).coordinator = l.coordinator) ∧
      (∀ live, l.coordinator.current = some live →
        (l.coordinator.demand feed l.state).result = .ok live ∧ l.step feed (.ask .current) = l) ∧
      (∀ config, (l.coordinator.reload feed l.state).result = .ok config →
        (l.step feed (.ask .reload)).coordinator = ⟨some config⟩ ∧
          (l.step feed (.ask .reload)).successes = l.successes + 1) ∧
      ∀ failure, (l.coordinator.reload feed l.state).result = .error failure →
        ∃ cause, (l.coordinator.advance feed l.state).result = .error cause ∧
          failure = .reload (l.step feed (.ask .reload)).coordinator.generation cause ∧
          failure.hint = cause.firstHint ∧ (l.step feed (.ask .reload)).coordinator = l.coordinator := by
  refine ⟨?generation, ?counts, ?failed, ?served, ?reloaded, ?refused⟩
  case generation =>
    rw [hl]
    exact (balanced_opening s).run turns
  case counts =>
    intro a
    rcases step_cases feed l a with hkept | ⟨config, hc, hs, hgeneration⟩
    · exact .inl hkept
    · exact .inr ⟨config, hc, hs, hgeneration, fun name snapshot => Config.generation_of_profile⟩
  case failed => exact fun a failure h => Coordinator.ask_coordinator_of_error h
  case served =>
    intro live hlive
    rw [step, answer, Coordinator.ask, Coordinator.demand_of_served hlive, Coordinator.demand_of_served hlive]
    exact ⟨rfl, rfl⟩
  case reloaded =>
    intro config h
    obtain ⟨hc, hs, _⟩ := step_of_success (a := .reload) trivial (Coordinator.reload_eq_ok_iff.mp h)
    exact ⟨hc, hs⟩
  case refused =>
    intro failure h
    obtain ⟨cause, hadvance, rfl⟩ := Coordinator.reload_eq_error_iff.mp h
    obtain ⟨hkept, _⟩ := step_of_failure (a := .reload) trivial hadvance
    exact ⟨cause, hadvance, by rw [hkept], rfl, hkept⟩

/-- A supplier fails while it handles a failure that has a hint: a reload then goes wrong with that hint. -/
theorem failed_reload_keeps_the_first_generation :
    let refused : Fault := .mk .configuration "No address" (some "Set the address first.") none none
    let fault : Fault := .mk .runtime "No answer" none none (some refused)
    let l := (opening (.ok (.tree []))).run Feed.echo [.ask .current, .change (.error (.supplied fault))]
    l.coordinator.generation = 1 ∧ (l.step Feed.echo (.ask .reload)).coordinator = l.coordinator ∧
      (l.coordinator.reload Feed.echo l.state).result = .error (.reload 1 (.supplied fault)) ∧
      (Failure.reload 1 (.supplied fault)).hint = some "Set the address first." := by
  intro refused fault l
  obtain ⟨hgeneration, _, _, _, _, hrefused⟩ :=
    generation_counts_successful_passes Feed.echo (.ok (.tree []))
      [.ask .current, .change (.error (.supplied fault))] (l := l) rfl
  have hreload : (l.coordinator.reload Feed.echo l.state).result = .error (.reload 1 (.supplied fault)) := rfl
  obtain ⟨cause, hadvance, hfailure, hhint, hkept⟩ := hrefused _ hreload
  cases hfailure
  exact ⟨hgeneration, hkept, hreload, hhint.trans rfl⟩

end Ledger
end LayeredConfig
