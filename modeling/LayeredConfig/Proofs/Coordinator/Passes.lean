import LayeredConfig.Coordinator.Basic
import LayeredConfig.Proofs.Outcome
import LayeredConfig.Proofs.Profile.Resolution
/-!
# Passes of a coordinator

A pass fetches and resolves. It comes out exactly when both do (`advance_eq_ok_iff`). A request either makes a pass and
leaves behind what the pass does (`ask_of_passes`), or leaves everything as it is (`ask_of_not_passes`). A request that
fails leaves the coordinator as it is (`ask_coordinator_of_error`).
-/
namespace LayeredConfig

/-- A feed whose state is what it hands out. -/
def Feed.echo : Feed (Outcome Content) where
  changed _ _ := .ok true
  fetch s := (s, s)

namespace Coordinator

variable {σ : Type}

theorem advance_of_error {c : Coordinator} {feed : Feed σ} {s s' : σ} {failure : Failure}
    (hf : feed.fetch s = (.error failure, s')) : c.advance feed s = ⟨.error failure, c, s'⟩ := by
  rw [advance, hf]

theorem advance_of_unresolved {c : Coordinator} {feed : Feed σ} {s s' : σ} {content : Content} {failure : Failure}
    (hf : feed.fetch s = (.ok content, s')) (hr : Config.resolve content (c.generation + 1) = .error failure) :
    c.advance feed s = ⟨.error failure, c, s'⟩ := by
  rw [advance, hf]
  simp only [hr]

theorem advance_of_ok {c : Coordinator} {feed : Feed σ} {s s' : σ} {content : Content} {config : Config}
    (hf : feed.fetch s = (.ok content, s')) (hr : Config.resolve content (c.generation + 1) = .ok config) :
    c.advance feed s = ⟨.ok config, ⟨some config⟩, s'⟩ := by
  rw [advance, hf]
  simp only [hr]

/-- A pass comes out when content is fetched that resolves. -/
theorem advance_eq_ok_iff {c : Coordinator} {feed : Feed σ} {s : σ} {config : Config} :
    (c.advance feed s).result = .ok config ↔
      ∃ content s', feed.fetch s = (.ok content, s') ∧ Config.resolve content (c.generation + 1) = .ok config := by
  cases hf : feed.fetch s with
  | mk fetched s' =>
    cases fetched with
    | error failure =>
      rw [advance_of_error hf]
      simp
    | ok content =>
      cases hr : Config.resolve content (c.generation + 1) with
      | error failure =>
        rw [advance_of_unresolved hf hr]
        simp [hr]
      | ok config' =>
        rw [advance_of_ok hf hr]
        simp [hr]

theorem advance_coordinator_of_ok {c : Coordinator} {feed : Feed σ} {s : σ} {config : Config}
    (h : (c.advance feed s).result = .ok config) :
    (c.advance feed s).coordinator = ⟨some config⟩ := by
  obtain ⟨content, s', hf, hr⟩ := advance_eq_ok_iff.mp h
  rw [advance_of_ok hf hr]

theorem generation_of_advance {c : Coordinator} {feed : Feed σ} {s : σ} {config : Config}
    (h : (c.advance feed s).result = .ok config) : config.generation = c.generation + 1 := by
  obtain ⟨_, _, _, hr⟩ := advance_eq_ok_iff.mp h
  exact Config.generation_of_resolve hr

theorem advance_state (c : Coordinator) (feed : Feed σ) (s : σ) : (c.advance feed s).state = (feed.fetch s).2 := by
  cases hf : feed.fetch s with
  | mk fetched s' =>
    cases fetched with
    | error failure => rw [advance_of_error hf]
    | ok content =>
      cases hr : Config.resolve content (c.generation + 1) with
      | error failure => rw [advance_of_unresolved hf hr]
      | ok config => rw [advance_of_ok hf hr]

theorem reload_leaves (c : Coordinator) (feed : Feed σ) (s : σ) :
    (c.reload feed s).coordinator = (c.advance feed s).coordinator ∧
      (c.reload feed s).state = (c.advance feed s).state := by
  rw [reload]
  rcases c.advance feed s with ⟨result, c', s'⟩
  cases result <;> exact ⟨rfl, rfl⟩

theorem reloadIfChangedSince_leaves {c : Coordinator} {noted : Int} {feed : Feed σ} {s : σ}
    (h : feed.changed noted s = .ok true) :
    (c.reloadIfChangedSince noted feed s).coordinator = (c.advance feed s).coordinator ∧
      (c.reloadIfChangedSince noted feed s).state = (c.advance feed s).state := by
  rw [← (c.reload_leaves feed s).1, ← (c.reload_leaves feed s).2, reloadIfChangedSince, h]
  rcases c.reload feed s with ⟨result, c', s'⟩
  cases result <;> exact ⟨rfl, rfl⟩

theorem reloadIfChangedSince_stays {c : Coordinator} {noted : Int} {feed : Feed σ} {s : σ}
    (h : feed.changed noted s ≠ .ok true) :
    (c.reloadIfChangedSince noted feed s).coordinator = c ∧ (c.reloadIfChangedSince noted feed s).state = s := by
  rw [reloadIfChangedSince]
  split
  · exact ⟨rfl, rfl⟩
  · exact ⟨rfl, rfl⟩
  · rename_i hchanged
    exact absurd hchanged h

theorem reloadIfChanged_leaves {c : Coordinator} {feed : Feed σ} {s : σ}
    (h : feed.changed c.generation s = .ok true) :
    (c.reloadIfChanged feed s).coordinator = (c.advance feed s).coordinator ∧
      (c.reloadIfChanged feed s).state = (c.advance feed s).state :=
  reloadIfChangedSince_leaves h

theorem reloadIfChanged_stays {c : Coordinator} {feed : Feed σ} {s : σ}
    (h : feed.changed c.generation s ≠ .ok true) :
    (c.reloadIfChanged feed s).coordinator = c ∧ (c.reloadIfChanged feed s).state = s :=
  reloadIfChangedSince_stays h

theorem changed_of_reloadIfChanged_false {c : Coordinator} {feed : Feed σ} {s : σ}
    (h : (c.reloadIfChanged feed s).result = .ok false) : feed.changed c.generation s = .ok false := by
  rw [reloadIfChanged, reloadIfChangedSince] at h
  split at h
  · cases h
  · assumption
  · split at h <;> cases h

/-! ## Requests -/

/-- What a coordinator can be asked for. A poll asks for changes since the generation that was served when it began. -/
inductive Ask where
  | current
  | reload
  | reloadIfChanged
  | poll (noted : Int)

/-- An answer of which only its success counts. -/
def Answer.settled {α : Type} (answer : Answer σ α) : Answer σ Unit :=
  ⟨answer.result.map fun _ => (), answer.coordinator, answer.state⟩

def ask (c : Coordinator) (feed : Feed σ) (s : σ) : Ask → Answer σ Unit
  | .current => (c.demand feed s).settled
  | .reload => (c.reload feed s).settled
  | .reloadIfChanged => (c.reloadIfChanged feed s).settled
  | .poll noted => (c.reloadIfChangedSince noted feed s).settled

def Passes (c : Coordinator) (feed : Feed σ) (s : σ) : Ask → Prop
  | .current => c.current = none
  | .reload => True
  | .reloadIfChanged => feed.changed c.generation s = .ok true
  | .poll noted => feed.changed noted s = .ok true

variable {c : Coordinator} {feed : Feed σ} {s : σ} {a : Ask}

theorem demand_of_served {config : Config} (h : c.current = some config) : c.demand feed s = ⟨.ok config, c, s⟩ := by
  rw [demand, h]

theorem demand_of_none (h : c.current = none) : c.demand feed s = c.advance feed s := by
  rw [demand, h]

theorem current_of_demand {config : Config} (h : (c.demand feed s).result = .ok config) :
    (c.demand feed s).coordinator.current = some config := by
  cases hc : c.current with
  | some live =>
    rw [demand_of_served hc] at h ⊢
    cases h
    exact hc
  | none =>
    rw [demand_of_none hc] at h ⊢
    rw [advance_coordinator_of_ok h]

/-- A request that makes a pass leaves behind what the pass does. -/
theorem ask_of_passes (h : c.Passes feed s a) :
    (c.ask feed s a).coordinator = (c.advance feed s).coordinator ∧
      (c.ask feed s a).state = (c.advance feed s).state := by
  cases a with
  | current =>
    rw [ask, demand_of_none h]
    exact ⟨rfl, rfl⟩
  | reload => exact c.reload_leaves feed s
  | reloadIfChanged => exact reloadIfChanged_leaves h
  | poll noted => exact reloadIfChangedSince_leaves h

/-- A request that makes no pass leaves everything as it is. -/
theorem ask_of_not_passes (h : ¬ c.Passes feed s a) :
    (c.ask feed s a).coordinator = c ∧ (c.ask feed s a).state = s := by
  cases a with
  | current =>
    obtain ⟨config, hconfig⟩ := Option.ne_none_iff_exists'.mp h
    rw [ask, demand_of_served hconfig]
    exact ⟨rfl, rfl⟩
  | reload => exact absurd trivial h
  | reloadIfChanged => exact reloadIfChanged_stays h
  | poll noted => exact reloadIfChangedSince_stays h

theorem advance_coordinator_of_error {failure : Failure} (h : (c.advance feed s).result = .error failure) :
    (c.advance feed s).coordinator = c := by
  cases hf : feed.fetch s with
  | mk fetched s' =>
    cases fetched with
    | error cause => rw [advance_of_error hf]
    | ok content =>
      cases hr : Config.resolve content (c.generation + 1) with
      | error cause => rw [advance_of_unresolved hf hr]
      | ok config =>
        rw [advance_of_ok hf hr] at h
        cases h

theorem reload_eq_error_iff {failure : Failure} :
    (c.reload feed s).result = .error failure ↔
      ∃ cause, (c.advance feed s).result = .error cause ∧ failure = .reload c.generation cause := by
  have hkept : ∀ cause, (c.advance feed s).result = .error cause → (c.advance feed s).coordinator = c :=
    fun cause => advance_coordinator_of_error
  rw [reload]
  generalize c.advance feed s = answer at hkept
  rcases answer with ⟨result, c', s'⟩
  cases result with
  | error cause =>
    obtain rfl : c' = c := hkept cause rfl
    simp [eq_comm]
  | ok config => simp

theorem reload_eq_ok_iff {config : Config} :
    (c.reload feed s).result = .ok config ↔ (c.advance feed s).result = .ok config := by
  rw [reload]
  rcases c.advance feed s with ⟨result, c', s'⟩
  cases result <;> simp

/-- A request leaves the coordinator as it is, or serves the next generation. -/
theorem ask_cases (c : Coordinator) (feed : Feed σ) (s : σ) (a : Ask) :
    (c.ask feed s a).coordinator = c ∨
      ∃ config, (c.ask feed s a).coordinator = ⟨some config⟩ ∧ config.generation = c.generation + 1 := by
  by_cases hp : c.Passes feed s a
  · rw [(ask_of_passes hp).1]
    cases hadvance : (c.advance feed s).result with
    | error failure => exact .inl (advance_coordinator_of_error hadvance)
    | ok config => exact .inr ⟨config, advance_coordinator_of_ok hadvance, generation_of_advance hadvance⟩
  · exact .inl (ask_of_not_passes hp).1

/-- A request that fails leaves the coordinator as it is. -/
theorem ask_coordinator_of_error {failure : Failure} (h : (c.ask feed s a).result = .error failure) :
    (c.ask feed s a).coordinator = c := by
  by_cases hp : c.Passes feed s a
  · rw [(ask_of_passes hp).1]
    cases hadvance : (c.advance feed s).result with
    | error cause => exact advance_coordinator_of_error hadvance
    | ok config =>
      -- a pass that comes out makes every request succeed
      have hreload : (c.reload feed s).result = .ok config := reload_eq_ok_iff.mpr hadvance
      have hsince : ∀ noted, feed.changed noted s = .ok true →
          (c.reloadIfChangedSince noted feed s).result = .ok true := by
        intro noted hchanged
        rw [reloadIfChangedSince, hchanged]
        rcases hr : c.reload feed s with ⟨result, c', s'⟩
        rw [hr] at hreload
        cases hreload
        rfl
      cases a with
      | current => simp [ask, demand_of_none hp, Answer.settled, hadvance, Except.map] at h
      | reload => simp [ask, Answer.settled, hreload, Except.map] at h
      | reloadIfChanged => simp [ask, Answer.settled, reloadIfChanged, hsince _ hp, Except.map] at h
      | poll noted => simp [ask, Answer.settled, hsince _ hp, Except.map] at h
  · exact (ask_of_not_passes hp).1

end Coordinator
end LayeredConfig
