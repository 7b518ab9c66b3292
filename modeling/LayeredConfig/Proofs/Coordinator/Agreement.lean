import LayeredConfig.Proofs.Coordinator.Passes
import LayeredConfig.Proofs.Source.Recall
/-!
# Passes over what is recalled

A coordinator agrees with its source when what the source recalls, if it resolves, is what is served
(`Coordinator.Agrees`). A pass that comes out makes them agree and one that fails keeps it so, unless it is torn. As
long as the source says that nothing has changed, agreement is all that it takes for a pass to publish what is served
(`Coordinator.publishes_live_iff_agrees`).
-/
namespace LayeredConfig

/-- Whether what a source recalls, if it resolves, is what a coordinator serves. -/
def Coordinator.Agrees (c : Coordinator) (source : Source) (w : World) : Prop :=
  ∀ live content generation config, c.current = some live → source.recalled w = some content →
    Config.resolve content generation = .ok config → config.SameContent live

/-- Whether a fetch would be torn: it fails, and yet it takes note of a change and leaves something to recall. -/
def Source.Tears (s : Source) (w : World) : Prop :=
  (∃ failure, (s.fetch w).1 = .error failure) ∧
    (∃ f ∈ s.files, (s.fetch w).2.sighting f.memory ≠ w.sighting f.memory) ∧
    ∃ content, s.recalled (s.fetch w).2 = some content

namespace Coordinator

variable {c : Coordinator} {source : Source} {w w' : World}

theorem agrees_fresh (source : Source) (w : World) : fresh.Agrees source w := by
  intro live content generation config hlive
  cases hlive

theorem Agrees.congr (h : c.Agrees source w)
    (hs : ∀ f ∈ source.files, w'.sighting f.memory = w.sighting f.memory) : c.Agrees source w' := by
  intro live content generation config hlive hrecalled
  rw [Source.recalled_congr hs] at hrecalled
  exact h live content generation config hlive hrecalled

theorem fst_fetch_of_feed {outcome : Outcome Content} (h : source.feed.fetch w = (outcome, w')) :
    (source.fetch w).1 = outcome :=
  congrArg Prod.fst h

theorem agrees_of_ok (hown : OwnFiles source.files w) {config : Config}
    (h : (c.advance source.feed w).result = .ok config) : Agrees ⟨some config⟩ source (source.fetch w).2 := by
  obtain ⟨content, w', hf, hr⟩ := advance_eq_ok_iff.mp h
  intro live recalled generation config' hlive hrecalled hr'
  cases hlive
  obtain rfl := Source.content_of_recalled hown (fst_fetch_of_feed hf) hrecalled
  exact Config.sameContent_of_resolve hr' hr

/-- A pass that fails keeps what is recalled in agreement with what is served, unless it is torn. -/
theorem Agrees.of_error (h : c.Agrees source w) (hown : OwnFiles source.files w) (hnot : ¬ source.Tears w)
    {failure : Failure} (hfails : (c.advance source.feed w).result = .error failure) :
    c.Agrees source (source.fetch w).2 := by
  cases hf : (source.fetch w).1 with
  | error cause =>
    by_cases hkept : ∀ f ∈ source.files, (source.fetch w).2.sighting f.memory = w.sighting f.memory
    · exact h.congr hkept
    · push Not at hkept
      intro live content generation config _ hrecalled
      exact absurd ⟨⟨cause, hf⟩, hkept, content, hrecalled⟩ hnot
  | ok fetched =>
    -- what was fetched is noted but does not resolve, so there is nothing to agree with
    intro live content generation config _ hrecalled hr
    obtain rfl := Source.content_of_recalled hown hf hrecalled
    have hok : (c.advance source.feed w).result = .ok { config with generation := c.generation + 1 } :=
      advance_eq_ok_iff.mpr ⟨content, (source.fetch w).2, Prod.ext hf rfl, Config.resolve_generation hr _⟩
    rw [hok] at hfails
    cases hfails

/-- While a source says that it has not changed, what a pass would publish is served exactly when what is recalled
    is. -/
theorem publishes_live_iff_agrees {generation : Int} (hquiet : source.changedSince generation w = .ok false)
    {live : Config} (hlive : c.current = some live) :
    (∀ config, (c.advance source.feed w).result = .ok config → config.SameContent live) ↔ c.Agrees source w := by
  constructor
  · intro h live' content generation' config hlive' hrecalled hr
    cases hlive.symm.trans hlive'
    have hf := (Source.fetch_eq_ok_iff_of_unchanged hquiet).mpr hrecalled
    have hnow := Config.resolve_generation hr (c.generation + 1)
    have hsame := h _ (advance_eq_ok_iff.mpr ⟨content, (source.fetch w).2, Prod.ext hf rfl, hnow⟩)
    exact ⟨hsame.1, hsame.2⟩
  · intro h config hconfig
    obtain ⟨content, w', hf, hr⟩ := advance_eq_ok_iff.mp hconfig
    exact h live content _ config hlive ((Source.fetch_eq_ok_iff_of_unchanged hquiet).mp (fst_fetch_of_feed hf)) hr

end Coordinator

end LayeredConfig
