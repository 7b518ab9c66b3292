import LayeredConfig.Proofs.Outcome
import LayeredConfig.Proofs.Tree.Overlay
import LayeredConfig.Source.Basic
/-!
# What layered sources hand out

Layers are fetched one after the other (`fetchLayers_append`). Layers that hand out frozen trees hand out their
overlay, which is a frozen tree again (`fetchLayers_of_givesTrees`).
-/
namespace LayeredConfig

/-- Whether a source hands out frozen trees and nothing else. -/
def Source.GivesTrees (s : Source) : Prop :=
  ∀ w content w', s.fetch w = (.ok content, w') → ∃ t : Tree, content = .tree t ∧ t.Frozen

theorem Source.givesTrees_fixed (name : String) {t : Tree} (h : t.Frozen) : (Source.fixed name t).GivesTrees := by
  intro w content w' hf
  rw [Source.fetch] at hf
  cases hf
  exact ⟨t, rfl, h⟩

theorem fetchLayers_cons (below : Content) (layer : Source) (rest : List Source) (w : World) :
    fetchLayers below (layer :: rest) w =
      match layer.fetch w with
      | (.ok content, w') => fetchLayers (below.merge content) rest w'
      | (.error f, w') => (.error f, w') := by
  cases hfetch : layer.fetch w with
  | mk fetched w' => cases fetched <;> simp only [fetchLayers, hfetch]

theorem fetchLayers_append (below : Content) (first second : List Source) (w : World) :
    fetchLayers below (first ++ second) w =
      match fetchLayers below first w with
      | (.ok content, w') => fetchLayers content second w'
      | (.error f, w') => (.error f, w') := by
  induction first generalizing below w with
  | nil => simp [fetchLayers]
  | cons layer rest ih =>
    rw [List.cons_append, fetchLayers_cons, fetchLayers_cons]
    cases layer.fetch w with
    | mk fetched w' =>
      cases fetched with
      | error f => rfl
      | ok content => exact ih (below.merge content) w'

/-- Layers of frozen trees make a frozen tree, the overlay of what each of them hands out. -/
theorem fetchLayers_of_givesTrees {layers : List Source} (h : ∀ s ∈ layers, s.GivesTrees) {below : Tree}
    (hb : below.Frozen) {w w' : World} {content : Content}
    (hf : fetchLayers (.tree below) layers w = (.ok content, w')) :
    ∃ trees : List Tree, (∀ t ∈ trees, t.Frozen) ∧ content = .tree (trees.foldl Tree.merge below) := by
  induction layers generalizing below w with
  | nil =>
    rw [fetchLayers] at hf
    cases hf
    exact ⟨[], by simp, rfl⟩
  | cons layer rest ih =>
    obtain ⟨hlayer, hrest⟩ := List.forall_mem_cons.mp h
    rw [fetchLayers_cons] at hf
    split at hf
    · rename_i c w1 hc
      obtain ⟨t, rfl, ht⟩ := hlayer w c w1 hc
      obtain ⟨trees, htrees, hcontent⟩ := ih hrest (ht.merge hb) hf
      exact ⟨t :: trees, List.forall_mem_cons.mpr ⟨ht, htrees⟩, hcontent⟩
    · cases hf

theorem Source.fetch_fixed_on_top {lower : List Source} (h : ∀ s ∈ lower, s.GivesTrees) {name : String} {top : Tree}
    {w w' : World} {content : Content}
    (hf : (Source.layered (lower ++ [.fixed name top])).fetch w = (.ok content, w')) :
    ∃ (below : Tree) (w1 : World), below.Frozen ∧ fetchLayers (.tree []) lower w = (.ok (.tree below), w1) ∧
      content = .tree (Tree.merge below top) := by
  rw [Source.fetch, fetchLayers_append] at hf
  cases hl : fetchLayers (.tree []) lower w with
  | mk fetched w1 =>
    cases fetched with
    | error f => simp [hl] at hf
    | ok c =>
      obtain ⟨trees, htrees, rfl⟩ := fetchLayers_of_givesTrees h Tree.frozen_nil hl
      simp only [hl, fetchLayers_cons, Source.fetch, Content.merge] at hf
      rw [fetchLayers] at hf
      cases hf
      exact ⟨Tree.mergeAll trees, _, Tree.Frozen.mergeAll htrees, rfl, rfl⟩

end LayeredConfig
