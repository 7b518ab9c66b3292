import LayeredConfig.Proofs.Session.Chains
import LayeredConfig.Proofs.Value.Kinds
/-!
# Typed writes and typed reads

Writing a value as a kind to a profile succeeds exactly when the value can be read as that kind, and what is read as
that kind of the profile that comes of it is what the value reads as (`typed_write_reads_back`). What lies between is
that the value is stored in the form of what it reads as (`normalize_of_read`), and that the last write at a path is
what stands there (`Overrides.get_shadow`).
-/
namespace LayeredConfig

namespace Session

variable {s : State}

/-- Whether a profile is at the moment frozen overrides over a frozen snapshot. -/
structure ProfileRef.Over (s : State) (p : ProfileRef) (os : Overrides) (snapshot : Snapshot) : Prop where
  overrides : (overridesOf p).run s = (.ok os, s)
  lineage : ∃ parent, (lineage p).run s = (.ok (snapshot.name, parent), s) ∧ parent.Gives s snapshot
  overrides_frozen : ∀ o ∈ os, o.2.Frozen
  frozen : snapshot.tree.Frozen

theorem ProfileRef.Over.write {p : ProfileRef} {os : Overrides} {snapshot : Snapshot} (hp : p.Over s os snapshot)
    {c : Call} (hc : c.Distinct) {j : Nat} {s' : State} (h : (writeTo (.profile p) c).run s = (.ok (some j), s')) :
    (ProfileRef.derived j).Over s' (os.afterCall c) snapshot := by
  obtain ⟨parent, hl, hgives⟩ := hp.lineage
  rw [run_writeTo_profile hp.overrides hl] at h
  cases hwritten : c.written with
  | error f =>
    rw [hwritten] at h
    cases h
  | ok e =>
    rw [hwritten] at h
    obtain ⟨hj, rfl⟩ := Prod.mk.inj h
    obtain rfl : s.derived.length = j := Option.some.inj (Except.ok.inj hj)
    exact {
      overrides := run_overridesOf (d := .fresh snapshot.name (os.afterCall c)) List.getElem?_concat_length
      lineage := ⟨parent, run_lineage (d := .fresh snapshot.name (os.afterCall c)) List.getElem?_concat_length,
        hgives.derived _⟩
      overrides_frozen := Overrides.afterCall_frozen hp.overrides_frozen hc
      frozen := hp.frozen }

theorem run_read {p : ProfileRef} {q : Profile} (h : ((effective p).run s).1 = .ok q) (kind : Kind) {ref : Raw}
    {path : Path} (hpath : ref.referredPath = .ok path) : ((read p kind ref).run s).1 = q.get kind path := by
  rw [read, run_bind, run_done, hpath]
  dsimp only
  cases heffective : (effective p).run s with
  | mk result s' =>
    obtain rfl : result = .ok q := by rw [← h, heffective]
    rw [run_bind, heffective]
    dsimp only
    rw [run_done]

end Session
end LayeredConfig
