import LayeredConfig.Proofs.Builder.Calls
/-!
# Derived profiles in a session

Reading a derived profile reads the configuration that its coordinator serves (`run_effective`), and what it remembers
is what it would compute (`Derived.Remembers.treeUnder`), as long as it has remembered it of a configuration that was
served (`Derived.Remembers`). Writing to a profile makes a derived one of the same line (`run_derive`).
-/
namespace LayeredConfig

/-- The path and the stored value that a call writes, or why it is refused. -/
def Call.written (c : Call) : Outcome (Path × Value) := do
  let (path, raw) ← c.given
  let v ← freeze path.text raw
  .ok (path, v)

theorem Call.written_of_given {c : Call} {path : Path} {raw : Raw} (h : c.given = .ok (path, raw)) :
    c.written = (freeze path.text raw).map fun v => (path, v) := by
  rw [written, h]
  show ((freeze path.text raw).bind fun v => .ok (path, v)) = _
  cases freeze path.text raw <;> rfl

theorem Call.written_of_given_error {c : Call} {f : Failure} (h : c.given = .error f) : c.written = .error f := by
  rw [written, h]
  rfl

/-- Overrides after a call; a call that is refused changes nothing. -/
def Overrides.afterCall (os : Overrides) (c : Call) : Overrides :=
  match c.written with
  | .error _ => os
  | .ok (path, v) => os.shadow path v

/-! ## What a derived profile remembers -/

/-- Whether what a derived profile remembers is of an earlier generation, or is what it would compute of the
    configuration that is served. -/
def Derived.Remembers (d : Derived) (live : Config) : Prop :=
  ∀ generation tree, d.memo = some (generation, tree) →
    generation ≤ live.generation ∧
      (generation = live.generation → ∃ parent, live.profile d.name = .ok parent ∧ tree = d.overrides.apply parent.tree)

namespace Derived

variable {d : Derived} {live : Config} {parent : Snapshot}

theorem remembers_fresh (name : String) (overrides : Overrides) (live : Config) :
    (fresh name overrides).Remembers live := by
  intro generation tree h
  cases h

theorem Remembers.later (h : d.Remembers live) {live' : Config} (hlt : live.generation < live'.generation) :
    d.Remembers live' := by
  intro generation tree hmemo
  obtain ⟨hle, _⟩ := h generation tree hmemo
  exact ⟨by omega, fun heq => by omega⟩

theorem treeUnder_of_memo {generation : Int} {tree : Tree} (hmemo : d.memo = some (generation, tree))
    (h : generation = parent.generation) : d.treeUnder parent = (tree, d) := by
  rw [treeUnder, hmemo]
  exact if_pos h

theorem treeUnder_anew (h : ∀ tree, d.memo ≠ some (parent.generation, tree)) :
    d.treeUnder parent = (d.overrides.apply parent.tree,
      { d with memo := some (parent.generation, d.overrides.apply parent.tree) }) := by
  rw [treeUnder]
  split
  · rename_i generation tree hmemo
    have hne : generation ≠ parent.generation := by
      rintro rfl
      exact h tree hmemo
    exact if_neg hne
  · rfl

/-- What is remembered is what would be computed, and reading leaves it so. -/
theorem Remembers.treeUnder (h : d.Remembers live) (hparent : live.profile d.name = .ok parent) :
    (d.treeUnder parent).1 = d.overrides.apply parent.tree ∧
      ∃ memo, (d.treeUnder parent).2 = { d with memo := memo } ∧ (d.treeUnder parent).2.Remembers live := by
  have hgeneration : parent.generation = live.generation := Config.generation_of_profile hparent
  by_cases hmemo : ∃ tree, d.memo = some (parent.generation, tree)
  · obtain ⟨tree, hmemo⟩ := hmemo
    obtain ⟨_, hlive⟩ := h _ _ hmemo
    obtain ⟨parent', hparent', rfl⟩ := hlive hgeneration
    obtain rfl : parent' = parent := Except.ok.inj (hparent'.symm.trans hparent)
    rw [treeUnder_of_memo hmemo rfl]
    exact ⟨rfl, d.memo, rfl, h⟩
  · rw [treeUnder_anew fun tree heq => hmemo ⟨tree, heq⟩]
    refine ⟨rfl, _, rfl, ?_⟩
    intro generation tree heq
    cases heq
    exact ⟨hgeneration.le, fun _ => ⟨parent, hparent, rfl⟩⟩

end Derived

/-! ## Reading -/

namespace Session

variable {s s' : State} {i j : Nat} {d : Derived} {live : Config}

/-- A derived profile under a number; one that is not in use is derived from nothing. -/
def State.derivedAt (s : State) (j : Nat) : DerivedCell :=
  s.derived[j]?.getD ⟨.fresh defaultProfile [], .pinned 0 ⟨⟨defaultProfile, []⟩, 0⟩⟩

theorem State.derivedAt_of_getElem? {c : DerivedCell} (hc : s.derived[j]? = some c) : s.derivedAt j = c := by
  rw [State.derivedAt, hc]
  rfl

theorem run_derivedAt (j : Nat) (s : State) : (derivedCell j).run s = (.ok (s.derivedAt j), s) := rfl

theorem run_derivedCell {c : DerivedCell} (hc : s.derived[j]? = some c) : (derivedCell j).run s = (.ok c, s) := by
  rw [run_derivedAt, State.derivedAt_of_getElem? hc]

theorem run_parentOf_pinned {number : Nat} {snapshot : Snapshot}
    (h : (s.derivedAt j).parent = .pinned number snapshot) :
    (parentOf j).run s = (.ok (.alone number, snapshot), s) := by
  rw [parentOf, run_bind, run_derivedAt]
  dsimp only
  rw [h]
  rfl

theorem run_parentOf_live (h : (s.derivedAt j).parent = .live i) (hcurrent : (current i).run s = (.ok live, s')) :
    (parentOf j).run s = ((live.profile (s.derivedAt j).derived.name).map fun p => (.served i, p), s') := by
  rw [parentOf, run_bind, run_derivedAt]
  dsimp only
  rw [h]
  dsimp only
  rw [run_bind, hcurrent]
  dsimp only
  rw [run_bind, run_done]
  cases live.profile (s.derivedAt j).derived.name <;> rfl

theorem run_parentOf (hc : s.derived[j]? = some ⟨d, .live i⟩) (hlive : s.live i = some live) :
    (parentOf j).run s = ((live.profile d.name).map fun parent => (.served i, parent), s) := by
  have hat := State.derivedAt_of_getElem? hc
  rw [run_parentOf_live (by rw [hat]) (run_current_of_live hlive), hat]

/-- A derived profile is read over the parent that it has at the moment, and keeps what was computed of it. -/
theorem run_effective_over {origin : Origin} {parent : Snapshot} {s₁ : State}
    (h : (parentOf j).run s = (.ok (origin, parent), s₁)) :
    let read := (s₁.derivedAt j).derived.treeUnder parent
    (effective (.derived j)).run s = (.ok ⟨read.2.name, read.1⟩,
      { s₁ with derived := s₁.derived.set j { s₁.derivedAt j with derived := read.2 } }) := by
  intro read
  rw [effective, run_bind, h]
  rfl

theorem run_effective (hc : s.derived[j]? = some ⟨d, .live i⟩) (hlive : s.live i = some live) :
    (effective (.derived j)).run s =
      match live.profile d.name with
      | .ok parent =>
        (.ok ⟨(d.treeUnder parent).2.name, (d.treeUnder parent).1⟩,
          { s with derived := s.derived.set j ⟨(d.treeUnder parent).2, .live i⟩ })
      | .error f => (.error f, s) := by
  have hparent := run_parentOf hc hlive
  cases hprofile : live.profile d.name with
  | error f =>
    rw [effective, run_bind, hparent, hprofile]
    rfl
  | ok parent =>
    rw [hprofile] at hparent
    rw [run_effective_over hparent, State.derivedAt_of_getElem? hc]

theorem run_generationOf (hc : s.derived[j]? = some ⟨d, .live i⟩) (hlive : s.live i = some live) :
    (generationOf (.derived j)).run s = ((live.profile d.name).map fun parent => parent.generation, s) := by
  rw [generationOf, run_bind, run_parentOf hc hlive]
  cases live.profile d.name <;> rfl

theorem run_overridesOf {parent : Parent} (hc : s.derived[j]? = some ⟨d, parent⟩) :
    (overridesOf (.derived j)).run s = (.ok d.overrides, s) := by
  rw [overridesOf, run_bind, run_derivedCell hc]
  rfl

theorem run_lineage {parent : Parent} (hc : s.derived[j]? = some ⟨d, parent⟩) :
    (lineage (.derived j)).run s = (.ok (d.name, parent), s) := by
  rw [lineage, run_bind, run_derivedCell hc]
  rfl

theorem profileOf_cases (hi : i < s.coordinators.length) (name : String) :
    (∃ f, (profileOf i name).run s = (.error f, ((ask i .current).run s).2)) ∨
      ∃ live snapshot, (profileOf i name).run s =
          (.ok (.snapshot (.served i) snapshot), ((ask i .current).run s).2) ∧
        ((ask i .current).run s).2.live i = some live ∧ live.profile name = .ok snapshot := by
  have hask : ((ask i .current).run s).2 = s.answered i (s.cellAt i)
      ((s.cellAt i).coordinator.demand (s.cellAt i).source.feed s.world) := by
    rw [ask, current, run_settled]
  have hset : ((ask i .current).run s).2.coordinators = s.coordinators.set i { s.cellAt i with
      coordinator := ((s.cellAt i).coordinator.demand (s.cellAt i).source.feed s.world).coordinator } := by
    rw [hask, State.answered]
  have hlive := State.live_set hset i
  rw [if_pos ⟨rfl, hi⟩] at hlive
  rw [profileOf, run_bind, current, run_request, ← hask]
  cases hresult : ((s.cellAt i).coordinator.demand (s.cellAt i).source.feed s.world).result with
  | error f => exact .inl ⟨f, rfl⟩
  | ok live =>
    dsimp only
    rw [run_bind, run_done]
    cases hprofile : live.profile name with
    | error f => exact .inl ⟨f, rfl⟩
    | ok snapshot => exact .inr ⟨live, snapshot, rfl, hlive.trans (Coordinator.current_of_demand hresult), hprofile⟩

/-! ## Writing -/

/-- A write to a profile makes a derived one of the same name and parent, with one more override. -/
theorem run_derive {p : ProfileRef} {overrides : Overrides} {name : String} {parent : Parent}
    (ho : (overridesOf p).run s = (.ok overrides, s)) (hl : (lineage p).run s = (.ok (name, parent), s)) (path : Path)
    (value : Raw) :
    (derive p path value).run s =
      match freeze path.text value with
      | .ok v =>
        (.ok s.derived.length, { s with derived := s.derived ++ [⟨.fresh name (overrides.shadow path v), parent⟩] })
      | .error f => (.error f, s) := by
  rw [derive, run_bind, ho]
  dsimp only
  rw [run_bind, run_done]
  cases freeze path.text value with
  | error f => rfl
  | ok v =>
    dsimp only
    rw [run_bind, hl]
    rfl

theorem run_writeTo_profile {p : ProfileRef} {overrides : Overrides} {name : String} {parent : Parent}
    (ho : (overridesOf p).run s = (.ok overrides, s)) (hl : (lineage p).run s = (.ok (name, parent), s)) (c : Call) :
    (writeTo (.profile p) c).run s =
      match c.written with
      | .ok _ =>
        (.ok (some s.derived.length),
          { s with derived := s.derived ++ [⟨.fresh name (overrides.afterCall c), parent⟩] })
      | .error f => (.error f, s) := by
  rw [run_writeTo]
  cases hgiven : c.given with
  | error f => rw [Call.written_of_given_error hgiven]
  | ok given =>
    obtain ⟨path, raw⟩ := given
    dsimp only
    rw [writeAt, run_bind, run_derive ho hl, Overrides.afterCall, Call.written_of_given hgiven]
    cases freeze path.text raw <;> rfl

end Session
end LayeredConfig
