import LayeredConfig.Proofs.Profile.Offered
import LayeredConfig.Proofs.Session.Derived
import LayeredConfig.Proofs.Tree.Writing
/-!
# Chains of writes

A profile that was derived by many calls keeps one set of overrides, without those that a later one shadows, and lays
them over its parent's tree in one go. What comes of it is what comes of making the calls one at a time, each on the
tree that the call before left (`chained_writes_compose`). The step is `Overrides.apply_shadow`: one more override does
to what the others make of a tree what it does to any tree.
-/
namespace LayeredConfig

/-- The tree that a call alone makes of a tree, or why the call is refused. -/
def Call.on (t : Tree) (c : Call) : Outcome Tree := c.written.map fun w => Overrides.apply [w] t

namespace Overrides

variable {os : Overrides} {t : Tree}

/-- One more override is laid over what the others make of a tree, whichever of them it shadows. -/
theorem apply_shadow (hos : ∀ o ∈ os, o.2.Frozen) (ht : t.Frozen) (path : Path) {v : Value} (hv : v.Frozen) :
    (os.shadow path v).apply t = apply [(path, v)] (os.apply t) := by
  calc (os.shadow path v).apply t
      = Tree.prune ((Writes.into (os.filter fun o => !path.covers o.1) t).setAt path.segments v) := by
        rw [apply, shadow, Writes.into_append, Writes.into_cons, Writes.into_nil]
    _ = Tree.prune ((os.into t).setAt path.segments v) := by rw [Writes.setAt_into_filter hos ht path hv]
    _ = Tree.prune ((Tree.prune (os.into t)).setAt path.segments v) :=
        (Tree.prune_setAt_prune (Writes.into_frozen hos ht) path.nonempty path.isKey hv).symm
    _ = apply [(path, v)] (os.apply t) := rfl

theorem afterCall_frozen (hos : ∀ o ∈ os, o.2.Frozen) {c : Call} (hc : c.Distinct) :
    ∀ o ∈ os.afterCall c, o.2.Frozen := by
  intro o ho
  have hfold : o ∈ [c].foldl afterCall os := ho
  rcases mem_foldl_afterCall hfold with ho | ⟨d, hd, hwritten⟩
  · exact hos o ho
  · exact Call.written_frozen (List.mem_singleton.mp hd ▸ hc) hwritten

theorem on_apply (hos : ∀ o ∈ os, o.2.Frozen) (ht : t.Frozen) {c : Call} (hc : c.Distinct) {w : Path × Value}
    (hw : c.written = .ok w) : c.on (os.apply t) = .ok ((os.afterCall c).apply t) := by
  rw [Call.on, hw, afterCall, hw]
  exact congrArg Except.ok (apply_shadow hos ht w.1 (Call.written_frozen hc hw)).symm

end Overrides

namespace Session

/-- Calls in a chain, each made to the profile that the call before has given. -/
def chain (p : ProfileRef) : List Call → Act ProfileRef
  | [] => pure p
  | c :: rest => do
    match ← writeTo (.profile p) c with
    | some j => chain (.derived j) rest
    | none => pure p

/-- Whether a snapshot is what a derived profile of its name is over at the moment. -/
def Parent.Gives (s : State) (snapshot : Snapshot) : Parent → Prop
  | .pinned _ p => p = snapshot
  | .live i => ∃ live, s.live i = some live ∧ live.profile snapshot.name = .ok snapshot

/-- What profiles that are derived of a snapshot are over. -/
def Origin.parent (snapshot : Snapshot) : Origin → Parent
  | .served i => .live i
  | .alone number => .pinned number snapshot

variable {s : State} {snapshot : Snapshot} {parent : Parent}

theorem Parent.Gives.derived (h : parent.Gives s snapshot) (cells : List DerivedCell) :
    parent.Gives { s with derived := cells } snapshot := by
  cases parent with
  | pinned number p => exact h
  | live i => exact h

theorem run_lineage_snapshot (origin : Origin) (snapshot : Snapshot) (s : State) :
    (lineage (.snapshot origin snapshot)).run s = (.ok (snapshot.name, origin.parent snapshot), s) := by
  cases origin <;> rfl

theorem effective_of_gives {j : Nat} {os : Overrides}
    (hj : s.derived[j]? = some ⟨.fresh snapshot.name os, parent⟩) (h : parent.Gives s snapshot) :
    ((effective (.derived j)).run s).1 = .ok ⟨snapshot.name, os.apply snapshot.tree⟩ := by
  have hparent : ∃ origin, (parentOf j).run s = (.ok (origin, snapshot), s) := by
    cases parent with
    | pinned number p =>
      obtain rfl : p = snapshot := h
      exact ⟨.alone number, run_parentOf_pinned (by rw [State.derivedAt_of_getElem? hj])⟩
    | live i =>
      obtain ⟨live, hlive, hprofile⟩ := h
      refine ⟨.served i, ?_⟩
      rw [run_parentOf hj hlive, Derived.fresh, hprofile]
      rfl
  obtain ⟨origin, hparent⟩ := hparent
  rw [run_effective_over hparent, State.derivedAt_of_getElem? hj]
  rfl

theorem run_chain_cons {α : Type} {p : ProfileRef} {os : Overrides} {name : String}
    (ho : (overridesOf p).run s = (.ok os, s)) (hl : (lineage p).run s = (.ok (name, parent), s)) (c : Call)
    (rest : List Call) (k : ProfileRef → Act α) :
    (chain p (c :: rest) >>= k).run s =
      match c.written with
      | .ok _ =>
        (chain (.derived s.derived.length) rest >>= k).run
          { s with derived := s.derived ++ [⟨.fresh name (os.afterCall c), parent⟩] }
      | .error f => (.error f, s) := by
  rw [chain, run_bind, run_bind, run_writeTo_profile ho hl]
  cases c.written with
  | error f => rfl
  | ok w =>
    dsimp only
    rw [run_bind]

/-- A chain of calls to a derived profile does to its tree what the calls do one at a time. -/
theorem effective_chain_derived {calls : List Call} (hc : ∀ c ∈ calls, c.Distinct) (ht : snapshot.tree.Frozen)
    {os : Overrides} (hos : ∀ o ∈ os, o.2.Frozen) {j : Nat}
    (hj : s.derived[j]? = some ⟨.fresh snapshot.name os, parent⟩) (h : parent.Gives s snapshot) :
    ((chain (.derived j) calls >>= effective).run s).1 =
      (calls.foldlM Call.on (os.apply snapshot.tree)).map fun t => ⟨snapshot.name, t⟩ := by
  induction calls generalizing s os j with
  | nil => exact effective_of_gives hj h
  | cons c rest ih =>
    obtain ⟨hcall, hrest⟩ := List.forall_mem_cons.mp hc
    rw [run_chain_cons (run_overridesOf hj) (run_lineage hj), List.foldlM_cons]
    cases hw : c.written with
    | error f =>
      rw [Call.on, hw]
      rfl
    | ok w =>
      rw [Overrides.on_apply hos ht hcall hw]
      exact ih hrest (Overrides.afterCall_frozen hos hcall) List.getElem?_concat_length (h.derived _)

/-- **Chains of writes compose.** In any session, a chain of calls (values, values of a kind and tombstones, at any
    paths) on a snapshot that stands alone, or that is what its coordinator serves, gives a derived profile whose
    effective tree is that of the calls made one at a time, each replacing what stands at its path in the tree that
    the call before left, and pruning at once. If a call is refused then so is the chain, with the same failure. That
    a derived profile drops overrides that later ones shadow, keeps the others in the order of their last writes and
    prunes only in the end cannot be observed. -/
theorem chained_writes_compose {origin : Origin} (ht : snapshot.tree.Frozen)
    (hgives : (origin.parent snapshot).Gives s snapshot) {calls : List Call} (hc : ∀ c ∈ calls, c.Distinct) :
    ((chain (.snapshot origin snapshot) calls >>= effective).run s).1 =
      (calls.foldlM Call.on snapshot.tree).map fun t => ⟨snapshot.name, t⟩ := by
  cases calls with
  | nil => rfl
  | cons c rest =>
    obtain ⟨hcall, hrest⟩ := List.forall_mem_cons.mp hc
    have hnone : ∀ o ∈ ([] : Overrides), o.2.Frozen := by simp
    rw [run_chain_cons rfl (run_lineage_snapshot origin snapshot s), List.foldlM_cons]
    cases hw : c.written with
    | error f =>
      rw [Call.on, hw]
      rfl
    | ok w =>
      have hfirst : c.on snapshot.tree = .ok ((Overrides.afterCall [] c).apply snapshot.tree) := by
        rw [Call.on, hw, Overrides.afterCall, hw]
        rfl
      rw [hfirst]
      exact effective_chain_derived hrest ht (Overrides.afterCall_frozen hnone hcall) List.getElem?_concat_length
        (hgives.derived _)

/-- A write beneath a path, a tombstone at the path and another write beneath it, one after the other. -/
theorem chain_over_a_section_composes :
    let snapshot : Snapshot := ⟨⟨defaultProfile, [("a", .map [("x", .scalar (.int 1)), ("y", .scalar (.int 2))])]⟩, 1⟩
    let calls : List Call := [.value (.scalar (.text "a.b")) (.scalar (.int 5)), .unset (.scalar (.text "a")),
      .value (.scalar (.text "a.c")) (.scalar (.int 3))]
    ((chain (.snapshot (.alone 0) snapshot) calls >>= effective).run (.start [])).1 =
      .ok ⟨defaultProfile, [("a", .map [("c", .scalar (.int 3))])]⟩ := by
  intro snapshot calls
  have hfirst : (Call.value (.scalar (.text "a.b")) (.scalar (.int 5))).written =
      .ok (⟨["a", "b"], by decide, by decide⟩, .scalar (.int 5)) := by
    rw [Call.written_of_given rfl, freeze]
    rfl
  have hsecond : (Call.unset (.scalar (.text "a"))).written = .ok (⟨["a"], by decide, by decide⟩, .unset) := by
    rw [Call.written_of_given rfl, freeze]
    rfl
  have hthird : (Call.value (.scalar (.text "a.c")) (.scalar (.int 3))).written =
      .ok (⟨["a", "c"], by decide, by decide⟩, .scalar (.int 3)) := by
    rw [Call.written_of_given rfl, freeze]
    rfl
  have hc : ∀ c ∈ calls, c.Distinct := by simp [calls, Call.Distinct, Raw.Distinct]
  have hfrozen : snapshot.tree.Frozen := by decide
  have hgives : (Origin.parent snapshot (.alone 0)).Gives (.start []) snapshot := rfl
  rw [chained_writes_compose hfrozen hgives hc]
  simp only [calls, List.foldlM_cons, List.foldlM_nil, Call.on, hfirst, hsecond, hthird]
  rfl

end Session
end LayeredConfig
