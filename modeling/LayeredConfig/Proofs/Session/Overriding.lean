import LayeredConfig.Proofs.Profile.Entries
import LayeredConfig.Proofs.Profile.Overriding
import LayeredConfig.Proofs.Session.Following
import LayeredConfig.Proofs.Session.Typed
/-!
# What a write to a profile changes

A profile of a session stands for a named tree (`ProfileRef.StandsFor`): a snapshot for its own, and a derived profile
for what it reads as, whatever it was derived of and whatever it remembers (`Follows.standsFor`). A write makes a
profile that stands for, and reads as, the tree with one more override (`StandsFor.write`), so that what it lists and
what it defines can be told from what was listed and defined before.
-/
namespace LayeredConfig

namespace Call

variable {ref : Raw} {path : Path}

end Call

namespace Session

variable {s : State} {p : ProfileRef} {P : Profile} {path : Path}

/-- Whether a profile of a session stands for a named tree at the moment: it is overrides over a snapshot, and what
    these make is the tree, but for tombstones that the tree may list and overrides drop. -/
structure ProfileRef.StandsFor (s : State) (p : ProfileRef) (P : Profile) : Prop where
  frozen : P.tree.Frozen
  overrides : ∃ os snapshot, p.Over s os snapshot ∧ snapshot.name = P.name ∧ os.apply snapshot.tree = Tree.prune P.tree

/-- A derived profile of an application stands for what it reads as, whatever it has remembered before. -/
theorem Follows.standsFor {app : Application} (h : Follows app) {kept : Kept} (hkept : kept ∈ app.kept) {j : Nat}
    (href : kept.ref = .derived j) (hwritten : ∀ o ∈ kept.written, o.2.Frozen)
    (hserved : ∀ live parent, app.session.live kept.coordinator = some live →
      live.profile kept.name = .ok parent → parent.tree.Frozen)
    (hreads : ((effective kept.ref).run app.session).1 = .ok P) : kept.ref.StandsFor app.session P := by
  obtain ⟨live, _, hlive, _, _⟩ := h.exists_live hkept href
  rw [h.effective_kept hkept href hlive] at hreads
  obtain ⟨parent, hparent, rfl⟩ := Outcome.map_eq_ok_iff.mp hreads
  have hname : parent.name = kept.name := Config.name_of_profile hparent
  have ht : parent.tree.Frozen := hserved live parent hlive hparent
  have hinto : (kept.written.into parent.tree).Frozen := Writes.into_frozen hwritten ht
  have hrefers := h.refers kept hkept
  have hlineage := hrefers.lineage
  rw [← hname] at hlineage hparent
  exact {
    frozen := hinto.prune
    overrides := ⟨kept.written, parent, ⟨hrefers.overrides, ⟨_, hlineage, live, hlive, hparent⟩, hwritten, ht⟩, hname,
      (Tree.prune_prune hinto).symm⟩ }

/-- A write makes a profile that stands for the tree with one more override, and reads so. -/
theorem ProfileRef.StandsFor.write (hp : p.StandsFor s P) {c : Call} (hc : c.Distinct) {v : Value}
    (hw : c.written = .ok (path, v)) :
    ∃ j s', (writeTo (.profile p) c).run s = (.ok (some j), s') ∧
      ((effective (.derived j)).run s').1 = .ok (P.overridden path v) ∧
      (ProfileRef.derived j).StandsFor s' (P.overridden path v) := by
  obtain ⟨hP, os, snapshot, hover, hname, htree⟩ := hp
  obtain ⟨parent, hl, hgives⟩ := hover.lineage
  have hv : v.Frozen := Call.written_frozen hc hw
  have hrun := run_writeTo_profile hover.overrides hl c
  rw [hw] at hrun
  have happly : (os.afterCall c).apply snapshot.tree = (P.overridden path v).tree := by
    rw [Overrides.afterCall, hw]
    calc (os.shadow path v).apply snapshot.tree
        = Overrides.apply [(path, v)] (os.apply snapshot.tree) :=
          Overrides.apply_shadow hover.overrides_frozen hover.frozen path hv
      _ = Overrides.apply [(path, v)] (Tree.prune P.tree) := by rw [htree]
      _ = (P.overridden path v).tree := Tree.prune_setAt_prune hP path.nonempty path.isKey hv
  have hcell := List.getElem?_concat_length (l := s.derived)
    (a := DerivedCell.mk (.fresh snapshot.name (os.afterCall c)) parent)
  have heffective := effective_of_gives hcell (hgives.derived _)
  have hread : (⟨snapshot.name, (os.afterCall c).apply snapshot.tree⟩ : Profile) = P.overridden path v := by
    rw [happly, hname]
    rfl
  rw [hread] at heffective
  have hfrozen : (P.overridden path v).tree.Frozen := Profile.overridden_frozen hP hv
  refine ⟨_, _, hrun, heffective, hfrozen, _, snapshot, hover.write hc hrun, hname, ?_⟩
  rw [happly, Profile.overridden_tree, Tree.prune_prune (hP.setAt path.isKey hv)]

/-! ## Tombstones -/

end Session
end LayeredConfig
