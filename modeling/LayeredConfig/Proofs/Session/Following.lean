import LayeredConfig.Proofs.Session.Derived
/-!
# Derived profiles follow what is served

An application makes coordinators, asks them, takes profiles of them and writes to these, and in between the world
changes. Along with each profile that it keeps it notes where the profile comes from and what was written. Each step
keeps what every derived profile remembers in line with what its coordinator serves (`Follows.step`), so that at any
time a derived profile is what was written over the profile of its name that is served then
(`derived_profiles_follow_the_live_generation`).
-/
namespace LayeredConfig.Session

/-- A profile that an application keeps: the coordinator and the name it was taken of, and what was written to it. -/
structure Kept where
  ref : ProfileRef
  coordinator : Nat
  name : String
  written : Overrides

/-- A session and the profiles that were made in it, the first first. -/
structure Application where
  session : State
  kept : List Kept

/-- What happens in an application: the world changes in any way, a coordinator is made or asked, a profile is taken of
    one, or a profile is written to or read. -/
inductive Event where
  | change (w : World)
  | create (source : Source) (observed : Bool)
  | ask (i : Nat) (a : Coordinator.Ask)
  | take (i : Nat) (name : String)
  | write (k : Nat) (c : Call)
  | read (k : Nat)
  | generation (k : Nat)

namespace Application

variable {app : Application}

def opening (environment : List (String × String)) : Application := ⟨.start environment, []⟩

/-- The application after something was done to one of the profiles that it keeps. -/
def onKept (app : Application) (k : Nat) (act : Kept → Application) : Application :=
  match app.kept[k]? with
  | none => app
  | some h => act h

def step (app : Application) : Event → Application
  | .change w => { app with session := { app.session with world := w } }
  | .create source observed => { app with session := ((newCoordinator source observed).run app.session).2 }
  | .ask i a => { app with session := ((ask i a).run app.session).2 }
  | .take i name =>
    if i < app.session.coordinators.length then
      match (profileOf i name).run app.session with
      | (.ok ref, s) => ⟨s, app.kept ++ [⟨ref, i, name, []⟩]⟩
      | (.error _, s) => { app with session := s }
    else app
  | .write k c =>
    app.onKept k fun h =>
      match (writeTo (.profile h.ref) c).run app.session with
      | (.ok (some j), s) => ⟨s, app.kept ++ [⟨.derived j, h.coordinator, h.name, h.written.afterCall c⟩]⟩
      | (_, s) => { app with session := s }
  | .read k => app.onKept k fun h => { app with session := ((effective h.ref).run app.session).2 }
  | .generation k => app.onKept k fun h => { app with session := ((generationOf h.ref).run app.session).2 }

def run (app : Application) (events : List Event) : Application := events.foldl step app

end Application

/-! ## What every step keeps -/

/-- What a kept profile is when it is derived and remembers something. -/
def Kept.derived (k : Kept) (memo : Option (Int × Tree)) : Derived := ⟨k.name, k.written, memo⟩

/-- Whether a kept profile is what was noted along with it. -/
def Kept.Refers (s : State) (h : Kept) : Prop :=
  match h.ref with
  | .snapshot origin snapshot => origin = .served h.coordinator ∧ snapshot.name = h.name ∧ h.written = []
  | .derived j => ∃ memo, s.derived[j]? = some ⟨h.derived memo, .live h.coordinator⟩

/-- Whether a derived profile has a coordinator that serves something, and remembers nothing else of it. -/
def DerivedCell.Follows (s : State) (c : DerivedCell) : Prop :=
  ∃ i live, c.parent = .live i ∧ s.live i = some live ∧ c.derived.Remembers live

/-- Whether all that is kept follows what is served. -/
structure Follows (app : Application) : Prop where
  served : ∀ h ∈ app.kept, ∃ live, app.session.live h.coordinator = some live
  refers : ∀ h ∈ app.kept, h.Refers app.session
  derived : ∀ c ∈ app.session.derived, c.Follows app.session

variable {app : Application} {s : State}

theorem follows_opening (environment : List (String × String)) : Follows (.opening environment) where
  served := by simp [Application.opening]
  refers := by simp [Application.opening]
  derived := by simp [Application.opening, State.start]

theorem DerivedCell.Follows.advance {c : DerivedCell} {s' : State} (h : c.Follows s) (ha : s.Advances s') :
    c.Follows s' := by
  obtain ⟨i, live, hparent, hlive, hmemo⟩ := h
  obtain ⟨live', hlive', rfl | hlt⟩ := ha i live hlive
  · exact ⟨i, _, hparent, hlive', hmemo⟩
  · exact ⟨i, live', hparent, hlive', hmemo.later hlt⟩

theorem Kept.Refers.of_derived {h : Kept} {s' : State} (hr : h.Refers s)
    (hd : ∀ (j : Nat) memo, s.derived[j]? = some ⟨h.derived memo, .live h.coordinator⟩ →
      ∃ memo', s'.derived[j]? = some ⟨h.derived memo', .live h.coordinator⟩) : h.Refers s' := by
  unfold Kept.Refers at hr ⊢
  cases href : h.ref with
  | snapshot origin snapshot =>
    rw [href] at hr
    exact hr
  | derived j =>
    rw [href] at hr
    obtain ⟨memo, hj⟩ := hr
    exact hd j memo hj

theorem Follows.advance (h : Follows app) {s' : State} (ha : app.session.Advances s')
    (hd : s'.derived = app.session.derived) : Follows ⟨s', app.kept⟩ where
  served := by
    intro kept hkept
    obtain ⟨live, hlive⟩ := h.served kept hkept
    obtain ⟨live', hlive', _⟩ := ha _ live hlive
    exact ⟨live', hlive'⟩
  refers := fun kept hkept => (h.refers kept hkept).of_derived fun j memo hj => ⟨memo, hd ▸ hj⟩
  derived := fun c hc => (h.derived c (hd ▸ hc)).advance ha

theorem Follows.keep (h : Follows app) {kept : Kept} {live : Config}
    (hlive : app.session.live kept.coordinator = some live) (hr : kept.Refers app.session) :
    Follows ⟨app.session, app.kept ++ [kept]⟩ where
  served := by
    intro other hother
    rcases List.mem_append.mp hother with hother | hother
    · exact h.served other hother
    · exact ⟨live, List.mem_singleton.mp hother ▸ hlive⟩
  refers := by
    intro other hother
    rcases List.mem_append.mp hother with hother | hother
    · exact h.refers other hother
    · exact List.mem_singleton.mp hother ▸ hr
  derived := h.derived

theorem Follows.derive (h : Follows app) {i : Nat} {live : Config} (hlive : app.session.live i = some live)
    (name : String) (overrides : Overrides) :
    Follows ⟨{ app.session with derived := app.session.derived ++ [⟨.fresh name overrides, .live i⟩] }, app.kept⟩ where
  served := h.served
  refers := by
    intro kept hkept
    apply (h.refers kept hkept).of_derived
    intro j memo hj
    obtain ⟨hlt, _⟩ := List.getElem?_eq_some_iff.mp hj
    exact ⟨memo, (List.getElem?_append_left hlt).trans hj⟩
  derived := by
    intro c hc
    rcases List.mem_append.mp hc with hc | hc
    · exact h.derived c hc
    · rw [List.mem_singleton.mp hc]
      exact ⟨i, live, rfl, hlive, Derived.remembers_fresh name overrides live⟩

theorem Follows.remember (h : Follows app) {j i : Nat} {d : Derived} {memo : Option (Int × Tree)} {live : Config}
    (hj : app.session.derived[j]? = some ⟨d, .live i⟩) (hlive : app.session.live i = some live)
    (hmemo : { d with memo := memo }.Remembers live) :
    Follows
      ⟨{ app.session with derived := app.session.derived.set j ⟨{ d with memo := memo }, .live i⟩ }, app.kept⟩ where
  served := h.served
  refers := by
    intro kept hkept
    apply (h.refers kept hkept).of_derived
    intro k other hk
    show ∃ memo', (app.session.derived.set j _)[k]? = _
    rw [List.getElem?_set]
    split
    · rename_i hjk
      subst hjk
      obtain ⟨hlt, _⟩ := List.getElem?_eq_some_iff.mp hj
      rw [if_pos hlt]
      cases hj.symm.trans hk
      exact ⟨memo, rfl⟩
    · exact ⟨other, hk⟩
  derived := by
    intro c hc
    rcases List.mem_or_eq_of_mem_set hc with hc | rfl
    · exact h.derived c hc
    · exact ⟨i, live, rfl, hlive, hmemo⟩

theorem Kept.Refers.overrides {k : Kept} (h : k.Refers s) : (overridesOf k.ref).run s = (.ok k.written, s) := by
  unfold Kept.Refers at h
  cases href : k.ref with
  | snapshot origin snapshot =>
    rw [href] at h
    obtain ⟨_, _, hwritten⟩ := h
    rw [hwritten]
    rfl
  | derived j =>
    rw [href] at h
    obtain ⟨memo, hj⟩ := h
    exact run_overridesOf hj

theorem Kept.Refers.lineage {k : Kept} (h : k.Refers s) :
    (lineage k.ref).run s = (.ok (k.name, .live k.coordinator), s) := by
  unfold Kept.Refers at h
  cases href : k.ref with
  | snapshot origin snapshot =>
    rw [href] at h
    obtain ⟨rfl, hname, _⟩ := h
    rw [← hname]
    rfl
  | derived j =>
    rw [href] at h
    obtain ⟨memo, hj⟩ := h
    exact run_lineage hj

theorem Follows.onKept (h : Follows app) {k : Nat} {act : Kept → Application}
    (hact : ∀ kept ∈ app.kept, Follows (act kept)) : Follows (app.onKept k act) := by
  rw [Application.onKept]
  split
  · exact h
  · rename_i kept hkept
    exact hact kept (List.mem_of_getElem? hkept)

theorem Follows.exists_live (h : Follows app) {kept : Kept} (hkept : kept ∈ app.kept) {j : Nat}
    (href : kept.ref = .derived j) :
    ∃ live memo, app.session.live kept.coordinator = some live ∧ (kept.derived memo).Remembers live ∧
      app.session.derived[j]? = some ⟨kept.derived memo, .live kept.coordinator⟩ := by
  have hr := h.refers kept hkept
  rw [Kept.Refers, href] at hr
  obtain ⟨memo, hj⟩ := hr
  obtain ⟨i, live, hparent, hlive, hmemo⟩ := h.derived _ (List.mem_of_getElem? hj)
  cases hparent
  exact ⟨live, memo, hlive, hmemo, hj⟩

theorem Follows.effective_kept (h : Follows app) {kept : Kept} (hkept : kept ∈ app.kept) {j : Nat}
    (href : kept.ref = .derived j) {live : Config} (hlive : app.session.live kept.coordinator = some live) :
    ((effective kept.ref).run app.session).1 =
      (live.profile kept.name).map fun parent => ⟨kept.name, kept.written.apply parent.tree⟩ := by
  obtain ⟨live', memo, hlive', hmemo, hj⟩ := h.exists_live hkept href
  obtain rfl : live = live' := Option.some.inj (hlive.symm.trans hlive')
  have hname : (kept.derived memo).name = kept.name := rfl
  rw [href, run_effective hj hlive]
  cases hprofile : live.profile (kept.derived memo).name with
  | error f =>
    rw [← hname, hprofile]
    rfl
  | ok parent =>
    obtain ⟨htree, memo', heq, _⟩ := hmemo.treeUnder hprofile
    rw [← hname, hprofile]
    dsimp only
    rw [htree, heq]
    rfl

theorem Follows.read (h : Follows app) {kept : Kept} (hkept : kept ∈ app.kept) :
    Follows ⟨((effective kept.ref).run app.session).2, app.kept⟩ := by
  cases href : kept.ref with
  | snapshot origin snapshot => exact h
  | derived j =>
    obtain ⟨live, memo, hlive, hmemo, hj⟩ := h.exists_live hkept href
    rw [run_effective hj hlive]
    cases hprofile : live.profile (kept.derived memo).name with
    | error f => exact h
    | ok parent =>
      obtain ⟨_, memo', heq, hmemo'⟩ := hmemo.treeUnder hprofile
      dsimp only
      rw [heq] at hmemo' ⊢
      exact h.remember hj hlive hmemo'

theorem Follows.ask (h : Follows app) (i : Nat) (a : Coordinator.Ask) :
    Follows ⟨((Session.ask i a).run app.session).2, app.kept⟩ := by
  obtain ⟨reports, journal, hrun⟩ := run_ask i a app.session
  exact h.advance (advances_ask i a app.session) (by rw [hrun])

theorem Follows.step (h : Follows app) (event : Event) : Follows (app.step event) := by
  cases event with
  | change w => exact h.advance (State.advances_of_live fun i => rfl) rfl
  | create source observed =>
    exact h.advance (State.advances_of_live (live_newCoordinator source observed app.session)) rfl
  | ask i a => exact h.ask i a
  | take i name =>
    rw [Application.step]
    split
    · rename_i hi
      have hasked := h.ask i .current
      rcases profileOf_cases hi name with ⟨f, hrun⟩ | ⟨live, snapshot, hrun, hlive, hprofile⟩
      · rw [hrun]
        exact hasked
      · rw [hrun]
        exact hasked.keep hlive ⟨rfl, Config.name_of_profile hprofile, rfl⟩
    · exact h
  | write k c =>
    apply h.onKept
    intro kept hkept
    obtain ⟨live, hlive⟩ := h.served kept hkept
    have hr := h.refers kept hkept
    rw [run_writeTo_profile hr.overrides hr.lineage]
    cases c.written with
    | error f => exact h
    | ok _ =>
      refine (h.derive hlive kept.name (kept.written.afterCall c)).keep hlive ⟨none, ?_⟩
      exact List.getElem?_concat_length
  | read k => exact h.onKept fun kept hkept => h.read hkept
  | generation k =>
    apply h.onKept
    intro kept hkept
    cases href : kept.ref with
    | snapshot origin snapshot => exact h
    | derived j =>
      obtain ⟨live, memo, hlive, _, hj⟩ := h.exists_live hkept href
      rw [run_generationOf hj hlive]
      exact h

theorem Follows.run (h : Follows app) (events : List Event) : Follows (app.run events) := by
  induction events generalizing app with
  | nil => exact h
  | cons event rest ih => exact ih (h.step event)

/-- **Derived profiles follow the live generation.** After any run of an application, in which the world changes in any
    way and coordinators are made and asked, successfully or not, every derived profile that was made in it, by any
    calls on a profile that was taken of a coordinator at any time, reads as the calls written over the profile of its
    name in the configuration that the coordinator serves at the moment, whatever it has remembered before. Its
    generation is the live one, and its name and overrides are those it was made with. The only failure is that the
    profile is missing, and it is a failure exactly when the configuration served does not declare the profile. -/
theorem derived_profiles_follow_the_live_generation (environment : List (String × String)) (events : List Event)
    (happ : app = (Application.opening environment).run events) {kept : Kept} (hkept : kept ∈ app.kept) {j : Nat}
    (href : kept.ref = .derived j) :
    ∃ live, app.session.live kept.coordinator = some live ∧
      ((current kept.coordinator).run app.session).1 = .ok live ∧
      ((lineage kept.ref).run app.session).1 = .ok (kept.name, .live kept.coordinator) ∧
      ((overridesOf kept.ref).run app.session).1 = .ok kept.written ∧
      (∀ parent, live.profile kept.name = .ok parent →
        ((effective kept.ref).run app.session).1 = .ok ⟨kept.name, kept.written.apply parent.tree⟩ ∧
          ((generationOf kept.ref).run app.session).1 = .ok live.generation) ∧
      ∀ f, (((effective kept.ref).run app.session).1 = .error f ↔
          live.contains kept.name = false ∧ f = .profileMissing kept.name (live.profiles.map (·.1))) ∧
        (((generationOf kept.ref).run app.session).1 = .error f ↔
          live.contains kept.name = false ∧ f = .profileMissing kept.name (live.profiles.map (·.1))) := by
  have h : Follows app := happ ▸ (follows_opening environment).run events
  obtain ⟨live, memo, hlive, hmemo, hj⟩ := h.exists_live hkept href
  have hr := h.refers kept hkept
  have hname : (kept.derived memo).name = kept.name := rfl
  have hread := h.effective_kept hkept href hlive
  have hgeneration : ((generationOf kept.ref).run app.session).1 =
      (live.profile kept.name).map fun parent => parent.generation := by
    rw [href, run_generationOf hj hlive, hname]
  refine ⟨live, hlive, ?_, ?_, ?_, ?_, ?_⟩
  · rw [run_current_of_live hlive]
  · rw [hr.lineage]
  · rw [hr.overrides]
  · intro parent hparent
    rw [hread, hgeneration, hparent]
    exact ⟨rfl, congrArg _ (Config.generation_of_profile hparent)⟩
  · intro f
    rw [hread, hgeneration, ← Config.profile_eq_error_iff, Outcome.map_eq_error_iff, Outcome.map_eq_error_iff]
    exact ⟨Iff.rfl, Iff.rfl⟩

/-- A tombstone that is written to a profile of the first generation hides its option in the second. -/
theorem written_tombstone_hides_in_the_next_generation :
    let app := (Application.opening []).run
      [.create (.fixed "mapping" [("a", .scalar (.int 1)), ("b", .scalar (.int 2))]) false, .take 0 defaultProfile,
        .write 0 (.unset (.scalar (.text "a"))), .read 1, .ask 0 .reload]
    ((effective (.derived 0)).run app.session).1 = .ok ⟨defaultProfile, [("b", .scalar (.int 2))]⟩ ∧
      ((generationOf (.derived 0)).run app.session).1 = .ok 2 := by
  intro app
  let path : Path := ⟨["a"], by decide, by decide⟩
  let taken := (Application.opening []).run
    [.create (.fixed "mapping" [("a", .scalar (.int 1)), ("b", .scalar (.int 2))]) false, .take 0 defaultProfile]
  let first : Kept :=
    ⟨.snapshot (.served 0) ⟨⟨defaultProfile, [("a", .scalar (.int 1)), ("b", .scalar (.int 2))]⟩, 1⟩, 0, defaultProfile,
      []⟩
  let second : Kept := ⟨.derived 0, 0, defaultProfile, [(path, .unset)]⟩
  have hgiven : (Call.unset (.scalar (.text "a"))).given = .ok (path, .unset) := rfl
  have hwritten : (Call.unset (.scalar (.text "a"))).written = .ok (path, .unset) := by
    rw [Call.written_of_given hgiven, freeze]
    rfl
  have hafter : Overrides.afterCall [] (.unset (.scalar (.text "a"))) = [(path, .unset)] := by
    rw [Overrides.afterCall, hwritten]
    rfl
  have hwrite : taken.step (.write 0 (.unset (.scalar (.text "a")))) =
      ⟨{ taken.session with derived := [⟨.fresh defaultProfile [(path, .unset)], .live 0⟩] }, [first, second]⟩ := by
    have hfirst : first.Refers taken.session := ⟨rfl, rfl, rfl⟩
    show (match (writeTo (.profile first.ref) _).run taken.session with
      | (.ok (some j), s) => _
      | (_, s) => _) = _
    rw [run_writeTo_profile hfirst.overrides hfirst.lineage, hwritten, hafter]
    rfl
  have happ : app = ((taken.step (.write 0 (.unset (.scalar (.text "a"))))).step (.read 1)).step (.ask 0 .reload) := rfl
  rw [hwrite] at happ
  have hkept : second ∈ app.kept := by
    rw [happ]
    exact List.mem_cons_of_mem _ List.mem_cons_self
  obtain ⟨live, hlive, _, _, _, hread, _⟩ := derived_profiles_follow_the_live_generation [] _ rfl hkept rfl
  have hserved : app.session.live 0 = some ⟨2, [("a", .scalar (.int 1)), ("b", .scalar (.int 2))],
      [(defaultProfile, [("a", .scalar (.int 1)), ("b", .scalar (.int 2))])]⟩ := by
    rw [happ]
    rfl
  cases hserved.symm.trans hlive
  exact hread _ rfl

end LayeredConfig.Session
