import LayeredConfig.Proofs.Coordinator.Passes
import LayeredConfig.Proofs.Profile.Resolution
import LayeredConfig.Proofs.Source.Files
/-!
# Reloading what has changed

A coordinator over layers of fixed trees and files, while the files change and passes succeed or fail. When the
layers say that nothing has changed, a pass over the files as they are would publish what the layers recall, and
that is what is served exactly as long as it agrees with it (`unchanged_layers_serve_their_files_iff`). The passes
that break the agreement are the torn ones: a layer hands nothing out after one before it has taken note of a change.
-/
namespace LayeredConfig

/-- A coordinator and the world around its source. -/
structure Serving where
  coordinator : Coordinator
  world : World

/-- What happens: the files change in any way, or the coordinator is asked for something. -/
inductive Event where
  | files (files : Directory)
  | current
  | reload
  | reloadIfChanged

namespace Serving

variable {layers : List Layer} {s : Serving}

def feed (layers : List Layer) : Feed World := (Source.layered (layers.map Layer.source)).feed

def pass (layers : List Layer) (s : Serving) : Serving :=
  ⟨(s.coordinator.advance (feed layers) s.world).coordinator, (s.coordinator.advance (feed layers) s.world).state⟩

def step (layers : List Layer) (s : Serving) : Event → Serving
  | .files d => { s with world := { s.world with files := d } }
  | .current =>
    let answer := s.coordinator.demand (feed layers) s.world
    ⟨answer.coordinator, answer.state⟩
  | .reload =>
    let answer := s.coordinator.reload (feed layers) s.world
    ⟨answer.coordinator, answer.state⟩
  | .reloadIfChanged =>
    let answer := s.coordinator.reloadIfChanged (feed layers) s.world
    ⟨answer.coordinator, answer.state⟩

def run (layers : List Layer) (s : Serving) (events : List Event) : Serving := events.foldl (step layers) s

def Passes (layers : List Layer) (s : Serving) : Event → Prop
  | .files _ => False
  | .current => s.coordinator.current = none
  | .reload => True
  | .reloadIfChanged => (feed layers).changed s.coordinator.generation s.world = .ok true

def Succeeds (layers : List Layer) (s : Serving) : Prop :=
  ∃ config, (s.coordinator.advance (feed layers) s.world).result = .ok config

/-! ## What one step does -/

theorem feed_fetch (layers : List Layer) (w : World) :
    (feed layers).fetch w = fetchLayers (.tree []) (layers.map Layer.source) w :=
  fetch_layered layers w

@[simp] theorem step_files (d : Directory) :
    step layers s (.files d) = ⟨s.coordinator, { s.world with files := d }⟩ := rfl

theorem step_of_passes {e : Event} (h : Passes layers s e) : step layers s e = pass layers s := by
  cases e with
  | files d => exact absurd h not_false
  | current =>
    rw [step, Coordinator.demand, show s.coordinator.current = none from h]
    rfl
  | reload =>
    obtain ⟨hc, hs⟩ := s.coordinator.reload_leaves (feed layers) s.world
    rw [step, pass, ← hc, ← hs]
  | reloadIfChanged =>
    obtain ⟨hc, hs⟩ := Coordinator.reloadIfChanged_leaves h
    rw [step, pass, ← hc, ← hs]

theorem step_of_not_passes {e : Event} (h : ¬ Passes layers s e) :
    (step layers s e).coordinator = s.coordinator ∧ (step layers s e).world.sightings = s.world.sightings := by
  cases e with
  | files d => exact ⟨rfl, rfl⟩
  | current =>
    rw [step, Coordinator.demand]
    cases hcurrent : s.coordinator.current with
    | none => exact absurd hcurrent h
    | some config => exact ⟨rfl, rfl⟩
  | reload => exact absurd trivial h
  | reloadIfChanged =>
    obtain ⟨hc, hs⟩ := Coordinator.reloadIfChanged_stays h
    rw [step]
    exact ⟨hc, congrArg World.sightings hs⟩

/-- Whether a pass fails or not, what its fetch has noted stays noted. -/
theorem pass_world (layers : List Layer) (s : Serving) :
    (pass layers s).world = (fetchLayers (.tree []) (layers.map Layer.source) s.world).2 := by
  rw [← feed_fetch]
  exact Coordinator.advance_state s.coordinator (feed layers) s.world

theorem publishes_iff {config : Config} :
    (s.coordinator.advance (feed layers) s.world).result = .ok config ↔
      ∃ t, overlay (Layer.read s.world.files) [] layers = some t ∧
        Config.resolve (.tree t) (s.coordinator.generation + 1) = .ok config := by
  have hcontent := (fetchLayers_layers layers [] s.world).1
  rw [Coordinator.advance_eq_ok_iff, feed_fetch]
  constructor
  · intro h
    obtain ⟨content, w', hf, hr⟩ := h
    rw [hf] at hcontent
    obtain ⟨t, ht, rfl⟩ := Option.map_eq_some_iff.mp hcontent.symm
    exact ⟨t, ht, hr⟩
  · intro h
    obtain ⟨t, ht, hr⟩ := h
    rw [ht] at hcontent
    cases hf : fetchLayers (.tree []) (layers.map Layer.source) s.world with
    | mk fetched w' =>
      rw [hf] at hcontent
      cases fetched with
      | error failure => cases hcontent
      | ok content =>
        cases hcontent
        exact ⟨.tree t, w', rfl, hr⟩

theorem pass_cases (layers : List Layer) (s : Serving) :
    (∃ failure w', fetchLayers (.tree []) (layers.map Layer.source) s.world = (.error failure, w') ∧
        pass layers s = ⟨s.coordinator, w'⟩ ∧ ¬ Succeeds layers s) ∨
      ∃ t w', fetchLayers (.tree []) (layers.map Layer.source) s.world = (.ok (.tree t), w') ∧
        overlay (Layer.read s.world.files) [] layers = some t ∧
        ((pass layers s = ⟨s.coordinator, w'⟩ ∧
            ∀ config, Config.resolve (.tree t) (s.coordinator.generation + 1) ≠ .ok config) ∨
          ∃ config, Config.resolve (.tree t) (s.coordinator.generation + 1) = .ok config ∧
            pass layers s = ⟨⟨some config⟩, w'⟩) := by
  have hcontent := (fetchLayers_layers layers [] s.world).1
  cases hf : fetchLayers (.tree []) (layers.map Layer.source) s.world with
  | mk fetched w' =>
    have hfetch := (feed_fetch layers s.world).trans hf
    cases fetched with
    | error failure =>
      have hadvance := Coordinator.advance_of_error (c := s.coordinator) hfetch
      exact .inl ⟨failure, w', rfl, by rw [pass, hadvance], by simp [Succeeds, hadvance]⟩
    | ok content =>
      rw [hf] at hcontent
      obtain ⟨t, ht, rfl⟩ := Option.map_eq_some_iff.mp hcontent.symm
      refine .inr ⟨t, w', rfl, ht, ?_⟩
      cases hr : Config.resolve (.tree t) (s.coordinator.generation + 1) with
      | error failure => exact .inl ⟨by rw [pass, Coordinator.advance_of_unresolved hfetch hr], by simp⟩
      | ok config => exact .inr ⟨config, rfl, by rw [pass, Coordinator.advance_of_ok hfetch hr]⟩

/-! ## What is recalled and what is served -/

/-- Whether what the layers recall, if it resolves, is what is served. -/
def Steady (layers : List Layer) (s : Serving) : Prop :=
  ∀ live t generation config, s.coordinator.current = some live →
    overlay (Layer.recalled s.world) [] layers = some t → Config.resolve (.tree t) generation = .ok config →
      config.SameContent live

theorem Steady.congr {s' : Serving} (h : Steady layers s) (hc : s'.coordinator = s.coordinator)
    (hs : ∀ memory, s'.world.sighting memory = s.world.sighting memory) : Steady layers s' := by
  intro live t generation config hlive ht hr
  rw [hc] at hlive
  rw [overlay_congr fun l _ => Layer.recalled_congr hs l] at ht
  exact h live t generation config hlive ht hr

theorem overlay_recalled_of_inStep {w : World} (h : ∀ l ∈ layers, l.InStep w) :
    overlay (Layer.recalled w) [] layers = overlay (Layer.read w.files) [] layers :=
  overlay_congr (fun l hl => Layer.recalled_of_inStep (h l hl)) []

theorem overlay_recalled_of_fetch {w w' : World} (hown : OwnMemories layers w) {t : Tree}
    (hf : fetchLayers (.tree []) (layers.map Layer.source) w = (.ok (.tree t), w'))
    (ht : overlay (Layer.read w.files) [] layers = some t) : overlay (Layer.recalled w') [] layers = some t := by
  have hfiles := (fetchLayers_layers layers [] w).2.1
  rw [hf] at hfiles
  have hstep : ∀ l ∈ layers, l.InStep w' :=
    fun l hl => fetchLayers_inStep (fun _ h => h) hown hf hl (.inl hl)
  rw [overlay_recalled_of_inStep hstep, hfiles, ht]

theorem steady_of_succeeds (hown : OwnMemories layers s.world) (h : Succeeds layers s) :
    Steady layers (pass layers s) := by
  rcases pass_cases layers s with ⟨_, _, _, _, hnot⟩ | ⟨t, w', hf, ht, hres⟩
  · exact absurd h hnot
  · rcases hres with ⟨_, hnone⟩ | ⟨config, hr, hpass⟩
    · obtain ⟨config, hconfig⟩ := h
      obtain ⟨u, hu, hr⟩ := publishes_iff.mp hconfig
      rw [ht] at hu
      cases hu
      exact absurd hr (hnone config)
    · rw [hpass]
      intro live u generation config' hlive hu hr'
      cases hlive
      rw [overlay_recalled_of_fetch hown hf ht] at hu
      cases hu
      exact Config.sameContent_of_resolve hr' hr

theorem Steady.pass (h : Steady layers s) (hown : OwnMemories layers s.world) (hnot : ¬ Torn layers s.world) :
    Steady layers (pass layers s) := by
  rcases pass_cases layers s with ⟨failure, w', hf, hpass, _⟩ | ⟨t, w', hf, ht, hres⟩
  · rw [hpass]
    rcases sighting_of_not_torn hf hown.known hnot with hkept | ⟨l, hl, hnone⟩
    · exact h.congr rfl hkept
    · intro live t generation config _ ht
      rw [overlay_eq_none hl hnone] at ht
      cases ht
  · rcases hres with ⟨hpass, hnone⟩ | ⟨config, hr, _⟩
    -- what was fetched is noted but does not resolve, so there is nothing to agree with
    · rw [hpass]
      intro live u generation config _ hu hr
      rw [overlay_recalled_of_fetch hown hf ht] at hu
      cases hu
      exact absurd (Config.resolve_generation hr _) (hnone _)
    · exact steady_of_succeeds hown ⟨config, publishes_iff.mpr ⟨t, ht, hr⟩⟩

/-! ## Runs -/

/-- Whether, after one more step, some pass was torn since the last one that succeeded. -/
def TornAfter (layers : List Layer) (s : Serving) (torn : Prop) (e : Event) : Prop :=
  Passes layers s e ∧ Torn layers s.world ∨ torn ∧ ¬ (Passes layers s e ∧ Succeeds layers s)

/-- Whether, at the end of a run, some pass was torn since the last one that succeeded. -/
def TornIn (layers : List Layer) (s : Serving) (torn : Prop) : List Event → Prop
  | [] => torn
  | e :: rest => TornIn layers (step layers s e) (TornAfter layers s torn e) rest

@[simp] theorem tornAfter_files {torn : Prop} (d : Directory) : TornAfter layers s torn (.files d) ↔ torn := by
  simp [TornAfter, Passes]

theorem not_tornAfter {torn : Prop} {e : Event} (h : ¬ Torn layers s.world) (hnot : ¬ torn) :
    ¬ TornAfter layers s torn e := by
  rw [TornAfter, not_or]
  exact ⟨fun hpasses => h hpasses.2, fun hkeep => hnot hkeep.1⟩

theorem ownMemories_step (hown : OwnMemories layers s.world) (e : Event) :
    OwnMemories layers (step layers s e).world := by
  apply hown.congr
  by_cases h : Passes layers s e
  · rw [step_of_passes h, pass_world]
    exact (fetchLayers_layers layers [] s.world).2.2
  · rw [(step_of_not_passes h).2]

theorem steady_step {torn : Prop} (hown : OwnMemories layers s.world) (h : ¬ torn → Steady layers s) {e : Event}
    (hnot : ¬ TornAfter layers s torn e) : Steady layers (step layers s e) := by
  rw [TornAfter, not_or] at hnot
  obtain ⟨hwhole, hkeep⟩ := hnot
  by_cases hpasses : Passes layers s e
  · rw [step_of_passes hpasses]
    by_cases hsucceeds : Succeeds layers s
    -- whatever was torn before, a pass that succeeds notes and serves the same
    · exact steady_of_succeeds hown hsucceeds
    · have hsteady := h fun htorn => hkeep ⟨htorn, fun hboth => hsucceeds hboth.2⟩
      exact hsteady.pass hown fun htorn => hwhole ⟨hpasses, htorn⟩
  · obtain ⟨hc, hs⟩ := step_of_not_passes hpasses
    have hsteady := h fun htorn => hkeep ⟨htorn, fun hboth => hpasses hboth.1⟩
    refine hsteady.congr hc ?_
    intro memory
    rw [World.sighting, World.sighting, hs]

theorem steady_run {torn : Prop} (hown : OwnMemories layers s.world) (h : ¬ torn → Steady layers s)
    {events : List Event} (hnot : ¬ TornIn layers s torn events) : Steady layers (run layers s events) := by
  induction events generalizing s torn with
  | nil => exact h hnot
  | cons e rest ih => exact ih (ownMemories_step hown e) (fun hstep => steady_step hown h hstep) hnot

theorem overlay_recalled_of_quiet
    (hquiet : (s.coordinator.reloadIfChanged (feed layers) s.world).result = .ok false) :
    overlay (Layer.recalled s.world) [] layers = overlay (Layer.read s.world.files) [] layers := by
  have hchanged : anyChangedSince s.coordinator.generation s.world (layers.map Layer.source) = .ok false := by
    rw [← Coordinator.changed_of_reloadIfChanged_false hquiet]
    show _ = (Source.layered (layers.map Layer.source)).changedSince s.coordinator.generation s.world
    rw [Source.changedSince]
  exact overlay_recalled_of_inStep (inStep_of_anyChangedSince hchanged)

/-- While nothing has changed, what a pass would publish is served exactly when what is recalled is served. -/
theorem publishes_live_iff_steady
    (hquiet : (s.coordinator.reloadIfChanged (feed layers) s.world).result = .ok false) {live : Config}
    (hlive : s.coordinator.current = some live) :
    (∀ config, (s.coordinator.advance (feed layers) s.world).result = .ok config → config.SameContent live) ↔
      Steady layers s := by
  have hrecalled := overlay_recalled_of_quiet hquiet
  constructor
  · intro h live' t generation config hlive' ht hr
    rw [hlive] at hlive'
    cases hlive'
    rw [hrecalled] at ht
    have hnow := Config.resolve_generation hr (s.coordinator.generation + 1)
    have hsame := h _ (publishes_iff.mpr ⟨t, ht, hnow⟩)
    exact ⟨hsame.1, hsame.2⟩
  · intro h config hconfig
    obtain ⟨t, ht, hr⟩ := publishes_iff.mp hconfig
    exact h live t _ config hlive (hrecalled.trans ht) hr

/-! ## A file that is malformed for a while -/

/-- Layers of two required files, each with a memory of its own. -/
def twoFiles : List Layer := [.file ⟨"x.toml", none, true, 0⟩, .file ⟨"y.toml", none, true, 1⟩]

/-- Nothing served, and nothing seen of either file. -/
def unread : Serving := ⟨.fresh, ⟨[], [], [], [.never, .never]⟩⟩

def holding (x y : String) : Directory :=
  (Directory.put [] "x.toml" (.file x.toUTF8)).put "y.toml" (.file y.toUTF8)

/-- The first file is overwritten while the second is malformed and a reload is asked for; then the second is as
before. -/
def mishap (x x' : String) : List Event :=
  [.files (holding x ""), .current, .files (holding x' "["), .reload, .files (holding x' "")]

/-- Whether a text gives one key an integer and nothing else. -/
structure Gives (x : String) (i : Int) : Prop where
  parses : Toml.parseBytes x.toUTF8 = .ok [(.text "a", .scalar (.int i))]
  fits : (Scalar.int i).fits

def serving (generation i : Int) : Config :=
  ⟨generation, [("a", .scalar (.int i))], [(defaultProfile, [("a", .scalar (.int i))])]⟩

theorem resolve_serving (generation i : Int) :
    Config.resolve (.tree [("a", .scalar (.int i))]) generation = .ok (serving generation i) := rfl

section

variable {x x' y : String} {i i' : Int} {w : World}

theorem ownMemories_twoFiles (w : World) (h : w.sightings.length = 2) : OwnMemories twoFiles w := by
  refine ⟨?_, ?_⟩
  · intro f g hf hg
    simp only [twoFiles, List.mem_cons, Layer.file.injEq, List.not_mem_nil, or_false] at hf hg
    rcases hf with rfl | rfl <;> rcases hg with rfl | rfl <;> simp
  · intro f hf
    simp only [twoFiles, List.mem_cons, Layer.file.injEq, List.not_mem_nil, or_false] at hf
    rcases hf with rfl | rfl <;> simp [h]

theorem fetch_first (hx : Gives x i) (hread : w.files.read "x.toml" = .content x.toUTF8) :
    Source.fetch (.file ⟨"x.toml", none, true, 0⟩) w =
      (.ok (.tree [("a", .scalar (.int i))]), w.remember 0 (.bytes x.toUTF8)) := by
  have hordered : orderedByKey [(.text "a", Raw.scalar (.int i))] = .ok [(.text "a", Raw.scalar (.int i))] := rfl
  have hfreeze : freeze (.text "a") (.scalar (.int i)) = .ok (.scalar (.int i)) := by
    rw [freeze, if_pos hx.fits]
  have hexpand : expand [(.text "a", Raw.scalar (.int i))] = .ok [("a", Value.scalar (.int i))] := by
    refine Outcome.bind_eq_ok_iff.mpr ⟨_, hordered, ?_⟩
    rw [expandFrom, hfreeze]
    rfl
  rw [Source.fetch]
  exact FileSource.fetch_of_expand rfl hread hx.parses hexpand

theorem fetch_twoFiles (hx : Gives x i) (hw : w.files = holding x y) :
    (feed twoFiles).fetch w = fetchLayers (.tree [("a", .scalar (.int i))])
      [.file ⟨"y.toml", none, true, 1⟩] (w.remember 0 (.bytes x.toUTF8)) := by
  rw [feed_fetch, twoFiles, List.map_cons, Layer.source, fetchLayers_cons, fetch_first hx (by rw [hw]; rfl)]
  rfl

theorem read_second (hw : w.files = holding x y) (seen : Sighting) :
    (w.remember 0 seen).files.read "y.toml" = .content y.toUTF8 := by
  rw [World.files_remember, hw]
  rfl

theorem fetch_twoFiles_empty (hx : Gives x i) (hw : w.files = holding x "") :
    (feed twoFiles).fetch w = (.ok (.tree [("a", .scalar (.int i))]),
      (w.remember 0 (.bytes x.toUTF8)).remember 1 (.bytes "".toUTF8)) := by
  have hparse : Toml.parseBytes "".toUTF8 = .ok [] := rfl
  have hsecond := FileSource.fetch_of_expand (f := ⟨"y.toml", none, true, 1⟩) rfl
    (read_second hw (.bytes x.toUTF8)) hparse rfl
  rw [fetch_twoFiles hx hw, fetchLayers_cons, Source.fetch, hsecond]
  rfl

theorem fetch_twoFiles_malformed (hx : Gives x i) (hw : w.files = holding x "[") :
    (feed twoFiles).fetch w = (.error (.fileMalformed "y.toml"), w.remember 0 (.bytes x.toUTF8)) := by
  rw [fetch_twoFiles hx hw, fetchLayers_cons, Source.fetch, FileSource.fetch, read_second hw]
  rfl

theorem step_current_unread (hx : Gives x i) :
    step twoFiles (step twoFiles unread (.files (holding x ""))) .current =
      ⟨⟨some (serving 1 i)⟩, ⟨holding x "", [], [], [.bytes x.toUTF8, .bytes "".toUTF8]⟩⟩ := calc
  _ = pass twoFiles _ := step_of_passes (by rfl)
  _ = _ := by
    rw [pass, Coordinator.advance_of_ok (fetch_twoFiles_empty hx rfl) (resolve_serving _ i)]
    rfl

/-- After the mishap the old content of the first file is served, though its new content has been seen. -/
theorem run_mishap (hx : Gives x i) (hx' : Gives x' i') :
    run twoFiles unread (mishap x x') =
      ⟨⟨some (serving 1 i)⟩, ⟨holding x' "", [], [], [.bytes x'.toUTF8, .bytes "".toUTF8]⟩⟩ := by
  have hreload : step twoFiles ⟨⟨some (serving 1 i)⟩,
        ⟨holding x' "[", [], [], [.bytes x.toUTF8, .bytes "".toUTF8]⟩⟩ .reload =
      ⟨⟨some (serving 1 i)⟩, ⟨holding x' "[", [], [], [.bytes x'.toUTF8, .bytes "".toUTF8]⟩⟩ := calc
    _ = pass twoFiles _ := step_of_passes (by trivial)
    _ = _ := by
      rw [pass, Coordinator.advance_of_error (fetch_twoFiles_malformed hx' rfl)]
      rfl
  rw [run, mishap, List.foldl_cons, List.foldl_cons, step_current_unread hx]
  simp only [List.foldl_cons, List.foldl_nil, step_files, hreload]

theorem not_tornIn_mishap (hx : Gives x i) : ¬ TornIn twoFiles unread False (mishap x x) := by
  have hcurrent : ¬ Torn twoFiles (step twoFiles unread (.files (holding x ""))).world := by
    rw [twoFiles, torn_pair_iff]
    intro h
    cases h.2.1
  have hreload : ¬ Torn twoFiles ⟨holding x "[", [], [], [.bytes x.toUTF8, .bytes "".toUTF8]⟩ := by
    rw [twoFiles, torn_pair_iff]
    intro h
    exact h.2.2 rfl
  simp only [mishap, TornIn, tornAfter_files]
  rw [step_current_unread hx]
  exact not_tornAfter hreload (not_tornAfter hcurrent id)

end

/-- **Unchanged layers serve their files exactly when what they recall is served.** Take any run of a new coordinator
    over layers of fixed trees and files with memories of their own, at whose end something is served and a reload
    of what has changed answers that nothing has. Whatever a pass over the files would publish now is what is served
    if and only if what the layers recall, if it resolves, is what is served; and so it is whenever no pass was torn
    since the last one that succeeded. -/
theorem unchanged_layers_serve_their_files_iff {layers : List Layer} {w : World} (hown : OwnMemories layers w)
    (events : List Event) {s : Serving} (hs : s = run layers ⟨.fresh, w⟩ events) {live : Config}
    (hlive : s.coordinator.current = some live)
    (hquiet : (s.coordinator.reloadIfChanged (feed layers) s.world).result = .ok false) :
    ((∀ config, (s.coordinator.advance (feed layers) s.world).result = .ok config → config.SameContent live) ↔
        Steady layers s) ∧
      (¬ TornIn layers ⟨.fresh, w⟩ False events →
        ∀ config, (s.coordinator.advance (feed layers) s.world).result = .ok config → config.SameContent live) := by
  have hiff := publishes_live_iff_steady hquiet hlive
  refine ⟨hiff, ?_⟩
  intro hwhole
  rw [hiff, hs]
  refine steady_run hown ?_ hwhole
  -- a new coordinator serves nothing, so there is nothing to disagree with
  intro _ live' t generation config hnone
  cases hnone

/-- A file that was malformed for a while, during which the other was not overwritten, leaves what is served as it
    should be. -/
theorem malformed_for_a_while_serves_its_files :
    OwnMemories twoFiles unread.world ∧
      ∃ s, s = run twoFiles unread (mishap "a = 1" "a = 1") ∧ s.coordinator.current = some (serving 1 1) ∧
        (s.coordinator.reloadIfChanged (feed twoFiles) s.world).result = .ok false ∧
        ∀ config, (s.coordinator.advance (feed twoFiles) s.world).result = .ok config →
          config.SameContent (serving 1 1) := by
  have hx : Gives "a = 1" 1 := ⟨rfl, by decide⟩
  have hown := ownMemories_twoFiles unread.world rfl
  have hrun := run_mishap hx hx
  have hlive : (run twoFiles unread (mishap "a = 1" "a = 1")).coordinator.current = some (serving 1 1) := by
    rw [hrun]
  have hquiet : ((run twoFiles unread (mishap "a = 1" "a = 1")).coordinator.reloadIfChanged (feed twoFiles)
      (run twoFiles unread (mishap "a = 1" "a = 1")).world).result = .ok false := by
    rw [hrun]
    rfl
  exact ⟨hown, _, rfl, hlive, hquiet,
    (unchanged_layers_serve_their_files_iff hown _ rfl hlive hquiet).2 (not_tornIn_mishap hx)⟩

/-- A file overwritten while the other is malformed is never served: the layers say that nothing has changed, and what
    a pass would publish is not what is served. -/
theorem overwritten_in_a_torn_pass_is_not_served :
    OwnMemories twoFiles unread.world ∧
      ∃ s, s = run twoFiles unread (mishap "a = 1" "a = 2") ∧ s.coordinator.current = some (serving 1 1) ∧
        (s.coordinator.reloadIfChanged (feed twoFiles) s.world).result = .ok false ∧
        (s.coordinator.advance (feed twoFiles) s.world).result = .ok (serving 2 2) ∧
        ¬ (serving 2 2).SameContent (serving 1 1) := by
  have hx : Gives "a = 1" 1 := ⟨rfl, by decide⟩
  have hx' : Gives "a = 2" 2 := ⟨rfl, by decide⟩
  refine ⟨ownMemories_twoFiles unread.world rfl, _, rfl, ?_⟩
  rw [run_mishap hx hx']
  refine ⟨rfl, rfl, ?_, ?_⟩
  · rw [Coordinator.advance_of_ok (fetch_twoFiles_empty hx' rfl) (resolve_serving _ 2)]
    rfl
  · intro h
    cases h.1

end Serving
end LayeredConfig
