import LayeredConfig.Proofs.Builder.Calls
import LayeredConfig.Proofs.Coordinator.Agreement
import LayeredConfig.Proofs.Coordinator.Reloads
/-!
# Loaders that share a source

All loaders of a builder lie over the same base and defaults, whose files have one memory for all of them. So what a
loader recalls is what any of them noted last, and a loader whose source says that nothing has changed serves what
a reload would publish exactly when that agrees with what it serves (`loaders_of_a_builder_share_their_memory`). What
breaks the agreement is another loader taking note of a change, and a pass of its own that is torn.
-/
namespace LayeredConfig

/-- The file sources that the loaders of a builder share. -/
def Builder.sharedFiles (b : Builder) : List FileSource := filesOf (b.defaults.toList ++ b.base.toList)

theorem Builder.build_cases {b : Builder} {base : Source} (hbase : b.base = some base) (w : World) :
    (∃ failure, b.build w = (.error failure, w)) ∨
      ∃ settings, b.build w =
        (.ok (settings, .layered (b.defaults.toList ++ [base, .fixed "overrides" b.writes.tree])), w) := by
  rw [Builder.build, hbase]
  split
  · exact .inl ⟨_, rfl⟩
  · cases b.settings with
    | none => exact .inr ⟨_, rfl⟩
    | some settings => exact .inr ⟨settings, rfl⟩

namespace Session

/-! ## What loaders are asked for -/

/-- What happens to a builder and its loaders: the files change in any way, the builder comes to hold any other values,
    it builds one more loader, or a loader is asked for something. -/
inductive Move where
  | files (files : Directory)
  | write (writes : Writes) (declared : List String)
  | build
  | ask (k : Nat) (a : Coordinator.Ask)

def move (i : Nat) (s : State) : Move → State
  | .files d => { s with world := { s.world with files := d } }
  | .write writes declared =>
    { s with builders := s.builders.modify i fun b => { b with writes := writes, declared := declared } }
  | .build => ((buildLoader i).run s).2
  | .ask k a => ((ask k a).run s).2

def moves (i : Nat) (s : State) (ms : List Move) : State := ms.foldl (move i) s

def State.Passes (s : State) (k : Nat) (a : Coordinator.Ask) : Prop :=
  (s.cellAt k).coordinator.Passes (s.cellAt k).source.feed s.world a

def State.advance (s : State) (k : Nat) : Coordinator.Answer World Config :=
  (s.cellAt k).coordinator.advance (s.cellAt k).source.feed s.world

def State.Renews (s : State) (k : Nat) (a : Coordinator.Ask) : Prop :=
  s.Passes k a ∧ ∃ config, (s.advance k).result = .ok config

/-- Whether a request to a coordinator takes note of a change in some of the files. -/
def State.TakesNote (s : State) (j : Nat) (a : Coordinator.Ask) (files : List FileSource) : Prop :=
  ∃ f ∈ files, (s.answer j a).state.sighting f.memory ≠ s.world.sighting f.memory

/-- Whether, after one more move, what a loader recalls may be other than what it has noted itself: since the last pass
    of its own that came out, another loader has taken note of a change, or a pass of its own was torn. -/
def DisturbedAfter (k : Nat) (s : State) (disturbed : Prop) : Move → Prop
  | .ask j a =>
    if j = k then
      s.Passes k a ∧ (s.cellAt k).source.Tears s.world ∨ disturbed ∧ ¬ s.Renews k a
    else s.TakesNote j a (s.cellAt k).source.files ∨ disturbed
  | _ => disturbed

def DisturbedIn (i k : Nat) (s : State) (disturbed : Prop) : List Move → Prop
  | [] => disturbed
  | m :: rest => DisturbedIn i k (move i s m) (DisturbedAfter k s disturbed m) rest

/-- A pass of its own that comes out ends what disturbed a loader before. -/
theorem State.Renews.not_disturbedAfter {k : Nat} {s : State} {disturbed : Prop} {a : Coordinator.Ask}
    (h : s.Renews k a) : ¬ DisturbedAfter k s disturbed (.ask k a) := by
  rw [DisturbedAfter, if_pos rfl, not_or]
  refine ⟨?_, fun hkeep => hkeep.2 h⟩
  intro htears
  obtain ⟨_, config, hok⟩ := h
  obtain ⟨_, ⟨failure, hfails⟩, _⟩ := htears
  obtain ⟨content, w', hf, _⟩ := Coordinator.advance_eq_ok_iff.mp hok
  rw [Coordinator.fst_fetch_of_feed hf] at hfails
  cases hfails

theorem moves_concat (i : Nat) (s : State) (ms : List Move) (m : Move) :
    moves i s (ms ++ [m]) = move i (moves i s ms) m := List.foldl_concat ..

theorem disturbedIn_concat {i k : Nat} {s : State} {disturbed : Prop} {ms : List Move} {m : Move} :
    DisturbedIn i k s disturbed (ms ++ [m]) ↔
      DisturbedAfter k (moves i s ms) (DisturbedIn i k s disturbed ms) m := by
  induction ms generalizing s disturbed with
  | nil => exact Iff.rfl
  | cons first rest ih => exact ih

/-! ## What every move keeps -/

/-- Whether the loaders of a session are those of a builder, as far as their sources go. -/
structure LoadersOf (b : Builder) (base : Source) (i : Nat) (s : State) : Prop where
  builder : ∃ writes declared, s.builders[i]? = some { b with writes := writes, declared := declared }
  sources : ∀ c ∈ s.coordinators, ∃ overrides : Tree,
    c.source = .layered (b.defaults.toList ++ [base, .fixed "overrides" overrides])
  own : OwnFiles b.sharedFiles s.world

variable {b : Builder} {base : Source} {i k : Nat} {s : State}

theorem LoadersOf.files (h : LoadersOf b base i s) (hbase : b.base = some base) {c : CoordinatorCell}
    (hc : c ∈ s.coordinators) : c.source.files = b.sharedFiles := by
  obtain ⟨overrides, hsource⟩ := h.sources c hc
  rw [hsource, Source.files, Builder.sharedFiles, hbase, filesOf_append, filesOf_append]
  simp [filesOf, Source.files]

theorem buildLoader_cases (h : s.builders[i]? = some b) (hbase : b.base = some base) :
    ((buildLoader i).run s).2 = s ∨
      ((buildLoader i).run s).2 =
        { s with coordinators := s.coordinators ++
          [⟨.layered (b.defaults.toList ++ [base, .fixed "overrides" b.writes.tree]), .fresh, false, []⟩] } := by
  have hrun : (inWorld b.build).run s = (.ok (b.build s.world).1, { s with world := (b.build s.world).2 }) := rfl
  rw [buildLoader, run_bind, run_builder h]
  dsimp only
  rw [run_bind, hrun]
  rcases Builder.build_cases hbase s.world with ⟨failure, hbuild⟩ | ⟨settings, hbuild⟩
  · left
    rw [hbuild]
    rfl
  · right
    rw [hbuild]
    rfl

theorem answer_state_cases (s : State) (j : Nat) (a : Coordinator.Ask) :
    (s.answer j a).state = s.world ∨ (s.answer j a).state = ((s.cellAt j).source.fetch s.world).2 := by
  by_cases hp : s.Passes j a
  · right
    rw [State.answer, (Coordinator.ask_of_passes hp).2, Coordinator.advance_state]
    rfl
  · left
    rw [State.answer, (Coordinator.ask_of_not_passes hp).2]

theorem LoadersOf.congr (h : LoadersOf b base i s) {s' : State} (hb : s'.builders = s.builders)
    (hc : ∀ c ∈ s'.coordinators, ∃ c' ∈ s.coordinators, c.source = c'.source)
    (hw : s'.world.sightings.length = s.world.sightings.length) : LoadersOf b base i s' where
  builder := hb ▸ h.builder
  sources := by
    intro c hmem
    obtain ⟨c', hmem', hsource⟩ := hc c hmem
    rw [hsource]
    exact h.sources c' hmem'
  own := h.own.congr hw

theorem LoadersOf.move (h : LoadersOf b base i s) (hbase : b.base = some base) (m : Move) :
    LoadersOf b base i (Session.move i s m) := by
  cases m with
  | files d => exact h.congr rfl (fun c hc => ⟨c, hc, rfl⟩) rfl
  | write writes declared =>
    obtain ⟨writes', declared', hb⟩ := h.builder
    refine ⟨⟨writes, declared, ?_⟩, h.sources, h.own⟩
    show (s.builders.modify i _)[i]? = _
    rw [List.getElem?_modify_eq, hb]
    rfl
  | build =>
    obtain ⟨writes, declared, hb⟩ := h.builder
    rw [Session.move]
    rcases buildLoader_cases hb hbase with hrun | hrun
    · rw [hrun]
      exact h
    · rw [hrun]
      refine ⟨⟨writes, declared, hb⟩, ?_, h.own⟩
      intro c hc
      rcases List.mem_append.mp hc with hc | hc
      · exact h.sources c hc
      · rw [List.mem_singleton.mp hc]
        exact ⟨_, rfl⟩
  | ask j a =>
    obtain ⟨reports, journal, hrun⟩ := run_ask j a s
    rw [Session.move, hrun]
    refine h.congr rfl ?_ ?_
    · intro c hc
      by_cases hj : j < s.coordinators.length
      · rcases List.mem_or_eq_of_mem_set hc with hc | rfl
        · exact ⟨c, hc, rfl⟩
        · exact ⟨s.cellAt j, List.mem_of_getElem? (s.getElem?_cellAt hj), rfl⟩
      · exact ⟨c, (List.set_eq_of_length_le (not_lt.mp hj)) ▸ hc, rfl⟩
    · show (s.answer j a).state.sightings.length = _
      rcases answer_state_cases s j a with hstate | hstate
      · rw [hstate]
      · rw [hstate]
        exact ((s.cellAt j).source.fetch_keeps s.world).2

/-! ## What a loader recalls and serves -/

/-- Whether what a loader recalls agrees with what it serves. -/
def LoaderAgrees (k : Nat) (s : State) : Prop :=
  ∀ c, s.coordinators[k]? = some c → c.coordinator.Agrees c.source s.world

/-- A request to a loader keeps what it recalls in agreement with what it serves, unless its pass is torn; one that
    comes out brings it in agreement. -/
theorem agrees_of_answer (hown : OwnFiles (s.cellAt k).source.files s.world) {a : Coordinator.Ask}
    (h : (s.cellAt k).coordinator.Agrees (s.cellAt k).source s.world ∨ s.Renews k a)
    (hnot : ¬ (s.Passes k a ∧ (s.cellAt k).source.Tears s.world)) :
    (s.answer k a).coordinator.Agrees (s.cellAt k).source (s.answer k a).state := by
  by_cases hp : s.Passes k a
  · obtain ⟨hc, hs⟩ := Coordinator.ask_of_passes hp
    rw [State.answer, hc, hs, Coordinator.advance_state]
    cases hresult : (s.advance k).result with
    | ok config =>
      rw [Coordinator.advance_coordinator_of_ok hresult]
      exact Coordinator.agrees_of_ok hown hresult
    | error failure =>
      rw [Coordinator.advance_coordinator_of_error hresult]
      rcases h with h | ⟨_, config, hok⟩
      · exact h.of_error hown (fun htears => hnot ⟨hp, htears⟩) hresult
      · rw [hresult] at hok
        cases hok
  · obtain ⟨hc, hs⟩ := Coordinator.ask_of_not_passes hp
    rw [State.answer, hc, hs]
    rcases h with h | ⟨hpasses, _⟩
    · exact h
    · exact absurd hpasses hp

/-- A move keeps what a loader recalls in agreement with what it serves, as long as nothing disturbs it. -/
theorem LoaderAgrees.move {disturbed : Prop} (hloaders : LoadersOf b base i s) (hbase : b.base = some base)
    (h : ¬ disturbed → LoaderAgrees k s) {m : Move} (hnot : ¬ DisturbedAfter k s disturbed m) :
    LoaderAgrees k (Session.move i s m) := by
  cases m with
  | files d => exact fun c hc => (h hnot c hc).congr fun f _ => rfl
  | write writes declared => exact fun c hc => h hnot c hc
  | build =>
    obtain ⟨writes, declared, hb⟩ := hloaders.builder
    rw [Session.move]
    rcases buildLoader_cases hb hbase with hrun | hrun
    · rw [hrun]
      exact h hnot
    · rw [hrun]
      intro c hc
      have hc' : (s.coordinators ++ [_])[k]? = some c := hc
      rw [List.getElem?_append] at hc'
      split at hc'
      · exact h hnot c hc'
      · -- a loader that was just built serves nothing yet
        obtain rfl := List.mem_singleton.mp (List.mem_of_getElem? hc')
        exact Coordinator.agrees_fresh _ _
  | ask j a =>
    obtain ⟨reports, journal, hrun⟩ := run_ask j a s
    rw [Session.move, hrun]
    intro c hc
    have hc' : (s.coordinators.set j _)[k]? = some c := hc
    rw [List.getElem?_set] at hc'
    by_cases hjk : j = k
    · subst hjk
      rw [if_pos rfl] at hc'
      split at hc'
      · rename_i hj
        cases hc'
        have hcell := s.getElem?_cellAt hj
        rw [DisturbedAfter, if_pos rfl, not_or] at hnot
        obtain ⟨hwhole, hkeep⟩ := hnot
        refine agrees_of_answer (hloaders.files hbase (List.mem_of_getElem? hcell) ▸ hloaders.own) ?_ hwhole
        by_cases hout : s.Renews j a
        · exact .inr hout
        · exact .inl (h (fun hdisturbed => hkeep ⟨hdisturbed, hout⟩) _ hcell)
      · cases hc'
    · rw [if_neg hjk] at hc'
      rw [DisturbedAfter, if_neg hjk, not_or, State.cellAt_of_getElem? hc', State.TakesNote] at hnot
      obtain ⟨hquiet, hkeep⟩ := hnot
      push Not at hquiet
      exact (h hkeep c hc').congr hquiet

theorem LoaderAgrees.moves {disturbed : Prop} (hloaders : LoadersOf b base i s) (hbase : b.base = some base)
    (h : ¬ disturbed → LoaderAgrees k s) {ms : List Move} (hnot : ¬ DisturbedIn i k s disturbed ms) :
    LoaderAgrees k (Session.moves i s ms) := by
  induction ms generalizing s disturbed with
  | nil => exact h hnot
  | cons m rest ih => exact ih (hloaders.move hbase m) (fun hstep => LoaderAgrees.move hloaders hbase h hstep) hnot

/-! ## Two loaders over one file -/

open Serving (Gives serving fetch_first resolve_serving)

section

def xFile : FileSource := ⟨"x.toml", none, true, 0⟩

/-- A session with a builder over one file, of which nothing was seen, and no loader. -/
def oneBuilder : State :=
  { State.start [] with world := ⟨[], [], [], [.never]⟩, builders := [.new (some (.file xFile)) none none] }

def oneFile (x : String) : Directory := Directory.put [] xFile.path (.file x.toUTF8)

def overFile : Source := .layered [.file xFile, .fixed "overrides" []]

def withLoaders (files : Directory) (seen : Sighting) (cs : List Coordinator) : State :=
  { oneBuilder with
    world := ⟨files, [], [], [seen]⟩
    coordinators := cs.map fun c => ⟨overFile, c, false, []⟩ }

variable {x : String} {v : Int} {seen : Sighting} {cs : List Coordinator} {k : Nat} {c : Coordinator}

theorem oneBuilder_eq : oneBuilder = withLoaders [] .never [] := rfl

@[simp] theorem move_files (d d' : Directory) (seen : Sighting) (cs : List Coordinator) :
    move 0 (withLoaders d seen cs) (.files d') = withLoaders d' seen cs := rfl

@[simp] theorem move_build (d : Directory) (seen : Sighting) (cs : List Coordinator) :
    move 0 (withLoaders d seen cs) .build = withLoaders d seen (cs ++ [.fresh]) := by
  rw [withLoaders, withLoaders, List.map_append]
  rfl

theorem cellAt_withLoaders {files : Directory} (hk : cs[k]? = some c) :
    (withLoaders files seen cs).cellAt k = ⟨overFile, c, false, []⟩ := by
  apply State.cellAt_of_getElem?
  rw [withLoaders, List.getElem?_map, hk]
  rfl

theorem advance_overFile (hx : Gives x v) (c : Coordinator) (seen : Sighting) :
    c.advance overFile.feed ⟨oneFile x, [], [], [seen]⟩ =
      ⟨.ok (serving (c.generation + 1) v), ⟨some (serving (c.generation + 1) v)⟩,
        ⟨oneFile x, [], [], [.bytes x.toUTF8]⟩⟩ := by
  have hfetch : overFile.feed.fetch ⟨oneFile x, [], [], [seen]⟩ =
      (.ok (.tree [("a", .scalar (.int v))]), ⟨oneFile x, [], [], [.bytes x.toUTF8]⟩) := by
    show overFile.fetch _ = _
    rw [overFile, Source.fetch_layered, fetchLayers_cons, xFile, fetch_first hx rfl]
    rfl
  exact Coordinator.advance_of_ok hfetch (resolve_serving _ v)

theorem reload_overFile (hx : Gives x v) (c : Coordinator) (seen : Sighting) :
    c.reload overFile.feed ⟨oneFile x, [], [], [seen]⟩ =
      ⟨.ok (serving (c.generation + 1) v), ⟨some (serving (c.generation + 1) v)⟩,
        ⟨oneFile x, [], [], [.bytes x.toUTF8]⟩⟩ := by
  rw [Coordinator.reload, advance_overFile hx]

theorem move_reload (hx : Gives x v) (hk : cs[k]? = some c) :
    move 0 (withLoaders (oneFile x) seen cs) (.ask k .reload) =
      withLoaders (oneFile x) (.bytes x.toUTF8) (cs.set k ⟨some (serving (c.generation + 1) v)⟩) := by
  rw [move, ask, reload, run_settled, cellAt_withLoaders hk]
  show (withLoaders (oneFile x) seen cs).answered k ⟨overFile, c, false, []⟩
    (c.reload overFile.feed ⟨oneFile x, [], [], [seen]⟩) = _
  rw [reload_overFile hx, State.answered, withLoaders, withLoaders, List.map_set]
  rfl

theorem ownFiles_oneBuilder : OwnFiles (Builder.new (some (.file xFile)) none none).sharedFiles oneBuilder.world := by
  have hfiles : (Builder.new (some (.file xFile)) none none).sharedFiles = [xFile] := rfl
  rw [hfiles]
  constructor
  · intro f g hf hg _
    cases List.mem_singleton.mp hf
    cases List.mem_singleton.mp hg
    rfl
  · intro f hf
    cases List.mem_singleton.mp hf
    decide

/-- Both loaders serve the file; then it is overwritten and the first one reloads. -/
def overtaken (x x' : String) : List Move :=
  [.files (oneFile x), .build, .build, .ask 0 .reload, .ask 1 .reload, .files (oneFile x'), .ask 0 .reload]

theorem moves_overtaken {x' : String} {v' : Int} (hx : Gives x v) (hx' : Gives x' v') :
    moves 0 oneBuilder (overtaken x x') =
      withLoaders (oneFile x') (.bytes x'.toUTF8) [⟨some (serving 2 v')⟩, ⟨some (serving 1 v)⟩] := by
  simp only [moves, overtaken, oneBuilder_eq, List.foldl_cons, List.foldl_nil, move_files, move_build, List.nil_append,
    List.cons_append]
  rw [move_reload hx rfl, move_reload hx rfl, move_files, move_reload hx' rfl]
  rfl

end

/-- **The loaders of a builder share what was noted of their files.** Take any run of a builder over a base, be it a
    file, and any defaults, whose file sources have memories of their own: the files change in any way, the builder is
    written to in any way, builds any number of loaders, and these are asked for anything in any order. If a loader
    serves something and a reload of what has changed answers that nothing has, then whatever a reload would publish
    is what it serves if and only if what its source recalls, if it resolves, is what it serves. And so it is whenever,
    since the last pass of its own that came out, no other loader took note of a change and no pass of its own was
    torn. -/
theorem loaders_of_a_builder_share_their_memory {s₀ : State} (hb : s₀.builders[i]? = some b)
    (hbase : b.base = some base) (hnone : s₀.coordinators = []) (hown : OwnFiles b.sharedFiles s₀.world)
    (ms : List Move) (hs : s = moves i s₀ ms) {c : CoordinatorCell} (hc : s.coordinators[k]? = some c) {live : Config}
    (hlive : c.coordinator.current = some live) (hquiet : ((reloadIfChanged k).run s).1 = .ok false) :
    ((∀ config, ((reload k).run s).1 = .ok config → config.SameContent live) ↔
        c.coordinator.Agrees c.source s.world) ∧
      (¬ DisturbedIn i k s₀ False ms → ∀ config, ((reload k).run s).1 = .ok config → config.SameContent live) := by
  have hcell := State.cellAt_of_getElem? hc
  rw [reloadIfChanged, run_request, hcell] at hquiet
  have hunchanged : c.source.changedSince c.coordinator.generation s.world = .ok false :=
    Coordinator.changed_of_reloadIfChanged_false hquiet
  have hiff : (∀ config, ((reload k).run s).1 = .ok config → config.SameContent live) ↔
      c.coordinator.Agrees c.source s.world := by
    rw [← Coordinator.publishes_live_iff_agrees hunchanged hlive, reload, run_request, hcell]
    simp only [Coordinator.reload_eq_ok_iff]
  refine ⟨hiff, ?_⟩
  intro hnot
  rw [hiff]
  have hloaders : LoadersOf b base i s₀ := ⟨⟨b.writes, b.declared, hb⟩, by simp [hnone], hown⟩
  have hagrees : LoaderAgrees k s := by
    rw [hs]
    apply LoaderAgrees.moves hloaders hbase ?_ hnot
    -- no loader has been built yet
    intro _ c' hc'
    rw [hnone] at hc'
    cases hc'
  exact hagrees c hc

/-- A loader that reloads after another one has serves what the file holds. -/
theorem reloading_after_another_loader_serves_the_file :
    OwnFiles (Builder.new (some (.file xFile)) none none).sharedFiles oneBuilder.world ∧
      ∃ s, s = moves 0 oneBuilder (overtaken "a = 1" "a = 2" ++ [.ask 1 .reload]) ∧
        s.live 1 = some (serving 2 2) ∧ ((reloadIfChanged 1).run s).1 = .ok false ∧
        ∀ config, ((reload 1).run s).1 = .ok config → config.SameContent (serving 2 2) := by
  have hx : Gives "a = 1" 1 := ⟨rfl, by decide⟩
  have hx' : Gives "a = 2" 2 := ⟨rfl, by decide⟩
  have hbefore := moves_overtaken hx hx'
  have hrun : moves 0 oneBuilder (overtaken "a = 1" "a = 2" ++ [.ask 1 .reload]) =
      withLoaders (oneFile "a = 2") (.bytes "a = 2".toUTF8) [⟨some (serving 2 2)⟩, ⟨some (serving 2 2)⟩] := by
    rw [moves_concat, hbefore, move_reload hx' rfl]
    rfl
  have hlive : (moves 0 oneBuilder (overtaken "a = 1" "a = 2" ++ [.ask 1 .reload])).live 1 = some (serving 2 2) := by
    rw [hrun]
    rfl
  have hquiet : ((reloadIfChanged 1).run
      (moves 0 oneBuilder (overtaken "a = 1" "a = 2" ++ [.ask 1 .reload]))).1 = .ok false := by
    rw [hrun]
    rfl
  have hnot : ¬ DisturbedIn 0 1 oneBuilder False (overtaken "a = 1" "a = 2" ++ [.ask 1 .reload]) := by
    rw [disturbedIn_concat, hbefore]
    have hadvance := advance_overFile hx' ⟨some (serving 1 1)⟩ (.bytes "a = 2".toUTF8)
    exact State.Renews.not_disturbedAfter ⟨trivial, _, congrArg Coordinator.Answer.result hadvance⟩
  refine ⟨ownFiles_oneBuilder, _, rfl, hlive, hquiet, ?_⟩
  refine (loaders_of_a_builder_share_their_memory (c := ⟨overFile, ⟨some (serving 2 2)⟩, false, []⟩) rfl rfl rfl
    ownFiles_oneBuilder _ rfl ?_ rfl hquiet).2 hnot
  rw [hrun]
  rfl

/-- A change that another loader has taken note of is lost to a loader: it is told that nothing has changed, and what a
    reload would publish is not what it serves. -/
theorem change_noted_by_another_loader_is_not_served :
    OwnFiles (Builder.new (some (.file xFile)) none none).sharedFiles oneBuilder.world ∧
      ∃ s, s = moves 0 oneBuilder (overtaken "a = 1" "a = 2") ∧ s.live 1 = some (serving 1 1) ∧
        ((reloadIfChanged 1).run s).1 = .ok false ∧ ((reload 1).run s).1 = .ok (serving 2 2) ∧
        ¬ (serving 2 2).SameContent (serving 1 1) := by
  have hx : Gives "a = 1" 1 := ⟨rfl, by decide⟩
  have hx' : Gives "a = 2" 2 := ⟨rfl, by decide⟩
  refine ⟨ownFiles_oneBuilder, _, rfl, ?_⟩
  rw [moves_overtaken hx hx']
  refine ⟨rfl, rfl, ?_, ?_⟩
  · rw [reload, run_request]
    exact congrArg Coordinator.Answer.result (reload_overFile hx' ⟨some (serving 1 1)⟩ (.bytes "a = 2".toUTF8))
  · intro h
    cases h.1

end Session
end LayeredConfig
