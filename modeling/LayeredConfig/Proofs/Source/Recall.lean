import LayeredConfig.Proofs.Source.Files
/-!
# What sources of any kind recall

What a source hands out depends on what its files give (`Source.giving`). With what the files give as they are it
is what a fetch hands out, and with what they gave when they were seen last it is what the source recalls
(`Source.recalled`). What is recalled after a fetch that succeeds is what was fetched (`Source.content_of_recalled`),
and a source that says that it has not changed hands out what it recalls (`Source.fetch_eq_ok_iff_of_unchanged`).
-/
namespace LayeredConfig

/-- What a file source hands out for the files as they are, if anything. -/
def FileSource.read (files : Directory) (f : FileSource) : Option Tree := Layer.read files (.file f)

/-- What a file source would hand out if its file were as it was seen last. -/
def FileSource.remembered (w : World) (f : FileSource) : Option Tree := Layer.recalled w (.file f)

mutual

/-- The file sources that a source consists of. -/
def Source.files : Source → List FileSource
  | .fixed _ _ => []
  | .supplied _ _ => []
  | .file f => [f]
  | .custom _ _ => []
  | .layered layers => filesOf layers

def filesOf : List Source → List FileSource
  | [] => []
  | layer :: rest => layer.files ++ filesOf rest

end

theorem filesOf_append (first second : List Source) : filesOf (first ++ second) = filesOf first ++ filesOf second := by
  induction first with
  | nil => rfl
  | cons layer rest ih => rw [List.cons_append, filesOf, filesOf, ih, List.append_assoc]

mutual

/-- The content of a source when its files give certain trees. What a supplier gives is not known beforehand. -/
def Source.giving (give : FileSource → Option Tree) : Source → Option Content
  | .fixed _ tree => some (.tree tree)
  | .supplied _ _ => none
  | .file f => (give f).map .tree
  | .custom data _ => some (.loose data)
  | .layered layers => (layersGiving give (.tree []) layers).bind fun content => (content.frozen.map .tree).toOption

def layersGiving (give : FileSource → Option Tree) (below : Content) : List Source → Option Content
  | [] => some below
  | layer :: rest => (layer.giving give).bind fun content => layersGiving give (below.merge content) rest

end

/-- What a source would hand out if its files were as they were seen last. -/
def Source.recalled (w : World) (s : Source) : Option Content := s.giving (FileSource.remembered w)

mutual

theorem Source.giving_congr {give other : FileSource → Option Tree} :
    (s : Source) → (∀ f ∈ s.files, give f = other f) → s.giving give = s.giving other
  | .fixed _ _, _ => rfl
  | .supplied _ _, _ => rfl
  | .file f, h => by rw [Source.giving, Source.giving, h f (by simp [Source.files])]
  | .custom _ _, _ => rfl
  | .layered layers, h => by rw [Source.giving, Source.giving, layersGiving_congr layers h]

theorem layersGiving_congr {give other : FileSource → Option Tree} {below : Content} :
    (layers : List Source) → (∀ f ∈ filesOf layers, give f = other f) →
      layersGiving give below layers = layersGiving other below layers
  | [], _ => rfl
  | layer :: rest, h => by
    rw [filesOf, List.forall_mem_append] at h
    rw [layersGiving, layersGiving, layer.giving_congr h.1]
    congr 1
    funext content
    exact layersGiving_congr rest h.2

end

/-! ## What fetching leaves behind -/

theorem Source.fetch_layered (layers : List Source) (w : World) :
    (Source.layered layers).fetch w =
      ((fetchLayers (.tree []) layers w).1.bind fun content => content.frozen.map .tree,
        (fetchLayers (.tree []) layers w).2) := by
  rw [Source.fetch]
  cases fetchLayers (.tree []) layers w with
  | mk fetched w' => cases fetched <;> rfl

mutual

theorem Source.fetch_keeps : (s : Source) → (w : World) →
    (s.fetch w).2.files = w.files ∧ (s.fetch w).2.sightings.length = w.sightings.length
  | .fixed _ _, w => by simp [Source.fetch]
  | .supplied name supplier, w => by
    rw [Source.fetch, askSupplier]
    split
    · exact ⟨rfl, rfl⟩
    · split <;> exact ⟨rfl, rfl⟩
  | .file f, w => ⟨(Layer.file f).files_fetch w, (Layer.file f).length_fetch w⟩
  | .custom _ _, w => by simp [Source.fetch]
  | .layered layers, w => by
    rw [Source.fetch_layered]
    exact fetchLayers_keeps layers (.tree []) w

theorem fetchLayers_keeps : (layers : List Source) → (below : Content) → (w : World) →
    (fetchLayers below layers w).2.files = w.files ∧
      (fetchLayers below layers w).2.sightings.length = w.sightings.length
  | [], below, w => by simp [fetchLayers]
  | layer :: rest, below, w => by
    have h := layer.fetch_keeps w
    rw [fetchLayers_cons]
    cases hf : layer.fetch w with
    | mk fetched w' =>
      rw [hf] at h
      cases fetched with
      | error failure => exact h
      | ok content =>
        obtain ⟨hfiles, hlength⟩ := fetchLayers_keeps rest (below.merge content) w'
        exact ⟨hfiles.trans h.1, hlength.trans h.2⟩

end

/-- Whether some of the file sources with a memory would note in it what is seen. -/
def Notes (files : List FileSource) (w : World) (memory : Nat) (seen : Sighting) : Prop :=
  ∃ f ∈ files, f.memory = memory ∧ (w.files.read f.path).sighting? = some seen

theorem Notes.mono {files files' : List FileSource} {w : World} {memory : Nat} {seen : Sighting}
    (h : Notes files w memory seen) (hsub : ∀ f ∈ files, f ∈ files') : Notes files' w memory seen := by
  obtain ⟨f, hf, hm⟩ := h
  exact ⟨f, hsub f hf, hm⟩

mutual

theorem Source.sighting_fetch (memory : Nat) : (s : Source) → (w : World) →
    (s.fetch w).2.sighting memory = w.sighting memory ∨
      Notes s.files w memory ((s.fetch w).2.sighting memory)
  | .fixed _ _, w => .inl (by rw [Source.fetch])
  | .supplied name supplier, w => by
    rw [Source.fetch, askSupplier]
    split
    · exact .inl rfl
    · split <;> exact .inl rfl
  | .file f, w => by
    rcases f.fetch_snd w with hw | ⟨seen, hseen, hw⟩
    · left
      rw [Source.fetch, hw]
    · rw [Source.fetch, hw, World.sighting, World.remember, List.getElem?_set]
      split
      · rename_i hm
        subst hm
        split
        · exact .inr ⟨f, by simp [Source.files], rfl, hseen⟩
        · rename_i hlength
          left
          rw [World.sighting, List.getElem?_eq_none (not_lt.mp hlength)]
      · exact .inl rfl
  | .custom _ _, w => .inl (by rw [Source.fetch])
  | .layered layers, w => by
    rw [Source.fetch_layered, Source.files]
    exact sighting_fetchLayers memory layers (.tree []) w

theorem sighting_fetchLayers (memory : Nat) : (layers : List Source) → (below : Content) → (w : World) →
    (fetchLayers below layers w).2.sighting memory = w.sighting memory ∨
      Notes (filesOf layers) w memory ((fetchLayers below layers w).2.sighting memory)
  | [], below, w => .inl (by rw [fetchLayers])
  | layer :: rest, below, w => by
    have hfirst := layer.sighting_fetch memory w
    have hkeeps := (layer.fetch_keeps w).1
    rw [fetchLayers_cons, filesOf]
    cases hf : layer.fetch w with
    | mk fetched w' =>
      rw [hf] at hfirst hkeeps
      have hfirst' : w'.sighting memory = w.sighting memory ∨
          Notes (layer.files ++ filesOf rest) w memory (w'.sighting memory) :=
        hfirst.imp_right fun h => h.mono fun f hmem => List.mem_append_left _ hmem
      cases fetched with
      | error failure => exact hfirst'
      | ok content =>
        rcases sighting_fetchLayers memory rest (below.merge content) w' with hrest | hrest
        · rw [hrest]
          exact hfirst'
        · right
          obtain ⟨f, hmem, hm, hseen⟩ := hrest
          exact ⟨f, List.mem_append_right _ hmem, hm, hkeeps ▸ hseen⟩

end

/-! ## Files that are as they were seen last -/

/-- Whether a file is as its source saw it last. -/
def FileSource.InStep (w : World) (f : FileSource) : Prop := Layer.InStep w (.file f)

theorem FileSource.remembered_of_inStep {w : World} {f : FileSource} (h : f.InStep w) :
    f.remembered w = f.read w.files :=
  Layer.recalled_of_inStep h

/-- Whether file sources have memories of their own, and the world has them. -/
abbrev OwnFiles (files : List FileSource) (w : World) : Prop := OwnMemories (files.map Layer.file) w

section

variable {all : List FileSource} {w w' : World}

theorem OwnFiles.apart (hown : OwnFiles all w) {f g : FileSource} (hf : f ∈ all) (hg : g ∈ all)
    (hm : f.memory = g.memory) : f = g :=
  OwnMemories.apart hown f g (List.mem_map_of_mem hf) (List.mem_map_of_mem hg) hm

theorem inStep_of_notes (hown : OwnFiles all w) (hfiles : w'.files = w.files) {f : FileSource} (hf : f ∈ all)
    (h : Notes all w f.memory (w'.sighting f.memory)) : f.InStep w' := by
  obtain ⟨g, hg, hm, hseen⟩ := h
  obtain rfl := hown.apart hg hf hm
  rw [FileSource.InStep, Layer.InStep, hfiles]
  exact hseen

theorem FileSource.InStep.fetch {f : FileSource} (h : f.InStep w) (hown : OwnFiles all w) (hfiles : w'.files = w.files)
    (hf : f ∈ all) (hs : w'.sighting f.memory = w.sighting f.memory ∨ Notes all w f.memory (w'.sighting f.memory)) :
    f.InStep w' := by
  rcases hs with hs | hs
  · rw [FileSource.InStep, Layer.InStep, hfiles, hs]
    exact h
  · exact inStep_of_notes hown hfiles hf hs

mutual

theorem Source.inStep_fetch {w : World} (hown : OwnFiles all w) : (s : Source) → (∀ f ∈ s.files, f ∈ all) →
    ∀ ⦃content⦄, (s.fetch w).1 = .ok content → ∀ f ∈ s.files, f.InStep (s.fetch w).2
  | .fixed _ _, _, _, _ => by simp [Source.files]
  | .supplied _ _, _, _, _ => by simp [Source.files]
  | .file f, hsub, content, h => by
    rw [Source.files, List.forall_mem_singleton] at hsub ⊢
    have hout := (Layer.file f).fetch_fst w
    rw [Layer.source, h] at hout
    obtain ⟨t, ht, _⟩ := Outcome.map_eq_ok_iff.mp hout.symm
    exact Layer.inStep_fetch_self (hown.known_of_mem (List.mem_map_of_mem hsub)) ht
  | .custom _ _, _, _, _ => by simp [Source.files]
  | .layered layers, hsub, content, h => by
    rw [Source.fetch_layered] at h ⊢
    obtain ⟨below, hbelow, _⟩ := Outcome.bind_eq_ok_iff.mp h
    exact inStep_fetchLayers hown layers hsub hbelow

theorem inStep_fetchLayers {w : World} (hown : OwnFiles all w) : (layers : List Source) →
    (∀ f ∈ filesOf layers, f ∈ all) → ∀ ⦃below content⦄, (fetchLayers below layers w).1 = .ok content →
      ∀ f ∈ filesOf layers, f.InStep (fetchLayers below layers w).2
  | [], _, _, _, _ => by simp [filesOf]
  | layer :: rest, hsub, below, content, h => by
    rw [filesOf, List.forall_mem_append] at hsub ⊢
    have hkeeps := layer.fetch_keeps w
    have hfirst := layer.inStep_fetch hown hsub.1
    rw [fetchLayers_cons] at h ⊢
    cases hf : layer.fetch w with
    | mk fetched w' =>
      rw [hf] at h hkeeps hfirst
      cases fetched with
      | error failure => cases h
      | ok c =>
        have hown' : OwnFiles all w' := hown.congr hkeeps.2
        refine ⟨?_, inStep_fetchLayers hown' rest hsub.2 h⟩
        intro f hmem
        apply (hfirst rfl f hmem).fetch hown' (fetchLayers_keeps rest _ w').1 (hsub.1 f hmem)
        exact (sighting_fetchLayers f.memory rest _ w').imp_right fun hn => hn.mono hsub.2

end

end

/-! ## What is handed out and what is recalled -/

theorem unchanged_cons {generation : Int} {w : World} {layer : Source} {rest : List Source}
    (h : anyChangedSince generation w (layer :: rest) = .ok false) :
    layer.changedSince generation w = .ok false ∧ anyChangedSince generation w rest = .ok false := by
  rw [anyChangedSince] at h
  split at h
  · cases h
  · exact ⟨by assumption, h⟩
  · cases h

theorem FileSource.fetch_ok_iff {f : FileSource} {w : World} {content : Content} :
    (f.fetch w).1 = .ok content ↔ (f.read w.files).map .tree = some content := by
  rw [f.fetch_fst, FileSource.read, Layer.read, Layer.handOut]
  cases f.handOut (w.files.read f.path) <;> simp [Except.map, Except.toOption]

mutual

theorem Source.fetch_of_giving : (s : Source) → (w : World) → ∀ ⦃content⦄,
    s.giving (FileSource.read w.files) = some content → (s.fetch w).1 = .ok content
  | .fixed _ _ => by
    intro w content h
    rw [Source.giving] at h
    rw [Source.fetch, Option.some.inj h]
  | .supplied _ _ => by
    intro w content h
    rw [Source.giving] at h
    cases h
  | .file f => by
    intro w content h
    rw [Source.giving] at h
    rw [Source.fetch]
    exact FileSource.fetch_ok_iff.mpr h
  | .custom _ _ => by
    intro w content h
    rw [Source.giving] at h
    rw [Source.fetch, Option.some.inj h]
  | .layered layers => by
    intro w content h
    rw [Source.giving] at h
    obtain ⟨below, hbelow, h⟩ := Option.bind_eq_some_iff.mp h
    rw [Source.fetch_layered]
    exact Outcome.bind_eq_ok_iff.mpr ⟨below, fetchLayers_of_giving layers w hbelow, Outcome.toOption_eq_some_iff.mp h⟩

theorem fetchLayers_of_giving : (layers : List Source) → (w : World) → ∀ ⦃below content⦄,
    layersGiving (FileSource.read w.files) below layers = some content → (fetchLayers below layers w).1 = .ok content
  | [] => by
    intro w below content h
    rw [layersGiving] at h
    rw [fetchLayers, Option.some.inj h]
  | layer :: rest => by
    intro w below content h
    rw [layersGiving] at h
    obtain ⟨c, hc, h⟩ := Option.bind_eq_some_iff.mp h
    have hfirst := layer.fetch_of_giving w hc
    have hkeeps := (layer.fetch_keeps w).1
    rw [fetchLayers_cons]
    cases hf : layer.fetch w with
    | mk fetched w' =>
      rw [hf] at hfirst hkeeps
      cases hfirst
      rw [← hkeeps] at h
      exact fetchLayers_of_giving rest w' h

end

mutual

/-- A source that has not changed hands out what it gives with the files as they are. -/
theorem Source.giving_of_unchanged {generation : Int} {w : World} : (s : Source) →
    s.changedSince generation w = .ok false → ∀ ⦃w'⦄, w'.files = w.files → ∀ ⦃content⦄, (s.fetch w').1 = .ok content →
      s.giving (FileSource.read w.files) = some content
  | .fixed _ _ => by
    intro _ w' _ content h
    rw [Source.fetch] at h
    rw [Source.giving, Except.ok.inj h]
  | .supplied _ _ => by
    intro hchanged
    rw [Source.changedSince] at hchanged
    cases hchanged
  | .file f => by
    intro _ w' hfiles content h
    rw [Source.fetch, FileSource.fetch_ok_iff, hfiles] at h
    rw [Source.giving, h]
  | .custom _ _ => by
    intro _ w' _ content h
    rw [Source.fetch] at h
    rw [Source.giving, Except.ok.inj h]
  | .layered layers => by
    intro hchanged w' hfiles content h
    rw [Source.changedSince] at hchanged
    rw [Source.fetch_layered] at h
    obtain ⟨below, hbelow, h⟩ := Outcome.bind_eq_ok_iff.mp h
    rw [Source.giving, layersGiving_of_unchanged layers hchanged hfiles hbelow, Option.bind_some]
    exact Outcome.toOption_eq_some_iff.mpr h

theorem layersGiving_of_unchanged {generation : Int} {w : World} : (layers : List Source) →
    anyChangedSince generation w layers = .ok false → ∀ ⦃w'⦄, w'.files = w.files → ∀ ⦃below content⦄,
      (fetchLayers below layers w').1 = .ok content → layersGiving (FileSource.read w.files) below layers = some content
  | [] => by
    intro _ w' _ below content h
    rw [fetchLayers] at h
    rw [layersGiving, Except.ok.inj h]
  | layer :: rest => by
    intro hchanged w' hfiles below content h
    obtain ⟨hlayer, hrest⟩ := unchanged_cons hchanged
    have hfirst := layer.giving_of_unchanged hlayer hfiles
    have hkeeps := (layer.fetch_keeps w').1
    rw [fetchLayers_cons] at h
    cases hf : layer.fetch w' with
    | mk fetched w'' =>
      rw [hf] at h hfirst hkeeps
      cases fetched with
      | error failure => cases h
      | ok c =>
        rw [layersGiving, hfirst rfl, Option.bind_some]
        exact layersGiving_of_unchanged rest hrest (hkeeps.trans hfiles) h

end

mutual

theorem Source.inStep_of_unchanged {generation : Int} {w : World} : (s : Source) →
    s.changedSince generation w = .ok false → ∀ f ∈ s.files, f.InStep w
  | .fixed _ _ => by simp [Source.files]
  | .supplied _ _ => by simp [Source.files]
  | .file f => by
    intro h
    rw [Source.files, List.forall_mem_singleton]
    exact Layer.inStep_of_changedSince h
  | .custom _ _ => by simp [Source.files]
  | .layered layers => by
    intro h
    rw [Source.changedSince] at h
    exact inStep_of_unchanged_layers layers h

theorem inStep_of_unchanged_layers {generation : Int} {w : World} : (layers : List Source) →
    anyChangedSince generation w layers = .ok false → ∀ f ∈ filesOf layers, f.InStep w
  | [] => by simp [filesOf]
  | layer :: rest => by
    intro h
    obtain ⟨hlayer, hrest⟩ := unchanged_cons h
    rw [filesOf, List.forall_mem_append]
    exact ⟨layer.inStep_of_unchanged hlayer, inStep_of_unchanged_layers rest hrest⟩

end

namespace Source

variable {s : Source} {w w' : World}

theorem recalled_congr (h : ∀ f ∈ s.files, w'.sighting f.memory = w.sighting f.memory) :
    s.recalled w' = s.recalled w := by
  apply s.giving_congr
  intro f hf
  rw [FileSource.remembered, FileSource.remembered, Layer.recalled, Layer.recalled, h f hf]

theorem recalled_of_inStep (h : ∀ f ∈ s.files, f.InStep w) : s.recalled w = s.giving (FileSource.read w.files) :=
  s.giving_congr fun f hf => FileSource.remembered_of_inStep (h f hf)

/-- What is recalled after a fetch that succeeds is what was fetched. -/
theorem content_of_recalled (hown : OwnFiles s.files w) {content recalled : Content}
    (h : (s.fetch w).1 = .ok content) (hrecalled : s.recalled (s.fetch w).2 = some recalled) : recalled = content := by
  rw [recalled_of_inStep (s.inStep_fetch hown (fun _ hf => hf) h), (s.fetch_keeps w).1] at hrecalled
  have hfetched := s.fetch_of_giving w hrecalled
  rw [h] at hfetched
  exact (Except.ok.inj hfetched).symm

/-- A source that has not changed hands out what it recalls. -/
theorem fetch_eq_ok_iff_of_unchanged {generation : Int} (h : s.changedSince generation w = .ok false)
    {content : Content} : (s.fetch w).1 = .ok content ↔ s.recalled w = some content := by
  rw [recalled_of_inStep (s.inStep_of_unchanged h)]
  exact ⟨fun hf => s.giving_of_unchanged h rfl hf, fun hg => s.fetch_of_giving w hg⟩

end Source

end LayeredConfig
