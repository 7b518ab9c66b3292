import LayeredConfig.Proofs.Source.Layers
/-!
# What file sources see and recall

A file source remembers what it saw at its last reading that was understood. `Layer.read` is the tree that a layer
hands out for the files as they are, and `Layer.recalled` the tree that it would hand out if its file were as it was
seen last. A layer that is in step with its file recalls what it reads (`Layer.recalled_of_inStep`); fetching brings
layers in step (`fetchLayers_inStep`), and layers that have not changed are in step (`inStep_of_anyChangedSince`).
-/
namespace LayeredConfig

def FileState.sighting? : FileState → Option Sighting
  | .missing => some .absent
  | .content bytes => some (.bytes bytes)
  | _ => none

namespace FileSource

def handOut (f : FileSource) : FileState → Outcome Tree
  | .missing => if f.required then .error (.fileMissing f.path) else .ok []
  | .unnameable => .error .nulInFileName
  | .unreadable problem => .error (.fileUnreadable f.path problem)
  | .content bytes =>
    match f.treeOfBytes bytes with
    | .error failure => .error failure
    | .ok tree => tree

/-- What a file source would hand out if its file were as it was seen last. -/
def recalled (f : FileSource) : Sighting → Option Tree
  | .never => none
  | .absent => (f.handOut .missing).toOption
  | .bytes bytes => (f.handOut (.content bytes)).toOption

theorem recalled_of_sighting? (f : FileSource) {state : FileState} {seen : Sighting}
    (h : state.sighting? = some seen) : f.recalled seen = (f.handOut state).toOption := by
  cases state with
  | missing =>
    cases h
    rfl
  | content bytes =>
    cases h
    rfl
  | _ => cases h

theorem fetch_fst (f : FileSource) (w : World) :
    (f.fetch w).1 = (f.handOut (w.files.read f.path)).map .tree := by
  rw [fetch]
  cases w.files.read f.path with
  | missing =>
    simp only [handOut]
    split <;> rfl
  | unnameable => rfl
  | unreadable problem => rfl
  | content bytes =>
    simp only [handOut]
    cases f.treeOfBytes bytes <;> rfl

theorem fetch_snd (f : FileSource) (w : World) :
    (f.fetch w).2 = w ∨
      ∃ seen, (w.files.read f.path).sighting? = some seen ∧ (f.fetch w).2 = w.remember f.memory seen := by
  rw [fetch]
  cases w.files.read f.path with
  | missing =>
    simp only
    split
    · exact .inl rfl
    · exact .inr ⟨.absent, rfl, rfl⟩
  | unnameable => exact .inl rfl
  | unreadable problem => exact .inl rfl
  | content bytes =>
    simp only
    split
    · exact .inl rfl
    · exact .inr ⟨.bytes bytes, rfl, rfl⟩

theorem fetch_snd_of_ok {f : FileSource} {w : World} {t : Tree} (h : f.handOut (w.files.read f.path) = .ok t) :
    ∃ seen, (w.files.read f.path).sighting? = some seen ∧ (f.fetch w).2 = w.remember f.memory seen := by
  rw [fetch]
  cases hread : w.files.read f.path with
  | missing =>
    simp only [hread, handOut] at h ⊢
    split at h
    · cases h
    · rename_i hreq
      rw [if_neg hreq]
      exact ⟨.absent, rfl, rfl⟩
  | unnameable =>
    rw [hread] at h
    cases h
  | unreadable problem =>
    rw [hread] at h
    cases h
  | content bytes =>
    simp only [hread, handOut] at h ⊢
    cases htree : f.treeOfBytes bytes with
    | error failure =>
      rw [htree] at h
      cases h
    | ok tree => exact ⟨.bytes bytes, rfl, rfl⟩

theorem fetch_of_expand {f : FileSource} (htable : f.table = none) {w : World} {bytes : ByteArray}
    (hread : w.files.read f.path = .content bytes) {data : RawMap} (hparse : Toml.parseBytes bytes = .ok data)
    {t : Tree} (ht : expand data = .ok t) : f.fetch w = (.ok (.tree t), w.remember f.memory (.bytes bytes)) := by
  have htree : f.treeOfBytes bytes = .ok (.ok t) := by
    rw [treeOfBytes, hparse, htable]
    exact congrArg Except.ok ht
  rw [fetch, hread]
  simp only [htree]
  rfl

end FileSource

namespace World

@[simp] theorem files_remember (w : World) (memory : Nat) (seen : Sighting) :
    (w.remember memory seen).files = w.files := rfl

@[simp] theorem length_remember (w : World) (memory : Nat) (seen : Sighting) :
    (w.remember memory seen).sightings.length = w.sightings.length := by
  simp [remember]

theorem sighting_remember_self {w : World} {memory : Nat} (h : memory < w.sightings.length) (seen : Sighting) :
    (w.remember memory seen).sighting memory = seen := by
  simp [sighting, remember, h]

theorem sighting_remember_of_ne (w : World) {memory other : Nat} (h : memory ≠ other) (seen : Sighting) :
    (w.remember memory seen).sighting other = w.sighting other := by
  simp [sighting, remember, List.getElem?_set_ne h]

end World

/-! ## Layers of fixed trees and files -/

/-- A layer whose content depends on nothing but a file, if on anything. -/
inductive Layer where
  | fixed (name : String) (tree : Tree)
  | file (source : FileSource)

namespace Layer

def source : Layer → Source
  | fixed name tree => .fixed name tree
  | file f => .file f

def handOut (files : Directory) : Layer → Outcome Tree
  | fixed _ tree => .ok tree
  | file f => f.handOut (files.read f.path)

/-- The tree that a layer hands out for the files as they are, if any. -/
def read (files : Directory) (l : Layer) : Option Tree := (l.handOut files).toOption

/-- The tree that a layer would hand out if its file were as it was seen last. -/
def recalled (w : World) : Layer → Option Tree
  | fixed _ tree => some tree
  | file f => f.recalled (w.sighting f.memory)

/-- Whether the file of a layer is as it was seen last. -/
def InStep (w : World) : Layer → Prop
  | fixed _ _ => True
  | file f => (w.files.read f.path).sighting? = some (w.sighting f.memory)

/-- A layer in step with its file recalls what it reads. -/
theorem recalled_of_inStep {w : World} {l : Layer} (h : l.InStep w) : l.recalled w = l.read w.files := by
  cases l with
  | fixed name tree => rfl
  | file f => exact f.recalled_of_sighting? h

theorem fetch_fst (l : Layer) (w : World) : (l.source.fetch w).1 = (l.handOut w.files).map .tree := by
  cases l with
  | fixed name tree =>
    rw [source, Source.fetch]
    rfl
  | file f =>
    rw [source, Source.fetch]
    exact f.fetch_fst w

theorem fetch_snd (l : Layer) (w : World) :
    (l.source.fetch w).2 = w ∨
      ∃ f seen, l = .file f ∧ (w.files.read f.path).sighting? = some seen ∧
        (l.source.fetch w).2 = w.remember f.memory seen := by
  cases l with
  | fixed name tree =>
    rw [source, Source.fetch]
    exact .inl rfl
  | file f =>
    rw [source, Source.fetch]
    rcases f.fetch_snd w with hw | ⟨seen, hseen, hw⟩
    · exact .inl hw
    · exact .inr ⟨f, seen, rfl, hseen, hw⟩

theorem files_fetch (l : Layer) (w : World) : (l.source.fetch w).2.files = w.files := by
  rcases l.fetch_snd w with h | ⟨f, seen, _, _, h⟩
  · rw [h]
  · rw [h, World.files_remember]

theorem length_fetch (l : Layer) (w : World) : (l.source.fetch w).2.sightings.length = w.sightings.length := by
  rcases l.fetch_snd w with h | ⟨f, seen, _, _, h⟩
  · rw [h]
  · rw [h, World.length_remember]

end Layer

/-- Whether each file source among layers has a memory of its own, and the world has it. -/
structure OwnMemories (layers : List Layer) (w : World) : Prop where
  apart : ∀ f g, .file f ∈ layers → .file g ∈ layers → f.memory = g.memory → f = g
  known : ∀ f, .file f ∈ layers → f.memory < w.sightings.length

namespace OwnMemories

variable {layers : List Layer} {w w' : World}

theorem congr (h : OwnMemories layers w) (hlength : w'.sightings.length = w.sightings.length) :
    OwnMemories layers w' :=
  ⟨h.apart, fun f hf => hlength ▸ h.known f hf⟩

theorem known_of_mem (h : OwnMemories layers w) {l : Layer} (hl : l ∈ layers) (f : FileSource) (hlf : l = .file f) :
    f.memory < w.sightings.length :=
  h.known f (hlf ▸ hl)

end OwnMemories

/-! ## What one fetch does to the memories -/

namespace Layer

theorem inStep_congr {w w' : World} (hfiles : w'.files = w.files)
    (hsightings : ∀ memory, w'.sighting memory = w.sighting memory) (l : Layer) : l.InStep w' ↔ l.InStep w := by
  cases l with
  | fixed name tree => exact Iff.rfl
  | file f => rw [InStep, InStep, hfiles, hsightings]

theorem recalled_congr {w w' : World} (hsightings : ∀ memory, w'.sighting memory = w.sighting memory) (l : Layer) :
    l.recalled w' = l.recalled w := by
  cases l with
  | fixed name tree => rfl
  | file f => rw [recalled, recalled, hsightings]

theorem inStep_fetch_self {l : Layer} {w : World} (hknown : ∀ f, l = .file f → f.memory < w.sightings.length)
    {t : Tree} (h : l.handOut w.files = .ok t) : l.InStep (l.source.fetch w).2 := by
  cases l with
  | fixed name tree => trivial
  | file f =>
    obtain ⟨seen, hseen, hw⟩ := FileSource.fetch_snd_of_ok h
    rw [source, Source.fetch, hw, InStep, World.files_remember, World.sighting_remember_self (hknown f rfl), hseen]

theorem inStep_fetch {l : Layer} {w : World} (h : l.InStep w)
    (hknown : ∀ f, l = .file f → f.memory < w.sightings.length) {k : Layer}
    (hapart : ∀ f g, l = .file f → k = .file g → f.memory = g.memory → f = g) : l.InStep (k.source.fetch w).2 := by
  cases l with
  | fixed name tree => trivial
  | file f =>
    rcases k.fetch_snd w with hw | ⟨g, seen, hk, hseen, hw⟩
    · rw [hw]
      exact h
    · rw [hw, InStep, World.files_remember]
      by_cases hm : f.memory = g.memory
      · obtain rfl := hapart f g rfl hk hm
        rw [World.sighting_remember_self (hknown f rfl), hseen]
      · rw [World.sighting_remember_of_ne w (Ne.symm hm)]
        exact h

theorem sighting_fetch_of_inStep {l : Layer} {w : World} (h : l.InStep w)
    (hknown : ∀ f, l = .file f → f.memory < w.sightings.length) (memory : Nat) :
    (l.source.fetch w).2.sighting memory = w.sighting memory := by
  rcases l.fetch_snd w with hw | ⟨f, seen, rfl, hseen, hw⟩
  · rw [hw]
  · rw [hw]
    by_cases hm : f.memory = memory
    · rw [InStep, hseen] at h
      rw [← hm, World.sighting_remember_self (hknown f rfl)]
      exact Option.some.inj h
    · exact World.sighting_remember_of_ne w hm seen

/-- A layer that fails to hand something out changes no memory, or recalls nothing afterwards. -/
theorem sighting_fetch_of_error {l : Layer} {w : World} (hknown : ∀ f, l = .file f → f.memory < w.sightings.length)
    {failure : Failure} (h : l.handOut w.files = .error failure) :
    (l.source.fetch w).2 = w ∨ l.recalled (l.source.fetch w).2 = none := by
  rcases l.fetch_snd w with hw | ⟨f, seen, rfl, hseen, hw⟩
  · exact .inl hw
  · right
    -- what was noted is understood, and yet spells no tree
    rw [hw, recalled, World.sighting_remember_self (hknown f rfl), f.recalled_of_sighting? hseen]
    rw [handOut] at h
    rw [h]
    rfl

theorem inStep_of_changedSince {l : Layer} {generation : Int} {w : World}
    (h : l.source.changedSince generation w = .ok false) : l.InStep w := by
  cases l with
  | fixed name tree => trivial
  | file f =>
    rw [source, Source.changedSince, FileSource.changedSince] at h
    split at h
    · cases h
    · rw [InStep]
      split at h
      · rename_i hread
        rw [hread]
        have hsame := not_not.mp (of_decide_eq_false (Except.ok.inj h))
        rw [hsame, FileState.sighting?]
      · cases h
      · cases h
      · rename_i bytes hread
        rw [hread]
        have hsame := not_not.mp (of_decide_eq_false (Except.ok.inj h))
        rw [hsame, FileState.sighting?]

end Layer

/-! ## Fetching all layers -/

/-- The overlay of what layers give, if every layer gives something. -/
def overlay (give : Layer → Option Tree) (below : Tree) : List Layer → Option Tree
  | [] => some below
  | l :: rest => (give l).bind fun t => overlay give (Tree.merge below t) rest

theorem overlay_congr {give other : Layer → Option Tree} {layers : List Layer} (h : ∀ l ∈ layers, give l = other l)
    (below : Tree) : overlay give below layers = overlay other below layers := by
  induction layers generalizing below with
  | nil => rfl
  | cons l rest ih =>
    obtain ⟨hl, hrest⟩ := List.forall_mem_cons.mp h
    rw [overlay, overlay, hl]
    congr 1
    funext t
    exact ih hrest (Tree.merge below t)

theorem overlay_eq_none {give : Layer → Option Tree} {layers : List Layer} {l : Layer} (hl : l ∈ layers)
    (h : give l = none) (below : Tree) : overlay give below layers = none := by
  induction layers generalizing below with
  | nil => cases hl
  | cons k rest ih =>
    rw [overlay, Option.bind_eq_none_iff]
    rcases List.mem_cons.mp hl with hl | hl
    · rw [← hl, h]
      intro t ht
      cases ht
    · intro t _
      exact ih hl (Tree.merge below t)

theorem fetchLayers_layer (below : Content) (l : Layer) (rest : List Layer) (w : World) :
    fetchLayers below ((l :: rest).map Layer.source) w =
      match l.handOut w.files with
      | .error failure => (.error failure, (l.source.fetch w).2)
      | .ok t => fetchLayers (below.merge (.tree t)) (rest.map Layer.source) (l.source.fetch w).2 := by
  have hfst := l.fetch_fst w
  rw [List.map_cons, fetchLayers_cons]
  cases hfetch : l.source.fetch w with
  | mk fetched w' =>
    rw [hfetch] at hfst
    cases hout : l.handOut w.files with
    | error failure =>
      rw [hout] at hfst
      cases hfst
      rfl
    | ok t =>
      rw [hout] at hfst
      cases hfst
      rfl

/-- Layers hand out the overlay of what each of them reads, and leave the files as they are. -/
theorem fetchLayers_layers (layers : List Layer) (below : Tree) (w : World) :
    (fetchLayers (.tree below) (layers.map Layer.source) w).1.toOption =
        (overlay (Layer.read w.files) below layers).map .tree ∧
      (fetchLayers (.tree below) (layers.map Layer.source) w).2.files = w.files ∧
      (fetchLayers (.tree below) (layers.map Layer.source) w).2.sightings.length = w.sightings.length := by
  induction layers generalizing below w with
  | nil => simp [fetchLayers, overlay, Except.toOption]
  | cons l rest ih =>
    have hfiles := l.files_fetch w
    have hlength := l.length_fetch w
    rw [fetchLayers_layer, overlay, Layer.read]
    cases hout : l.handOut w.files with
    | error failure => exact ⟨rfl, hfiles, hlength⟩
    | ok t =>
      obtain ⟨hcontent, hfiles', hlength'⟩ := ih (Tree.merge below t) (l.source.fetch w).2
      rw [hfiles] at hcontent
      exact ⟨hcontent, hfiles'.trans hfiles, hlength'.trans hlength⟩

theorem fetch_layered (layers : List Layer) (w : World) :
    (Source.layered (layers.map Layer.source)).fetch w = fetchLayers (.tree []) (layers.map Layer.source) w := by
  have hcontent := (fetchLayers_layers layers [] w).1
  rw [Source.fetch]
  cases hf : fetchLayers (.tree []) (layers.map Layer.source) w with
  | mk fetched w' =>
    rw [hf] at hcontent
    cases fetched with
    | error failure => rfl
    | ok content =>
      obtain ⟨t, _, rfl⟩ := Option.map_eq_some_iff.mp hcontent.symm
      rfl

theorem fetchLayers_inStep {all : List Layer} {todo : List Layer} (hsub : ∀ l ∈ todo, l ∈ all) {w w' : World}
    (hown : OwnMemories all w) {below content : Content}
    (hf : fetchLayers below (todo.map Layer.source) w = (.ok content, w')) {k : Layer} (hk : k ∈ all)
    (h : k ∈ todo ∨ k.InStep w) : k.InStep w' := by
  induction todo generalizing below w with
  | nil =>
    rw [List.map_nil, fetchLayers] at hf
    cases hf
    rcases h with h | h
    · cases h
    · exact h
  | cons l rest ih =>
    obtain ⟨hl, hrest⟩ := List.forall_mem_cons.mp hsub
    rw [fetchLayers_layer] at hf
    cases hout : l.handOut w.files with
    | error failure =>
      rw [hout] at hf
      cases hf
    | ok t =>
      rw [hout] at hf
      refine ih hrest (hown.congr (l.length_fetch w)) hf ?_
      -- `k` is still to be fetched, or is `l`, or has been fetched before
      rcases h with h | h
      · rcases List.mem_cons.mp h with h | h
        · rw [h]
          exact .inr (Layer.inStep_fetch_self (hown.known_of_mem hl) hout)
        · exact .inl h
      · exact .inr (Layer.inStep_fetch h (hown.known_of_mem hk) fun f g hkf hlg => hown.apart f g (hkf ▸ hk) (hlg ▸ hl))

theorem inStep_of_anyChangedSince {layers : List Layer} {generation : Int} {w : World}
    (h : anyChangedSince generation w (layers.map Layer.source) = .ok false) : ∀ l ∈ layers, l.InStep w := by
  induction layers with
  | nil => simp
  | cons l rest ih =>
    rw [List.map_cons, anyChangedSince] at h
    split at h
    · cases h
    · rename_i hl
      exact List.forall_mem_cons.mpr ⟨Layer.inStep_of_changedSince hl, ih h⟩
    · cases h

/-! ## Fetches that are torn -/

/-- Whether a fetch would be torn: some layer hands nothing out, and a layer that is fetched before it is not as it was
seen last. -/
def Torn (layers : List Layer) (w : World) : Prop :=
  ∃ before l after, layers = before ++ l :: after ∧ (∀ k ∈ before, (k.read w.files).isSome) ∧
    l.read w.files = none ∧ ∃ k ∈ before, ¬ k.InStep w

/-- Of two layers the second tears the fetch, when it hands nothing out and the first is not as it was seen last. -/
theorem torn_pair_iff {k l : Layer} {w : World} :
    Torn [k, l] w ↔ (k.read w.files).isSome ∧ l.read w.files = none ∧ ¬ k.InStep w := by
  constructor
  · intro h
    obtain ⟨before, j, after, hsplit, hbefore, hj, i, hi, hout⟩ := h
    rcases before with _ | ⟨b, _ | ⟨c, before⟩⟩
    · cases hi
    · cases hsplit
      obtain rfl := List.mem_singleton.mp hi
      exact ⟨hbefore i hi, hj, hout⟩
    · have hlength := congrArg List.length hsplit
      simp at hlength
  · intro h
    obtain ⟨hk, hl, hout⟩ := h
    exact ⟨[k], l, [], rfl, by simpa using hk, hl, k, List.mem_singleton_self k, hout⟩

/-- A fetch that fails does so at some layer, and the layers before it hand something out. -/
theorem exists_failing {layers : List Layer} {below : Content} {w w' : World} {failure : Failure}
    (hf : fetchLayers below (layers.map Layer.source) w = (.error failure, w')) :
    ∃ before l after, layers = before ++ l :: after ∧ (∀ k ∈ before, (k.read w.files).isSome) ∧
      l.read w.files = none := by
  induction layers generalizing below w with
  | nil =>
    rw [List.map_nil, fetchLayers] at hf
    cases hf
  | cons l rest ih =>
    rw [fetchLayers_layer] at hf
    cases hout : l.handOut w.files with
    | error cause => exact ⟨[], l, rest, rfl, by simp, by rw [Layer.read, hout]; rfl⟩
    | ok t =>
      rw [hout] at hf
      obtain ⟨before, k, after, hsplit, hbefore, hk⟩ := ih hf
      rw [l.files_fetch w] at hbefore hk
      refine ⟨l :: before, k, after, by rw [hsplit, List.cons_append], ?_, hk⟩
      exact List.forall_mem_cons.mpr ⟨by rw [Layer.read, hout]; rfl, hbefore⟩

theorem Torn.cons {l : Layer} {rest : List Layer} {w : World} (h : Torn rest w) (hl : (l.read w.files).isSome) :
    Torn (l :: rest) w := by
  obtain ⟨before, k, after, hsplit, hbefore, hk, j, hj, hout⟩ := h
  refine ⟨l :: before, k, after, by rw [hsplit, List.cons_append], ?_, hk, j, List.mem_cons_of_mem _ hj, hout⟩
  exact List.forall_mem_cons.mpr ⟨hl, hbefore⟩

theorem torn_congr {layers : List Layer} {w w' : World} (hfiles : w'.files = w.files)
    (hsightings : ∀ memory, w'.sighting memory = w.sighting memory) (h : Torn layers w') : Torn layers w := by
  obtain ⟨before, k, after, hsplit, hbefore, hk, j, hj, hout⟩ := h
  rw [hfiles] at hbefore hk
  rw [Layer.inStep_congr hfiles hsightings] at hout
  exact ⟨before, k, after, hsplit, hbefore, hk, j, hj, hout⟩

/-- A fetch that fails without being torn changes no memory, or leaves a layer that recalls nothing. -/
theorem sighting_of_not_torn {layers : List Layer} {below : Content} {w w' : World} {failure : Failure}
    (hf : fetchLayers below (layers.map Layer.source) w = (.error failure, w'))
    (hknown : ∀ f, .file f ∈ layers → f.memory < w.sightings.length) (hnot : ¬ Torn layers w) :
    (∀ memory, w'.sighting memory = w.sighting memory) ∨ ∃ l ∈ layers, l.recalled w' = none := by
  induction layers generalizing below w with
  | nil =>
    rw [List.map_nil, fetchLayers] at hf
    cases hf
  | cons l rest ih =>
    have hl : ∀ f, l = .file f → f.memory < w.sightings.length := fun f hlf => hknown f (by simp [hlf])
    rw [fetchLayers_layer] at hf
    cases hout : l.handOut w.files with
    | error cause =>
      rw [hout] at hf
      cases hf
      rcases Layer.sighting_fetch_of_error hl hout with hw | hnone
      · left
        intro memory
        rw [hw]
      · exact .inr ⟨l, List.mem_cons_self, hnone⟩
    | ok t =>
      rw [hout] at hf
      have hfiles := l.files_fetch w
      have hread : (l.read w.files).isSome := by
        rw [Layer.read, hout]
        rfl
      -- were the layer out of step, the failure behind it would make the fetch torn
      have hstep : l.InStep w := by
        by_contra hout'
        obtain ⟨before, k, after, hsplit, hbefore, hk⟩ := exists_failing hf
        rw [hfiles] at hbefore hk
        apply hnot
        refine ⟨l :: before, k, after, by rw [hsplit, List.cons_append], ?_, hk, l, List.mem_cons_self, hout'⟩
        exact List.forall_mem_cons.mpr ⟨hread, hbefore⟩
      have hsame := Layer.sighting_fetch_of_inStep hstep hl
      have hnot' : ¬ Torn rest (l.source.fetch w).2 := by
        intro htorn
        exact hnot ((torn_congr hfiles hsame htorn).cons hread)
      have hknown' : ∀ f, .file f ∈ rest → f.memory < (l.source.fetch w).2.sightings.length := by
        intro f hf'
        rw [l.length_fetch w]
        exact hknown f (List.mem_cons_of_mem _ hf')
      rcases ih hf hknown' hnot' with hkept | ⟨k, hk, hnone⟩
      · left
        intro memory
        rw [hkept, hsame]
      · exact .inr ⟨k, List.mem_cons_of_mem _ hk, hnone⟩

end LayeredConfig
