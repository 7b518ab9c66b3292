import LayeredConfig.Profile.Basic
import LayeredConfig.Source.Basic
/-!
# Reload coordination

A coordinator serves one configuration at a time. The first is resolved on demand; every later one
replaces it when a pass succeeds, with a generation one higher, and a pass that fails leaves it as it
is. What a coordinator resolves comes from a `Feed`: a source of content over some state, which may be
anything at all.
-/
namespace LayeredConfig

/-- Where a coordinator gets content from: an answer whether it has changed since a generation, and the
content itself, getting which may change the state. -/
structure Feed (σ : Type) where
  changed : Int → σ → Outcome Bool
  fetch : σ → Outcome Content × σ

/-- A source as a feed over the world. -/
def Source.feed (source : Source) : Feed World := ⟨fun g w => source.changedSince g w, source.fetch⟩

/-- The state of a coordinator: the configuration it serves, if it has resolved one. -/
structure Coordinator where
  current : Option Config

namespace Coordinator

variable {σ : Type}

def fresh : Coordinator := ⟨none⟩

/-- The generation served, zero before the first. -/
def generation (c : Coordinator) : Int :=
  match c.current with
  | none => 0
  | some config => config.generation

/-- What a request to a coordinator leaves behind: its answer, the coordinator and the state. -/
structure Answer (σ α : Type) where
  result : Outcome α
  coordinator : Coordinator
  state : σ

/-- A pass: fetches, resolves the next generation and serves it. -/
def advance (c : Coordinator) (feed : Feed σ) (s : σ) : Answer σ Config :=
  let (fetched, s) := feed.fetch s
  match fetched with
  | .error f => ⟨.error f, c, s⟩
  | .ok content =>
    match Config.resolve content (c.generation + 1) with
    | .error f => ⟨.error f, c, s⟩
    | .ok config => ⟨.ok config, ⟨some config⟩, s⟩

/-- The configuration served, resolved now if there is none. Failures are those of the pass. -/
def demand (c : Coordinator) (feed : Feed σ) (s : σ) : Answer σ Config :=
  match c.current with
  | some config => ⟨.ok config, c, s⟩
  | none => c.advance feed s

/-- Resolves a new generation. A failure names the generation that is still served. -/
def reload (c : Coordinator) (feed : Feed σ) (s : σ) : Answer σ Config :=
  match c.advance feed s with
  | ⟨.error f, c', s'⟩ => ⟨.error (.reload c'.generation f), c', s'⟩
  | answer => answer

/-- Reloads if the source says that it has changed since a generation, which need not be the one served
any more; tells whether it did. -/
def reloadIfChangedSince (c : Coordinator) (noted : Int) (feed : Feed σ) (s : σ) : Answer σ Bool :=
  match feed.changed noted s with
  | .error f => ⟨.error f, c, s⟩
  | .ok false => ⟨.ok false, c, s⟩
  | .ok true =>
    match c.reload feed s with
    | ⟨.ok _, c', s'⟩ => ⟨.ok true, c', s'⟩
    | ⟨.error f, c', s'⟩ => ⟨.error f, c', s'⟩

/-- Reloads if the source says that it has changed since the generation served; tells whether it did. -/
def reloadIfChanged (c : Coordinator) (feed : Feed σ) (s : σ) : Answer σ Bool :=
  c.reloadIfChangedSince c.generation feed s

end Coordinator

/-- What is logged when a request fails: only a failed reload is. -/
def Failure.reloadWarning : Failure → List String
  | .reload generation cause =>
    ["Configuration reload failed; still serving generation " ++ Text.decimal generation ++ ": " ++
      cause.message]
  | _ => []

/-- What is logged for a failure in the background that nobody observes. -/
def Failure.backgroundWarning (f : Failure) : String :=
  "Background configuration reload failed: " ++ f.message

end LayeredConfig
