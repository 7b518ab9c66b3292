import LayeredConfig.Source.Directory
import LayeredConfig.Toml.Document
import LayeredConfig.Tree.Expand
import LayeredConfig.Tree.Loose
/-!
# Sources

A source hands out content on every fetch and says whether it has changed since a generation. The fixed
ones never change; a supplier is a function of the user's, asked anew every time; a file is compared
with what its last fetch saw; layers are overlaid in order, and have changed if one of them has.

What a source depends on outside itself is in a `World`: the files, the environment, the suppliers, and
for each file source what it saw last. A file source that two loaders share has one memory for both.
-/
namespace LayeredConfig

/-! ## The world around sources -/

/-- What a supplier does when it is asked. -/
inductive Supply where
  | give (data : Raw)
  | fail (fault : Fault)

/-- A supplier: what it does now, and how often it was asked. -/
structure Supplier where
  supply : Supply
  calls : Nat

/-- What the last successful reading of a file saw. -/
inductive Sighting where
  | never
  | absent
  | bytes (content : ByteArray)

instance : DecidableEq Sighting
  | .never, .never => isTrue rfl
  | .absent, .absent => isTrue rfl
  | .bytes a, .bytes b => decidable_of_iff (a.data = b.data) (by rw [Sighting.bytes.injEq, ByteArray.ext_iff])
  | .never, .absent => isFalse Sighting.noConfusion
  | .never, .bytes _ => isFalse Sighting.noConfusion
  | .absent, .never => isFalse Sighting.noConfusion
  | .absent, .bytes _ => isFalse Sighting.noConfusion
  | .bytes _, .never => isFalse Sighting.noConfusion
  | .bytes _, .absent => isFalse Sighting.noConfusion

/-- Everything outside the sources that they depend on. -/
structure World where
  files : Directory
  environment : List (String × String)
  suppliers : List Supplier
  sightings : List Sighting

namespace World

def ofEnvironment (environment : List (String × String)) : World := ⟨[], environment, [], []⟩

/-- What the file source with the given memory saw last. -/
def sighting (w : World) (memory : Nat) : Sighting := w.sightings[memory]?.getD .never

/-- The world in which a file source has seen something. -/
def remember (w : World) (memory : Nat) (seen : Sighting) : World :=
  { w with sightings := w.sightings.set memory seen }

end World

/-! ## Kinds of sources -/

/-- When a source written by the user says it has changed: always the same answer, or as long as the
generation is below a bound. -/
inductive ChangeRule where
  | fixed (answer : Bool)
  | below (bound : Int)

/-- A source that reads a TOML file, or one table of it. -/
structure FileSource where
  path : String
  table : Option String
  required : Bool
  memory : Nat

inductive Source where
  | fixed (name : String) (tree : Tree)
  | supplied (name : String) (supplier : Nat)
  | file (source : FileSource)
  | custom (data : RawMap) (rule : ChangeRule)
  | layered (layers : List Source)

/-! ## Files -/

/-- Narrows parsed data to a dotted table, an absent one counting as empty; without a table's name the
data are left as they are. -/
def extractTable (data : Raw) (table : Option String) : Outcome Raw :=
  match table.filter (· ≠ "") with
  | none => .ok data
  | some name => do
    let path ← Path.parse name
    let step (node : Raw) (segment : String) : Outcome Raw :=
      match node with
      | .map entries => .ok ((RawMap.get? entries segment).getD (.map []))
      | _ => .error (.notATable name)
    match ← path.segments.foldlM step data with
    | .map entries => .ok (.map entries)
    | _ => .error (.notATable name)

namespace FileSource

/-- The tree that the bytes of a file spell; the first outcome says whether the file was understood,
the second whether its data make a tree. -/
def treeOfBytes (f : FileSource) (bytes : ByteArray) : Outcome (Outcome Tree) :=
  match Toml.parseBytes bytes with
  | .error .malformed => .error (.fileMalformed f.path)
  | .error (.numeralTooLong digits) => .error (.numeralTooLong digits)
  | .ok data => (extractTable (.map data) f.table).map (treeOfData f.path)

/-- Reads the file. What was read is remembered as soon as it was understood. -/
def fetch (f : FileSource) (w : World) : Outcome Content × World :=
  match w.files.read f.path with
  | .missing =>
    if f.required then (.error (.fileMissing f.path), w)
    else (.ok (.tree []), w.remember f.memory .absent)
  | .unnameable => (.error .nulInFileName, w)
  | .unreadable problem => (.error (.fileUnreadable f.path problem), w)
  | .content bytes =>
    match f.treeOfBytes bytes with
    | .error failure => (.error failure, w)
    | .ok tree => (tree.map .tree, w.remember f.memory (.bytes bytes))

/-- Whether the file is another than the one seen last. -/
def changedSince (f : FileSource) (generation : Int) (w : World) : Outcome Bool :=
  if generation < 1 || w.sighting f.memory = .never then .ok true
  else
    match w.files.read f.path with
    | .missing => .ok (decide (w.sighting f.memory ≠ .absent))
    | .unnameable => .error .nulInFileName
    | .unreadable problem => .error (.fileUnreadable f.path problem)
    | .content bytes => .ok (decide (w.sighting f.memory ≠ .bytes bytes))

end FileSource

/-! ## Fetching and asking for changes -/

def askSupplier (name : String) (supplier : Nat) (w : World) : Outcome Content × World :=
  match w.suppliers[supplier]? with
  | none => ((treeOfData name (.map [])).map .tree, w)
  | some s =>
    let w := { w with suppliers := w.suppliers.set supplier { s with calls := s.calls + 1 } }
    match s.supply with
    | .give data => ((treeOfData name data).map .tree, w)
    | .fail fault => (.error (.supplied fault), w)

mutual

def Source.fetch : Source → World → Outcome Content × World
  | .fixed _ tree, w => (.ok (.tree tree), w)
  | .supplied name supplier, w => askSupplier name supplier w
  | .file f, w => f.fetch w
  | .custom data _, w => (.ok (.loose data), w)
  | .layered layers, w =>
    match fetchLayers (.tree []) layers w with
    | (.ok content, w) => (content.frozen.map .tree, w)
    | (.error f, w) => (.error f, w)

/-- The overlay of layers on content, each fetched when its turn comes. -/
def fetchLayers (below : Content) : List Source → World → Outcome Content × World
  | [], w => (.ok below, w)
  | layer :: rest, w =>
    match layer.fetch w with
    | (.ok content, w) => fetchLayers (below.merge content) rest w
    | (.error f, w) => (.error f, w)

end

mutual

def Source.changedSince (generation : Int) (w : World) : Source → Outcome Bool
  | .fixed _ _ => .ok (decide (generation < 1))
  | .supplied _ _ => .ok true
  | .file f => f.changedSince generation w
  | .custom _ (.fixed answer) => .ok answer
  | .custom _ (.below bound) => .ok (decide (generation < bound))
  | .layered layers => anyChangedSince generation w layers

/-- Whether one of several sources has changed; those behind the first that has are not asked. -/
def anyChangedSince (generation : Int) (w : World) : List Source → Outcome Bool
  | [] => .ok false
  | layer :: rest =>
    match layer.changedSince generation w with
    | .ok true => .ok true
    | .ok false => anyChangedSince generation w rest
    | .error f => .error f

end

/-! ## Making and showing sources -/

def shownTable : Option String → String
  | none => "None"
  | some table => Text.quoted table

mutual

def Source.shown : Source → String
  | .fixed name _ => "MappingSource(name=" ++ Text.quoted name ++ ")"
  | .supplied name _ => "SupplierSource(name=" ++ Text.quoted name ++ ")"
  | .file f => "TomlFileSource(path=" ++ Text.quoted f.path ++ ", table=" ++ shownTable f.table ++ ")"
  | .custom _ _ => "Custom()"
  | .layered layers => "LayeredSource(" ++ ", ".intercalate (shownLayers layers) ++ ")"

def shownLayers : List Source → List String
  | [] => []
  | layer :: rest => layer.shown :: shownLayers rest

end

/-- A fixed source over data, empty data of any type counting as an empty map. -/
def Source.ofData (name : String) (data : Raw) : Outcome Source :=
  (treeOfData name (if data.isEmpty then .map [] else data)).map (.fixed name)

/-- A raw value used as a source: only maps can be. -/
def Source.ofRaw : Raw → Outcome Source
  | .map entries => Source.ofData "mapping" (.map entries)
  | v => .error (.notASource v.typeName)

/-- The overlay of sources, of which there must be one at least. -/
def Source.ofLayers (layers : List Source) : Outcome Source :=
  if layers.isEmpty then .error .noLayers else .ok (.layered layers)

def Source.newFile (path : String) (table : Option String) (required : Bool) (w : World) :
    Source × World :=
  (.file { path := plainName path, table := table, required := required, memory := w.sightings.length },
   { w with sightings := w.sightings ++ [.never] })

end LayeredConfig
