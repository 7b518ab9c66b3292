import LayeredConfig.Failure.Basic
/-!
# Files

The names of files and what stands under them. A name is kept in its plain form, without repeated
slashes, single dots and a slash at its end; steps upwards stay. A name leads to a `Place`, and many names
may lead to the same one: `read` follows a name from folder to folder and answers what it finds there, be
it nothing, the content of a file, or a reason why it cannot be read. No file can have a name that holds
the character NUL.
-/
namespace LayeredConfig

/-! ## Names -/

/-- The parts of a name that count: neither empty nor a single dot. -/
def nameParts (name : String) : List String :=
  ((Text.splitAt '/' name.toList).map String.ofList).filter fun s => s ≠ "" && s ≠ "."

/-- What a name begins with: one slash for the root, and two exactly if two were written. -/
def nameRoot (name : String) : String :=
  match (name.toList.takeWhile (· = '/')).length with
  | 0 => ""
  | 2 => "//"
  | _ => "/"

/-- The plain form of a name. -/
def plainName (name : String) : String :=
  let plain := nameRoot name ++ "/".intercalate (nameParts name)
  if plain = "" then "." else plain

/-! ## Places -/

/-- Where places are counted from: the root of all folders, or the folder some steps above the directory. -/
inductive Base where
  | root
  | above (steps : Nat)
  deriving DecidableEq

/-- A place: where it is counted from, and the parts that lead down to it, the last one first. -/
structure Place where
  base : Base
  downward : List String
  deriving DecidableEq

namespace Place

def start (name : String) : Place := ⟨if nameRoot name = "" then .above 0 else .root, []⟩

/-- The place one step up. Nothing is above the root. -/
def up (p : Place) : Place :=
  match p.downward, p.base with
  | _ :: rest, base => ⟨base, rest⟩
  | [], .above steps => ⟨.above (steps + 1), []⟩
  | [], .root => p

def down (p : Place) (part : String) : Place := { p with downward := part :: p.downward }

/-- Whether a place is another or beneath it. -/
def isWithin (p q : Place) : Bool := decide (p.base = q.base) && q.downward.isSuffixOf p.downward

end Place

/-! ## Directories -/

inductive Node where
  | file (content : ByteArray)
  | folder
  | refused (problem : FileProblem)

/-- What reading a name finds. -/
inductive FileState where
  | missing
  | unnameable
  | unreadable (problem : FileProblem)
  | content (bytes : ByteArray)

/-- What stands at places. The directory itself, every folder above it and the root are there in any case. -/
abbrev Directory := List (Place × Node)

namespace Directory

def get? (d : Directory) (place : Place) : Option Node :=
  if place.downward.isEmpty then some .folder else (d.find? (·.1 = place)).map (·.2)

/-- A directory with something at a place, in place of what stood there. -/
def set (d : Directory) (place : Place) (node : Node) : Directory :=
  (place, node) :: d.filter (·.1 ≠ place)

/-- Follows parts of a name down from a place and makes folders where nothing stands on the way. -/
def enter (d : Directory) (place : Place) : List String → Directory × Place
  | [] => (d, place)
  | part :: rest =>
    if part = ".." then enter d place.up rest
    else
      let next := place.down part
      enter (if (d.get? next).isNone then d.set next .folder else d) next rest

/-- A directory with something under a name, and with all folders on the way. -/
def put (d : Directory) (name : String) (node : Node) : Directory :=
  match (nameParts name).getLast? with
  | none => d
  | some part =>
    let (d, folder) := d.enter (.start name) (nameParts name).dropLast
    if part = ".." then d else d.set (folder.down part) node

/-- The bytes that one part of a name may have. -/
def maxNameBytes : Nat := 255

/-- The bytes that a whole name may have. -/
def maxPathBytes : Nat := 4095

/-- Follows parts of a name from a place to where they lead, or to the reason why they lead nowhere. A step
can be taken only from a folder. -/
def follow (d : Directory) (place : Place) : List String → Except FileState Place
  | [] => .ok place
  | part :: rest =>
    match d.get? place with
    | none => .error .missing
    | some (.refused problem) => .error (.unreadable problem)
    | some (.file _) => .error (.unreadable .notDirectory)
    | some .folder =>
      if part = ".." then follow d place.up rest
      else if maxNameBytes < part.utf8ByteSize then .error (.unreadable .nameTooLong)
      else follow d (place.down part) rest

def locate (d : Directory) (name : String) : Except FileState Place :=
  if name.toList.contains '\x00' then .error .unnameable
  else if maxPathBytes < (plainName name).utf8ByteSize then .error (.unreadable .nameTooLong)
  else d.follow (.start name) (nameParts name)

/-- What reading a name finds. -/
def read (d : Directory) (name : String) : FileState :=
  match d.locate name with
  | .error state => state
  | .ok place =>
    match d.get? place with
    | none => .missing
    | some (.file bytes) => .content bytes
    | some .folder => .unreadable .isDirectory
    | some (.refused problem) => .unreadable problem

/-- A directory without what stands under a name and all beneath it. -/
def remove (d : Directory) (name : String) : Directory :=
  match d.locate name with
  | .error _ => d
  | .ok place => d.filter fun e => !e.1.isWithin place

end Directory
end LayeredConfig
