import LayeredConfig.Tree.Basic
import LayeredConfig.Value.Freeze
/-!
# Typed reads

A value gets a type only when it is read. Reading never parses text and never drops information: a
value that does not fit the kind exactly is a mismatch. Whole numbers are read as binary64 numbers only
when they are exactly one, and as durations they count milliseconds. A map of strings is read flat, its
keys being the dotted paths of its leaves.
-/
namespace LayeredConfig

/-- Why a scalar cannot be read as a kind. -/
inductive Misfit where
  | otherType
  | tooLargeForDouble
  deriving DecidableEq

def fitsInt32 (n : Int) : Bool := decide (-2147483648 ≤ n) && decide (n ≤ 2147483647)

def ScalarKind.read : ScalarKind → Scalar → Except Misfit Scalar
  | boolean, .bool b => .ok (.bool b)
  | int, .int n => if fitsInt32 n then .ok (.int n) else .error .otherType
  | long, .int n => if (Scalar.int n).fits then .ok (.int n) else .error .otherType
  | bytes, .int n => if (Scalar.int n).fits then .ok (.int n) else .error .otherType
  | double, .double x => .ok (.double x)
  | double, .int n =>
    if (Double.ofInt n).isInfinite then .error .tooLargeForDouble
    else if Double.represents n then .ok (.double (Double.ofInt n)) else .error .otherType
  | string, .text s => .ok (.text s)
  | duration, .duration d => .ok (.duration d)
  | duration, .int n =>
    match Duration.ofMillis? n with
    | some d => .ok (.duration d)
    | none => .error .otherType
  | _, _ => .error .otherType

/-- What reading a value gives. -/
inductive Reading where
  | scalar (s : Scalar)
  | list (items : List Scalar)
  | map (entries : List (Key × Scalar))

def Reading.toRaw : Reading → Raw
  | scalar s => .scalar s
  | list items => .list (items.map .scalar)
  | map entries => .map (entries.map fun e => (e.1, .scalar e.2))

def itemLabel (path : String) (i : Nat) : String := path ++ "[" ++ Text.decimal i ++ "]"

def readItems {α : Type} (readOne : (path : String) → α → Outcome Scalar) (path : String) (i : Nat) :
    List α → Outcome (List Scalar)
  | [] => .ok []
  | v :: rest =>
    match readOne (itemLabel path i) v with
    | .error f => .error f
    | .ok s => (readItems readOne path (i + 1) rest).map (s :: ·)

/-! ## Stored values -/

namespace Value

def mismatch (kind : Kind) (path : String) (v : Value) : Failure :=
  .mismatch ⟨path, kind, v.typeName, v.shown⟩

/-- A stored value read as a scalar kind. -/
def readScalar (kind : ScalarKind) (path : String) (v : Value) : Outcome Scalar :=
  match v with
  | scalar s =>
    match kind.read s with
    | .ok r => .ok r
    | .error .otherType => .error (v.mismatch (.scalar kind) path)
    | .error .tooLargeForDouble => .error .tooLargeForDouble
  | _ => .error (v.mismatch (.scalar kind) path)

/-- Reads the flattened leaves of a map of strings. -/
def readLeaves (path : String) : List (String × Value) → Outcome (List (Key × Scalar))
  | [] => .ok []
  | (k, v) :: rest =>
    match readScalar .string (path ++ "." ++ k) v with
    | .error f => .error f
    | .ok s => (readLeaves path rest).map ((Key.text k, s) :: ·)

def read (kind : Kind) (path : String) (v : Value) : Outcome Reading :=
  match kind, v with
  | .stringMap, map entries => (readLeaves path (Tree.flatten entries)).map .map
  | .list k, list items => (readItems (readScalar k) path 0 items).map .list
  | .scalar k, _ =>
    match v with
    | list _ => .error (v.mismatch kind path)
    | map _ => .error (v.mismatch kind path)
    | _ => (v.readScalar k path).map .scalar
  | _, _ => .error (v.mismatch kind path)

end Value

/-! ## Raw values -/

/-- The key under which what stands under `key` inside a raw map is listed. -/
def listedKey (outer key : Key) : Key :=
  if outer.isEmpty then key else .text (outer.plain ++ "." ++ key.plain)

/-- Puts the listed leaves of a map's entries in the order of its keys. -/
def gatherLeaves (parts : List (Key × Outcome (List (Key × Raw)))) : Outcome (List (Key × Raw)) := do
  let ordered ← orderedByKey parts
  ordered.foldlM (fun out part => part.2.map (out ++ ·)) []

mutual

/-- The leaves of a raw value listed under a key. -/
def Raw.leavesUnder (outer : Key) : Raw → Outcome (List (Key × Raw))
  | .map entries => gatherLeaves (rawLeavesOfEntries outer entries)
  | v => .ok [(outer, v)]

/-- The leaves of each entry of a raw map. -/
def rawLeavesOfEntries (outer : Key) : List (Key × Raw) → List (Key × Outcome (List (Key × Raw)))
  | [] => []
  | (k, v) :: rest => (k, v.leavesUnder (listedKey outer k)) :: rawLeavesOfEntries outer rest

end

namespace Raw

def mismatch (kind : Kind) (path : String) (v : Raw) : Failure :=
  .mismatch ⟨path, kind, v.typeName, v.shown⟩

def readScalar (kind : ScalarKind) (path : String) (v : Raw) : Outcome Scalar :=
  match v with
  | scalar s =>
    match kind.read s with
    | .ok r => .ok r
    | .error .otherType => .error (v.mismatch (.scalar kind) path)
    | .error .tooLargeForDouble => .error .tooLargeForDouble
  | _ => .error (v.mismatch (.scalar kind) path)

def readAsScalar (kind : Kind) (path : String) (v : Raw) : Outcome Scalar :=
  match kind with
  | .scalar k => v.readScalar k path
  | _ => .error (.notScalar kind)

/-- Reads the flattened leaves of a raw map of strings; of two leaves under one key the later counts. -/
def readLeaves (path : String) : List (Key × Raw) → Outcome (List (Key × Scalar))
  | [] => .ok []
  | (k, v) :: rest =>
    match v.readScalar .string (path ++ "." ++ k.plain) with
    | .error f => .error f
    | .ok s =>
      (readLeaves path rest).map fun out => if out.any (·.1.same k) then out else (k, s) :: out

def read (kind : Kind) (path : String) (v : Raw) : Outcome Reading :=
  match kind, v with
  | .stringMap, map entries => do
    let leaves ← (map entries).leavesUnder (.text "")
    (readLeaves path leaves).map .map
  | .list k, list items => (readItems (fun p (w : Raw) => w.readScalar k p) path 0 items).map .list
  | .scalar k, _ =>
    match v with
    | list _ => .error (v.mismatch kind path)
    | map _ => .error (v.mismatch kind path)
    | _ => (v.readScalar k path).map .scalar
  | _, _ => .error (v.mismatch kind path)

end Raw

/-! ## Typed writes -/

/-- Checks a raw value against a kind and gives the stored form to write for it. -/
def normalize (kind : Kind) (path : String) (value : Raw) : Outcome Value := do
  let frozen ← freeze path value
  match frozen with
  | .unset => .error (.absentForSetter path)
  | _ =>
    match frozen.read kind path with
    | .ok reading => freeze path reading.toRaw
    | .error (.mismatch m) => .error (.setterMismatch m)
    | .error f => .error f

end LayeredConfig
