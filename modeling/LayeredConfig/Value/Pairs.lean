import LayeredConfig.Failure.Basic
/-!
# Named values as pairs

Named values can be handed in as a map, or as anything that consists of pairs: a list of lists of two, say,
or a list of texts of two characters. `Raw.pairs` gives the pairs of a raw value in their order, or says
which element is the first that is no pair. A name may occur more than once; its last value counts.
-/
namespace LayeredConfig

/-- Values with what they are named by. -/
abbrev Pairs := List (Raw × Raw)

/-- The pairs of a raw map. -/
def RawMap.pairs (m : RawMap) : Pairs := m.map fun e => (e.1.toRaw, e.2)

def Raw.isText (name : String) : Raw → Bool
  | .scalar (.text s) => s == name
  | _ => false

/-- The value that counts under a name. -/
def Pairs.get? (pairs : Pairs) (name : String) : Option Raw :=
  (pairs.findRev? (·.1.isText name)).map (·.2)

/-- The elements of a raw value, if it consists of elements: a text does of its characters, and a map of its
keys. -/
def Raw.elements? : Raw → Option (List Raw)
  | .list items => some items
  | .map entries => some (entries.map (·.1.toRaw))
  | .scalar (.text s) => some (s.toList.map fun c => .scalar (.text c.toString))
  | .foreign f => f.elements?.map (List.map .scalar)
  | _ => none

/-- Element `i` of a raw value as a pair. -/
def pairOf (i : Nat) (element : Raw) : Outcome (Raw × Raw) :=
  match element.elements? with
  | none => .error (.elementNotSequence i)
  | some [name, value] => if name.isKeyLike then .ok (name, value) else .error (.unhashable name.typeName)
  | some parts => .error (.elementNotPair i parts.length)

/-- Elements as pairs, the first of which is element `i`. -/
def pairsFrom (i : Nat) : List Raw → Outcome Pairs
  | [] => .ok []
  | element :: rest =>
    match pairOf i element with
    | .error f => .error f
    | .ok pair => (pairsFrom (i + 1) rest).map (pair :: ·)

/-- The pairs of a raw value. -/
def Raw.pairs : Raw → Outcome Pairs
  | .map entries => .ok (RawMap.pairs entries)
  | v =>
    match v.elements? with
    | none => .error (.noElements v.fullTypeName)
    | some elements => pairsFrom 0 elements

end LayeredConfig
