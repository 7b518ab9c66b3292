import LayeredConfig.Value.Nesting
/-!
# Freezing

`freeze` turns a raw value into its stored form or says why it has none. An absent value becomes the
tombstone; whole numbers must fit in 64 bits; no element of a list may be absent; dotted keys of maps
are nested, one map for each segment, and every key that is left must be a non-empty text. Maps come
out with their keys in ascending order. The label of a value is the path by which messages name it.
-/
namespace LayeredConfig

mutual

/-- The stored form of a raw value. -/
def freeze (label : Key) (value : Raw) : Outcome Value :=
  match value with
  | .null => .ok .unset
  | .unset => .ok .unset
  | .scalar (.int n) =>
    if (Scalar.int n).fits then .ok (.scalar (.int n)) else .error (.outOfRange label n)
  | .scalar s => .ok (.scalar s)
  | .list items => (freezeItems label 0 items).map .list
  | .map entries =>
    match _h : RawMap.nestDotted label entries with
    | .error f => .error f
    | .ok nested => (freezeEntries label nested.sortedByText).map .map
  | .option o => .error (.unsupported label (Raw.option o).typeName)
  | .foreign f => .error (.unsupported label f.typeName)
termination_by value.weight
decreasing_by
  · simp only [Raw.weight]; omega
  · have := RawMap.weight_nestDotted _h
    simp only [Raw.weight, RawMap.weight_sortedByText]; omega

/-- The stored forms of list elements, the first of which is element `i` of its list. -/
def freezeItems (label : Key) (i : Nat) (items : List Raw) : Outcome (List Value) :=
  match items with
  | [] => .ok []
  | v :: rest =>
    match freeze (label.item i) v with
    | .error f => .error f
    | .ok .unset => .error (.nullInList label i)
    | .ok w => (freezeItems label (i + 1) rest).map (w :: ·)
termination_by Raw.weightItems items
decreasing_by
  · simp only [Raw.weightItems]; omega
  · simp only [Raw.weightItems]; omega

/-- The stored forms of the entries of a map without dotted keys. -/
def freezeEntries (label : Key) (entries : RawMap) : Outcome Tree :=
  match entries with
  | [] => .ok []
  | (k, v) :: rest =>
    match k with
    | .text s =>
      if s = "" then .error (.badKey label k)
      else
        match freeze (label.child k) v with
        | .error f => .error f
        | .ok w => (freezeEntries label rest).map ((s, w) :: ·)
    | _ => .error (.badKey label k)
termination_by Raw.weightEntries entries
decreasing_by
  · simp only [Raw.weightEntries]; omega
  · simp only [Raw.weightEntries]; omega

end

/-- The stored form of a raw tree, which must be a map; `what` says what tree it is. -/
def freezeTree (what : String) (tree : Raw) : Outcome Tree :=
  match tree with
  | .map entries =>
    match RawMap.nestDotted what entries with
    | .error f => .error f
    | .ok nested => freezeEntries what nested.sortedByText
  | other => .error (.rootNotMap what other.typeName)

end LayeredConfig
