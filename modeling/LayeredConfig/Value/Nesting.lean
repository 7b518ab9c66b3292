import LayeredConfig.Value.KeyOrder
/-!
# Dotted keys

A dotted key in a raw map is shorthand for nested maps: an entry at `a.b` is the entry `b` of a map
at `a`. `RawMap.nestDotted` does so for one level of a map; two maps that meet at one key are
combined, and any other meeting means that the key is given twice. Nesting never makes a map heavier
(`weight_nestDotted`), which is why doing so level after level comes to an end.
-/
namespace LayeredConfig

/-- The part of a dotted key before its first dot and the part after it. -/
def Key.split? : Key → Option (String × String)
  | text s =>
    match s.toList.dropWhile (· ≠ '.') with
    | [] => none
    | _ :: rest => some (String.ofList (s.toList.takeWhile (· ≠ '.')), String.ofList rest)
  | _ => none

mutual

/-- Combines two values that stand at the same key. -/
def combine (label : Key) (first : Raw) : (second : Raw) → Outcome Raw
  | .map entries =>
    match first with
    | .map out => (combineEntries label out entries).map .map
    | _ => .error (.givenTwice label)
  | _ => .error (.givenTwice label)
termination_by structural second => second

/-- Adds the entries of one map to another, in their order. -/
def combineEntries (label : Key) (out : RawMap) : (entries : RawMap) → Outcome RawMap
  | [] => .ok out
  | (k, v) :: rest =>
    match out.get? k with
    | none => combineEntries label (out.insert k v) rest
    | some w =>
      match combine (label.child k) w v with
      | .error f => .error f
      | .ok u => combineEntries label (out.insert k u) rest
termination_by structural entries => entries

end

namespace RawMap

/-- An entry with its key cut at the first dot, the rest of the key moved into a map of its own. -/
def nestEntry (k : Key) (v : Raw) : Key × Raw :=
  match k.split? with
  | some (head, rest) => (.text head, .map [(.text rest, v)])
  | none => (k, v)

/-- Adds an entry to a map whose dotted keys are already nested. -/
def addNested (label : Key) (out : RawMap) (entry : Key × Raw) : Outcome RawMap :=
  let (k, v) := nestEntry entry.1 entry.2
  match out.get? k with
  | none => .ok (out.insert k v)
  | some w => (combine (label.child k) w v).map (out.insert k)

def addAllNested (label : Key) (out : RawMap) : List (Key × Raw) → Outcome RawMap
  | [] => .ok out
  | entry :: rest =>
    match addNested label out entry with
    | .error f => .error f
    | .ok out => addAllNested label out rest

/-- A raw map whose dotted keys are nested by one level, taken in the order of their texts. -/
def nestDotted (label : Key) (m : RawMap) : Outcome RawMap :=
  if m.any fun p => p.1.split?.isSome then addAllNested label [] m.sortedByText else .ok m

end RawMap

/-! ## Nesting never makes a map heavier -/

/-- A key weighs twice its length, so that cutting it at a dot pays for the map that is added. -/
def Key.weight : Key → Nat
  | text s => 2 * s.toList.length
  | _ => 0

mutual

/-- The weight of a raw value: its nodes and keys. -/
def Raw.weight : Raw → Nat
  | .list items => 1 + Raw.weightItems items
  | .map entries => 1 + Raw.weightEntries entries
  | _ => 1

def Raw.weightItems : List Raw → Nat
  | [] => 0
  | v :: rest => 1 + v.weight + Raw.weightItems rest

def Raw.weightEntries : List (Key × Raw) → Nat
  | [] => 0
  | (k, v) :: rest => 1 + k.weight + v.weight + Raw.weightEntries rest

end

theorem Key.weight_of_split? {k : Key} {head rest : String} (h : k.split? = some (head, rest)) :
    k.weight = 2 + (Key.text head).weight + (Key.text rest).weight := by
  cases k with
  | text s =>
    simp only [Key.split?] at h
    split at h
    · cases h
    · next c tail hd =>
      cases h
      have hl := congrArg List.length (List.takeWhile_append_dropWhile (p := (· ≠ '.')) (l := s.toList))
      rw [hd] at hl
      simp only [List.length_append, List.length_cons] at hl
      simp only [Key.weight, String.toList_ofList]
      omega
  | _ => simp [Key.split?] at h

namespace RawMap
open Raw (weightEntries)

theorem weight_insert_of_get?_none {m : RawMap} {k : Key} (v : Raw) (h : m.get? k = none) :
    weightEntries (m.insert k v) = weightEntries m + (1 + k.weight + v.weight) := by
  induction m with
  | nil => simp [insert, weightEntries]
  | cons e rest ih =>
    obtain ⟨l, w⟩ := e
    simp only [get?] at h
    split at h
    · cases h
    · next hn =>
      simp only [insert, hn, Bool.false_eq_true, if_false, weightEntries, ih h]; omega

theorem weight_insert_of_get?_some {m : RawMap} {k : Key} {w : Raw} (v : Raw)
    (h : m.get? k = some w) :
    weightEntries (m.insert k v) + w.weight = weightEntries m + v.weight := by
  induction m with
  | nil => simp [get?] at h
  | cons e rest ih =>
    obtain ⟨l, u⟩ := e
    simp only [get?] at h
    split at h
    · next hs => cases h; simp only [insert, hs, if_true, weightEntries]; omega
    · next hs =>
      have := ih h
      simp only [insert, hs, Bool.false_eq_true, if_false, weightEntries]; omega

end RawMap

mutual

theorem weight_combine {label : Key} {a c : Raw} : (b : Raw) → combine label a b = .ok c →
    c.weight + 1 ≤ a.weight + b.weight
  | .map entries, h => by
    simp only [combine] at h
    split at h
    · next out =>
      cases hc : combineEntries label out entries with
      | error f => rw [hc] at h; cases h
      | ok r =>
        rw [hc] at h
        cases h
        have := weight_combineEntries entries hc
        simp only [Raw.weight]; omega
    · cases h
  | .null, h => by simp [combine] at h
  | .unset, h => by simp [combine] at h
  | .scalar _, h => by simp [combine] at h
  | .list _, h => by simp [combine] at h
  | .option _, h => by simp [combine] at h
  | .foreign _, h => by simp [combine] at h

theorem weight_combineEntries {label : Key} {out r : RawMap} : (entries : RawMap) →
    combineEntries label out entries = .ok r →
    Raw.weightEntries r ≤ Raw.weightEntries out + Raw.weightEntries entries
  | [], h => by simp only [combineEntries] at h; cases h; simp
  | (k, v) :: rest, h => by
    simp only [combineEntries] at h
    split at h
    · next hn =>
      have := weight_combineEntries rest h
      have := RawMap.weight_insert_of_get?_none v hn
      simp only [Raw.weightEntries]; omega
    · next w hs =>
      split at h
      · cases h
      · next u hu =>
        have := weight_combine v hu
        have := weight_combineEntries rest h
        have := RawMap.weight_insert_of_get?_some u hs
        simp only [Raw.weightEntries]; omega

end

namespace RawMap
open Raw (weightEntries)

theorem weight_nestEntry (k : Key) (v : Raw) :
    (nestEntry k v).1.weight + (nestEntry k v).2.weight = k.weight + v.weight := by
  simp only [nestEntry]
  split
  · next head rest h =>
    have := Key.weight_of_split? h
    simp only [Raw.weight, Raw.weightEntries]; omega
  · rfl

theorem weight_addNested {label : Key} {out r : RawMap} {k : Key} {v : Raw}
    (h : addNested label out (k, v) = .ok r) :
    weightEntries r ≤ weightEntries out + (1 + k.weight + v.weight) := by
  have hw := weight_nestEntry k v
  simp only [addNested] at h
  split at h
  · next hn => cases h; have := weight_insert_of_get?_none (nestEntry k v).2 hn; omega
  · next w hs =>
    cases hc : combine (label.child (nestEntry k v).1) w (nestEntry k v).2 with
    | error f => rw [hc] at h; cases h
    | ok u =>
      rw [hc] at h
      cases h
      have := weight_combine _ hc
      have := weight_insert_of_get?_some u hs
      omega

theorem weight_addAllNested {label : Key} {r : RawMap} (entries : List (Key × Raw)) {out : RawMap}
    (h : addAllNested label out entries = .ok r) :
    weightEntries r ≤ weightEntries out + weightEntries entries := by
  induction entries generalizing out with
  | nil => simp only [addAllNested] at h; cases h; simp
  | cons e rest ih =>
    obtain ⟨k, v⟩ := e
    simp only [addAllNested] at h
    split at h
    · cases h
    · next out' ho =>
      have := ih h
      have := weight_addNested ho
      simp only [weightEntries]; omega

theorem weight_insertOrdered (before : Key × Raw → Key × Raw → Bool) (e : Key × Raw) (m : RawMap) :
    weightEntries (insertOrdered before e m) = weightEntries (e :: m) := by
  induction m with
  | nil => rfl
  | cons d rest ih =>
    simp only [insertOrdered]
    split
    · obtain ⟨k, v⟩ := e
      obtain ⟨l, w⟩ := d
      simp only [weightEntries] at ih ⊢
      omega
    · rfl

theorem weight_sortOrdered (before : Key × Raw → Key × Raw → Bool) (m : RawMap) :
    weightEntries (sortOrdered before m) = weightEntries m := by
  induction m with
  | nil => rfl
  | cons e rest ih =>
    obtain ⟨k, v⟩ := e
    rw [sortOrdered, weight_insertOrdered]
    simp only [weightEntries, ih]

theorem weight_sortedByText (m : RawMap) : weightEntries m.sortedByText = weightEntries m :=
  weight_sortOrdered _ m

theorem weight_nestDotted {label : Key} {m r : RawMap} (h : nestDotted label m = .ok r) :
    weightEntries r ≤ weightEntries m := by
  simp only [nestDotted] at h
  split at h
  · have := weight_addAllNested _ h
    rw [weight_sortedByText] at this
    simpa [weightEntries] using this
  · cases h; exact Nat.le_refl _

end RawMap
end LayeredConfig
