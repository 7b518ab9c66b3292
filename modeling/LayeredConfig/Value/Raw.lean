import LayeredConfig.Kind
import LayeredConfig.Value.Foreign
/-!
# Raw values

What callers hand in before it is checked: absent values, tombstones, scalars, lists, maps in the order
they were written, options, and values of types that cannot be stored. The keys of a raw map need not
be texts; two keys are the same key when they are the same text or the same number, where the truth
values count as the numbers one and zero.
-/
namespace LayeredConfig

/-- A key of a raw map. -/
inductive Key where
  | text (s : String)
  | int (n : Int)
  | bool (b : Bool)
  | null
  deriving DecidableEq

namespace Key

instance : Coe String Key := ⟨text⟩

/-- The number a key counts as. -/
def number? : Key → Option Int
  | int n => some n
  | bool b => some (if b then 1 else 0)
  | _ => none

/-- Whether two keys are the same key of a map. -/
def same : Key → Key → Bool
  | text s, text t => decide (s = t)
  | null, null => true
  | a, b => match a.number?, b.number? with
    | some m, some n => decide (m = n)
    | _, _ => false

/-- The text a key is written as inside a longer path. -/
def plain : Key → String
  | text s => s
  | int n => Text.decimal n
  | bool b => Scalar.shownBool b
  | null => "None"

def shown : Key → String
  | text s => Text.quoted s
  | k => k.plain

def typeName : Key → String
  | text _ => "str"
  | int _ => "int"
  | bool _ => "bool"
  | null => "NoneType"

def isEmpty : Key → Bool
  | text s => s == ""
  | null => true
  | k => k.number? == some 0

/-- The label of what lies under a key, given the label of the map. -/
def child (label key : Key) : Key := text (label.plain ++ "." ++ key.plain)

/-- The label of a list element, given the label of the list. -/
def item (label : Key) (i : Nat) : Key := text (label.plain ++ "[" ++ Text.decimal i ++ "]")

end Key

/-- A value as it is handed in. -/
inductive Raw where
  | null
  | unset
  | scalar (s : Scalar)
  | list (items : List Raw)
  | map (entries : List (Key × Raw))
  | option (o : OptionKey)
  | foreign (f : Foreign)

def Key.toRaw : Key → Raw
  | text s => .scalar (.text s)
  | int n => .scalar (.int n)
  | bool b => .scalar (.bool b)
  | null => .null

/-- The entries of a raw map, in the order they were written. -/
abbrev RawMap := List (Key × Raw)

namespace RawMap

def get? : RawMap → Key → Option Raw
  | [], _ => none
  | (k, v) :: rest, key => if k.same key then some v else get? rest key

/-- A raw map with a value under a key: a present key keeps its place, a new one goes to the end. -/
def insert : RawMap → Key → Raw → RawMap
  | [], key, v => [(key, v)]
  | (k, w) :: rest, key, v => if k.same key then (k, v) :: rest else (k, w) :: insert rest key v

/-- The raw map that writing the given pairs one after the other makes. -/
def ofPairs (pairs : List (Key × Raw)) : RawMap :=
  pairs.foldl (fun m p => m.insert p.1 p.2) []

def erase (m : RawMap) (key : Key) : RawMap := m.filter fun p => !p.1.same key

end RawMap

namespace Raw

def typeName : Raw → String
  | null => "NoneType"
  | unset => "_Unset"
  | scalar s => s.typeName
  | list _ => "list"
  | map _ => "dict"
  | option _ => "Option"
  | foreign f => f.typeName

/-- The types of the calendar, whose full names say so. -/
def calendarTypes : List String := ["timedelta", "date", "datetime", "time"]

/-- The full name of a raw value's type. -/
def fullTypeName (v : Raw) : String :=
  if calendarTypes.contains v.typeName then "datetime." ++ v.typeName else v.typeName

mutual

def shown : Raw → String
  | null => "None"
  | unset => "UNSET"
  | scalar s => s.shown
  | list items => "[" ++ ", ".intercalate (shownItems items) ++ "]"
  | map entries => "\x7b" ++ ", ".intercalate (shownEntries entries) ++ "\x7d"
  | option o => o.shown
  | foreign f => f.shown

def shownItems : List Raw → List String
  | [] => []
  | v :: rest => v.shown :: shownItems rest

def shownEntries : List (Key × Raw) → List String
  | [] => []
  | (k, v) :: rest => (k.shown ++ ": " ++ v.shown) :: shownEntries rest

end

/-- Whether the value is absent or the empty value of its type. -/
def isEmpty : Raw → Bool
  | null => true
  | unset => true
  | scalar s => s.isEmpty
  | list items => items.isEmpty
  | map entries => entries.isEmpty
  | foreign f => f.isEmpty
  | option _ => false

/-- Whether values of the type can be keys of a map: all but lists, maps and sets. -/
def isKeyLike : Raw → Bool
  | list _ => false
  | map _ => false
  | foreign f => f.isKeyLike
  | _ => true

end Raw
end LayeredConfig
