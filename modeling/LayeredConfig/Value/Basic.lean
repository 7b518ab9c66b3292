import LayeredConfig.Value.Raw
/-!
# Stored values

The frozen form of a value: a tombstone, a scalar, a list, or a map whose keys are texts in ascending
order. `Value.thaw` gives a stored value back as a raw one, as a caller would hand it in.
-/
namespace LayeredConfig

/-- A stored value. The tombstone `unset` hides what lower layers hold at and beneath its place. -/
inductive Value where
  | unset
  | scalar (s : Scalar)
  | list (items : List Value)
  | map (entries : List (String × Value))

/-- The entries of a stored map, in ascending order of their keys. -/
abbrev Tree := List (String × Value)

namespace Value

def typeName : Value → String
  | unset => "_Unset"
  | scalar s => s.typeName
  | list _ => "tuple"
  | map _ => "mappingproxy"

mutual

def shown : Value → String
  | unset => "UNSET"
  | scalar s => s.shown
  | list [v] => "(" ++ v.shown ++ ",)"
  | list items => "(" ++ ", ".intercalate (shownItems items) ++ ")"
  | map entries => "mappingproxy(\x7b" ++ ", ".intercalate (shownEntries entries) ++ "\x7d)"

def shownItems : List Value → List String
  | [] => []
  | v :: rest => v.shown :: shownItems rest

def shownEntries : List (String × Value) → List String
  | [] => []
  | (k, v) :: rest => (Text.quoted k ++ ": " ++ v.shown) :: shownEntries rest

end

mutual

/-- The raw form of a stored value. -/
def thaw : Value → Raw
  | unset => .unset
  | scalar s => .scalar s
  | list items => .list (thawItems items)
  | map entries => .map (thawEntries entries)

def thawItems : List Value → List Raw
  | [] => []
  | v :: rest => v.thaw :: thawItems rest

def thawEntries : List (String × Value) → List (Key × Raw)
  | [] => []
  | (k, v) :: rest => (.text k, v.thaw) :: thawEntries rest

end

mutual

/-- Equality of stored values: same type at every place, numbers compared as numbers. -/
def same : Value → Value → Bool
  | unset, unset => true
  | scalar a, scalar b => a.same b
  | list a, list b => sameItems a b
  | map a, map b => sameEntries a b
  | _, _ => false

def sameItems : List Value → List Value → Bool
  | [], [] => true
  | a :: as, b :: bs => a.same b && sameItems as bs
  | _, _ => false

def sameEntries : List (String × Value) → List (String × Value) → Bool
  | [], [] => true
  | (k, a) :: as, (l, b) :: bs => decide (k = l) && a.same b && sameEntries as bs
  | _, _ => false

end

end Value
end LayeredConfig
