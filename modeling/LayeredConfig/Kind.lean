import LayeredConfig.Path
import LayeredConfig.Text.Quoted
/-!
# Option kinds

The kind of value an option declares: a scalar kind, a list of one, or a map of strings. An
`OptionKey` is a path together with its declared kind; two keys address the same option when their
paths agree, whatever kinds they declare.
-/
namespace LayeredConfig

inductive ScalarKind where
  | boolean | int | long | double | string | duration | bytes
  deriving DecidableEq, Repr

namespace ScalarKind

def all : List ScalarKind := [boolean, int, long, double, string, duration, bytes]

def name : ScalarKind → String
  | boolean => "boolean"
  | int => "int"
  | long => "long"
  | double => "double"
  | string => "string"
  | duration => "duration"
  | bytes => "bytes"

end ScalarKind

/-- The kinds of values an option can declare. -/
inductive Kind where
  | scalar (k : ScalarKind)
  | list (k : ScalarKind)
  | stringMap
  deriving DecidableEq, Repr

namespace Kind

/-- Every kind: the scalar ones, the lists of each, and the map of strings. -/
def all : List Kind :=
  ScalarKind.all.map scalar ++ ScalarKind.all.map list ++ [stringMap]

/-- The name of a kind; that of a list is made from its elements' kind. -/
def name : Kind → String
  | scalar k => k.name
  | list k => k.name ++ "_list"
  | stringMap => "string_map"

def ofName? (name : String) : Option Kind := all.find? fun k => k.name = name

def isList : Kind → Bool
  | list _ => true
  | _ => false

/-- The scalar kind of list elements, of the values of a map, or of the value itself. -/
def element : Kind → ScalarKind
  | scalar k => k
  | list k => k
  | stringMap => .string

def label (k : Kind) : String := "OptionKind." ++ String.ofList (k.name.toList.map Char.toUpper)

end Kind

/-- An option: its path and the kind of value it declares. -/
structure OptionKey where
  path : Path
  kind : Kind

namespace OptionKey

/-- Two keys name the same option when their paths agree. -/
def same (a b : OptionKey) : Bool := decide (a.path = b.path)

def shown (o : OptionKey) : String :=
  "Option(path=" ++ Text.quoted o.path.text ++ ", kind=<" ++ o.kind.label ++ ": " ++
    Text.quoted o.kind.name ++ ">)"

end OptionKey
end LayeredConfig
