import LayeredConfig.Value.Scalar
/-!
# Foreign values

Values of types that options cannot hold. They can be handed in all the same, and are refused by the name
of their type wherever they would be stored. Bytes and sets consist of elements; of any other foreign
value only its type and its shown form are known.
-/
namespace LayeredConfig

/-- A value of a type that options cannot hold. -/
inductive Foreign where
  | bytes (content : ByteArray)
  | set (members : List Scalar)
  | other (typeName shown : String)

namespace Foreign

def typeName : Foreign → String
  | bytes _ => "bytes"
  | set _ => "set"
  | other t _ => t

def shown : Foreign → String
  | bytes content => Text.quotedBytes content.toList
  | set [] => "set()"
  | set members => "\x7b" ++ ", ".intercalate (members.map Scalar.shown) ++ "\x7d"
  | other _ s => s

/-- The elements of a foreign value, if it consists of elements. -/
def elements? : Foreign → Option (List Scalar)
  | bytes content => some (content.toList.map fun b => .int b.toNat)
  | set members => some members
  | other _ _ => none

def text? : Foreign → Option String
  | bytes content => String.fromUTF8? content
  | _ => none

/-- Whether a foreign value is the empty value of its type. -/
def isEmpty (f : Foreign) : Bool := f.elements?.any List.isEmpty

/-- Whether foreign values of the type can be keys of a map. -/
def isKeyLike : Foreign → Bool
  | set _ => false
  | _ => true

end Foreign
end LayeredConfig
