import LayeredConfig.Double.Shortest
import LayeredConfig.Duration
import LayeredConfig.Text.Quoted
/-!
# Scalars

The single values that options hold. Whole numbers are unbounded here; what is stored is limited to
64 bits when it is frozen, and what is read is limited by the kind it is read as.
-/
namespace LayeredConfig

/-- A single value. -/
inductive Scalar where
  | bool (b : Bool)
  | int (n : Int)
  | double (x : Double)
  | text (s : String)
  | duration (d : Duration)
  deriving DecidableEq

namespace Scalar

def typeName : Scalar → String
  | bool _ => "bool"
  | int _ => "int"
  | double _ => "float"
  | text _ => "str"
  | duration _ => "timedelta"

def shownBool (b : Bool) : String := if b then "True" else "False"

def shown : Scalar → String
  | bool b => shownBool b
  | int n => Text.decimal n
  | double x => x.text
  | text s => Text.quoted s
  | duration d => d.shown

def isEmpty : Scalar → Bool
  | bool b => !b
  | int n => n == 0
  | double x => x.isZero
  | text s => s == ""
  | duration d => d.toMicros == 0

/-- Equality of two values of the same type; numbers of different types are never equal here. -/
def same : Scalar → Scalar → Bool
  | double x, double y => x.same y
  | a, b => decide (a = b)

/-- Whether the scalar is a whole number of at most 64 bits, or no whole number at all. -/
def fits : Scalar → Bool
  | int n => decide (-9223372036854775808 ≤ n) && decide (n ≤ 9223372036854775807)
  | _ => true

end Scalar
end LayeredConfig
