import LayeredConfig.Text.Blank
import LayeredConfig.Text.Pieces
/-!
# Option paths

An option is addressed by a dotted path. A path is a non-empty list of segments, each of them non-empty,
without dots and without blanks at its ends; `Path.text` joins them with dots and `Path.ofText?` reads
them back, refusing every other text.
-/
namespace LayeredConfig

/-- The pieces of a text between its dots. -/
def dottedPieces (text : String) : List String := (Text.splitAt '.' text.toList).map String.ofList

def joinDots (pieces : List String) : String := ".".intercalate pieces

/-- Whether a text can be one segment of a path. -/
def IsSegment (s : String) : Prop := s ≠ "" ∧ Text.strip s = s ∧ '.' ∉ s.toList

instance (s : String) : Decidable (IsSegment s) := inferInstanceAs (Decidable (_ ∧ _ ∧ _))

/-- A checked option path. -/
structure Path where
  segments : List String
  nonempty : segments ≠ []
  checked : ∀ s ∈ segments, IsSegment s
  deriving DecidableEq

namespace Path

/-- The path with the given segments, if they make one. -/
def ofSegments? (segments : List String) : Option Path :=
  if h : segments ≠ [] ∧ ∀ s ∈ segments, IsSegment s then some ⟨segments, h.1, h.2⟩ else none

def ofText? (text : String) : Option Path := ofSegments? (dottedPieces text)

/-- The dotted form. -/
def text (p : Path) : String := joinDots p.segments

/-- Whether `q` is `p` itself or lies beneath it. -/
def covers (p q : Path) : Bool := p.segments.isPrefixOf q.segments

end Path
end LayeredConfig
