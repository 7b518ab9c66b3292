/-!
# Blank characters

What counts as blank around a name, and texts without the blanks at their ends. The set is the
white-space property of Unicode together with the four separator controls U+001C to U+001F; around
numbers the four controls do not count.
-/
namespace LayeredConfig.Text

/-- The blank characters as closed ranges of code points, ascending and apart. -/
def blankRanges : List (Nat × Nat) :=
  [(0x09, 0x0D), (0x1C, 0x20), (0x85, 0x85), (0xA0, 0xA0), (0x1680, 0x1680), (0x2000, 0x200A),
   (0x2028, 0x2029), (0x202F, 0x202F), (0x205F, 0x205F), (0x3000, 0x3000)]

def isBlank (c : Char) : Bool :=
  blankRanges.any fun r => decide (r.1 ≤ c.toNat) && decide (c.toNat ≤ r.2)

/-- Whether a character is white space: blank, and none of the separator controls. -/
def isWhiteSpace (c : Char) : Bool := isBlank c && !(decide (0x1C ≤ c.toNat) && decide (c.toNat ≤ 0x1F))

/-- A text without the characters of a kind at either end. -/
def stripOf (drop : Char → Bool) (s : String) : String :=
  String.ofList ((s.toList.dropWhile drop).reverse.dropWhile drop).reverse

def strip (s : String) : String := stripOf isBlank s

end LayeredConfig.Text
