/-!
# Stable sorting

Sorting by insertion: the result is ascending for a given order, and entries that the order does not
tell apart keep their places relative to each other.
-/
namespace LayeredConfig

variable {α : Type}

/-- Puts `x` before the first entry that does not come strictly before it. -/
def insertOrdered (before : α → α → Bool) (x : α) : List α → List α
  | [] => [x]
  | y :: ys => if before y x then y :: insertOrdered before x ys else x :: y :: ys

/-- The list in ascending order, equals in their given order. -/
def sortOrdered (before : α → α → Bool) : List α → List α
  | [] => []
  | x :: xs => insertOrdered before x (sortOrdered before xs)

/-- Texts in ascending order of code points. -/
def sortTexts (texts : List String) : List String := sortOrdered (fun s t => decide (s < t)) texts

/-- Pairs in ascending order of their first components. -/
def sortByName (pairs : List (String × α)) : List (String × α) :=
  sortOrdered (fun p q => decide (p.1 < q.1)) pairs

end LayeredConfig
