/-!
# Pieces of a text

A text cut at every occurrence of a mark. The pieces are what stands before, between and behind the marks,
so there is one more of them than there are marks, and joining them with the mark gives the text back.
-/
namespace LayeredConfig.Text

/-- The pieces of a text between its marks. -/
def splitAt (mark : Char) : List Char → List (List Char)
  | [] => [[]]
  | c :: cs =>
    if c = mark then [] :: splitAt mark cs
    else match splitAt mark cs with
      | [] => [[c]]
      | s :: ss => (c :: s) :: ss

theorem splitAt_ne_nil (mark : Char) (cs : List Char) : splitAt mark cs ≠ [] := by
  cases cs with
  | nil => simp [splitAt]
  | cons c cs =>
    unfold splitAt
    split
    · simp
    · split <;> simp

theorem intercalate_splitAt (mark : Char) (cs : List Char) :
    [mark].intercalate (splitAt mark cs) = cs := by
  induction cs with
  | nil => rfl
  | cons c cs ih =>
    unfold splitAt
    cases h : splitAt mark cs with
    | nil => exact absurd h (splitAt_ne_nil mark cs)
    | cons s ss =>
      rw [h] at ih
      split
      · rename_i hc
        simp [List.intercalate_cons_cons, hc, ih]
      · cases ss with
        | nil => simpa using ih
        | cons t ts => simpa [List.intercalate_cons_cons] using ih

end LayeredConfig.Text
