/-!
# Chains of errors

Errors form a graph: each may have been raised from a cause and while handling a context, several may
share one, and an error may even lead back to itself. `walk` lists every error that can be reached from
one, each once; behind an error come first those reached through its context. It is a depth-first walk
over a stack of errors still to be listed, and it ends because every step either lists a new error or
takes one off the stack: an error that is listed puts at most two on it.
-/
namespace LayeredConfig

/-- An error in a graph, its hint, and the errors it refers to by their places in the graph. -/
structure ErrorNode where
  hint : Option String
  cause : Option Nat
  context : Option Nat

/-- The errors of a graph by their places. -/
abbrev ErrorGraph := List ErrorNode

namespace ErrorGraph

/-- The errors that an error refers to, its context first. -/
def next (g : ErrorGraph) (i : Nat) : List Nat :=
  match g[i]? with
  | none => []
  | some n => n.context.toList ++ n.cause.toList

/-- The places of the graph that have not been listed. -/
def unseen (g : ErrorGraph) (seen : List Nat) : List Nat :=
  (List.range g.length).filter fun i => !seen.contains i

theorem unseen_cons_lt {g : ErrorGraph} {seen : List Nat} {i : Nat} (hi : i < g.length)
    (hs : seen.contains i = false) : (g.unseen (i :: seen)).length < (g.unseen seen).length := by
  have hn : i ∉ seen := by simpa using hs
  have hm : i ∈ g.unseen seen := by simp [unseen, hi, hn]
  have he : g.unseen (i :: seen) = (g.unseen seen).filter fun j => j != i := by
    simp only [unseen, List.filter_filter, List.contains_cons]
    congr 1
    funext j
    simp [bne, Bool.not_or]
  rw [he]
  exact List.length_filter_lt_length_iff_exists.2 ⟨i, hm, by simp⟩

/-- Lists the errors on a stack and all that can be reached from them, without those already seen. -/
def walkFrom (g : ErrorGraph) (seen : List Nat) (stack : List Nat) : List Nat :=
  match stack with
  | [] => []
  | i :: rest =>
    if _hs : seen.contains i then walkFrom g seen rest
    else if _hi : i < g.length then i :: walkFrom g (i :: seen) (g.next i ++ rest)
    else walkFrom g seen rest
termination_by ((g.unseen seen).length, stack.length)
decreasing_by
  · exact Prod.Lex.right _ (by simp)
  · exact Prod.Lex.left _ _ (unseen_cons_lt _hi (by simpa using _hs))
  · exact Prod.Lex.right _ (by simp)

/-- Every error that can be reached from one, itself first, each once. -/
def walk (g : ErrorGraph) (root : Nat) : List Nat := g.walkFrom [] [root]

/-- The first hint along a walk that is not empty. -/
def firstHint (g : ErrorGraph) (root : Nat) : Option String :=
  (g.walk root).findSome? fun i => (g[i]?.bind (·.hint)).filter (· ≠ "")

end ErrorGraph
end LayeredConfig
