/-!
# Depth-first search

Searches over a table of successors keep the nodes that they have not entered and a stack of the
nodes they are in, each with the successors still to be tried. `finishOrder` lists the nodes in the
order in which they are left; `backEdges` lists the edges that lead to a node on the stack.
-/
namespace WorkflowEngine.Search

/-- How much is still to be done for the nodes on a stack. -/
@[simp] def weight {α β : Type} : List (α × List β) → Nat
  | [] => 0
  | frame :: stack => frame.2.length + 1 + weight stack

variable {α : Type} [DecidableEq α]

theorem length_erase_lt {a : α} {as : List α} (h : a ∈ as) : (as.erase a).length < as.length := by
  have := List.length_pos_of_mem h
  rw [List.length_erase_of_mem h]
  omega

/-- The nodes that a search enters, in the order in which it leaves them. The search has not
entered `fresh` and stands in the nodes of the stack. -/
def finishOrder (successors : α → List α) (fresh : List α) (stack : List (α × List α)) : List α :=
  match stack with
  | [] => []
  | (a, []) :: stack => a :: finishOrder successors fresh stack
  | (a, b :: bs) :: stack =>
    if b ∈ fresh then
      finishOrder successors (fresh.erase b) ((b, successors b) :: (a, bs) :: stack)
    else finishOrder successors fresh ((a, bs) :: stack)
termination_by (fresh.length, weight stack)
decreasing_by
  · exact Prod.Lex.right _ (by simp)
  · exact Prod.Lex.left _ _ (length_erase_lt (by assumption))
  · exact Prod.Lex.right _ (by simp)

/-- The edges that lead from a node back to one that the search still stands in. When the stack is
empty the search starts again from the first node that it has not entered. -/
def backEdges {ε : Type} (target : ε → α) (outgoing : α → List ε) (fresh : List α)
    (stack : List (α × List ε)) : List ε :=
  match stack with
  | [] =>
    match fresh with
    | [] => []
    | root :: fresh => backEdges target outgoing fresh [(root, outgoing root)]
  | (_, []) :: stack => backEdges target outgoing fresh stack
  | (a, e :: es) :: stack =>
    if target e = a ∨ target e ∈ stack.map (·.1) then
      e :: backEdges target outgoing fresh ((a, es) :: stack)
    else if target e ∈ fresh then
      backEdges target outgoing (fresh.erase (target e))
        ((target e, outgoing (target e)) :: (a, es) :: stack)
    else backEdges target outgoing fresh ((a, es) :: stack)
termination_by (fresh.length, weight stack)
decreasing_by
  · exact Prod.Lex.left _ _ (by simp)
  · exact Prod.Lex.right _ (by simp)
  · exact Prod.Lex.right _ (by simp)
  · exact Prod.Lex.left _ _ (length_erase_lt (by assumption))
  · exact Prod.Lex.right _ (by simp)

end WorkflowEngine.Search
