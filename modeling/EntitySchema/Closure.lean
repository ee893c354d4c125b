/-! Following links between names. `reach` collects the names that can be reached
from others, each once, in the order in which they are found. Links may run in
circles, and lead to names that are no nodes; those are not followed. -/

namespace EntitySchema.Closure

/-- Where the names that a node leads to join those still to be followed. -/
inductive Strategy where
  | depthFirst
  | breadthFirst
  deriving DecidableEq, Repr

def Strategy.enqueue : Strategy → List String → List String → List String
  | depthFirst, found, waiting => found ++ waiting
  | breadthFirst, found, waiting => waiting ++ found

theorem Strategy.length_enqueue (s : Strategy) (found waiting : List String) :
    (s.enqueue found waiting).length = found.length + waiting.length := by
  cases s <;> simp [enqueue, Nat.add_comm]

/-- How many links lead on from the nodes that are not seen yet. -/
def unseenLinks (links : String → List String) (seen : List String) : List String → Nat
  | [] => 0
  | node :: nodes =>
    (if seen.contains node then 0 else (links node).length) + unseenLinks links seen nodes

theorem unseenLinks_cons_le (links : String → List String) (name : String)
    (seen nodes : List String) :
    unseenLinks links (name :: seen) nodes ≤ unseenLinks links seen nodes := by
  induction nodes with
  | nil => exact Nat.le_refl _
  | cons node nodes ih =>
    simp only [unseenLinks, List.contains_cons]
    refine Nat.add_le_add ?_ ih
    cases seen.contains node
    · split
      · exact Nat.zero_le _
      · exact Nat.le_refl _
    · simp

theorem unseenLinks_cons_mem (links : String → List String) {name : String}
    {seen nodes : List String} (hseen : seen.contains name = false)
    (hnode : nodes.contains name = true) :
    unseenLinks links (name :: seen) nodes + (links name).length ≤
      unseenLinks links seen nodes := by
  induction nodes with
  | nil => simp at hnode
  | cons node nodes ih =>
    have hle := unseenLinks_cons_le links name seen nodes
    simp only [unseenLinks, List.contains_cons]
    by_cases hn : node = name
    · subst hn
      rw [hseen]
      simp only [BEq.rfl, Bool.true_or, if_true, Bool.false_eq_true, if_false]
      omega
    · have hin : nodes.contains name = true := by
        simpa [List.contains_cons, Ne.symm hn] using hnode
      have hrest := ih hin
      have hne : (node == name) = false := by simpa using hn
      rw [hne, Bool.false_or]
      omega

/-- The nodes that the waiting names lead to, the waiting ones included. A name
that was seen is not followed again. -/
def reach (nodes : List String) (links : String → List String) (strategy : Strategy)
    (seen : List String) : List String → List String
  | [] => []
  | name :: waiting =>
    if _hseen : seen.contains name then reach nodes links strategy seen waiting
    else if _hnode : nodes.contains name then
      name :: reach nodes links strategy (name :: seen) (strategy.enqueue (links name) waiting)
    else reach nodes links strategy (name :: seen) waiting
termination_by waiting => unseenLinks links seen nodes + waiting.length
decreasing_by
  · simp
  · have := unseenLinks_cons_mem links (by simpa using _hseen) _hnode
    simp only [Strategy.length_enqueue, List.length_cons]
    omega
  · have := unseenLinks_cons_le links name seen nodes
    simp
    omega

end EntitySchema.Closure
