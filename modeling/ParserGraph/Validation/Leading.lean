import ParserGraph.Graph.Unvisited
import ParserGraph.Validation.Nullable

/-!
# Leading calls — which parsers a parser may call before taking anything

A sequence calls its operands up to the first that is not nullable, any other
parser all its operands. A cycle of such calls is left recursion. It is
looked for depth first, the last call of a node first, and told by the node
that the search runs back into.
-/

namespace ParserGraph

/-- The operands up to and including the first that is not nullable. -/
def leadingParts (nullable : ParserId → Bool) : List ParserId → List ParserId
  | [] => []
  | part :: parts => if nullable part then part :: leadingParts nullable parts else [part]

/-- The operands a kind may call before taking anything. -/
def Kind.leading (nullable : ParserId → Bool) : Kind → List ParserId
  | .sequence parts => leadingParts nullable parts
  | kind => kind.operands

/-- A node on the way of the search, with the calls not followed yet, the next in front. -/
structure Frame where
  /-- The node. -/
  id : ParserId
  /-- The calls still to follow. -/
  calls : List ParserId

namespace Graph

/-- The operands a node may call before taking anything. -/
def leadingCalls (g : Graph) (nullable : List ParserId) (id : ParserId) : List ParserId :=
  ((g.kind? id).map (Kind.leading nullable.contains)).getD []

/-- A node as the search comes to it. -/
def frame (g : Graph) (nullable : List ParserId) (id : ParserId) : Frame :=
  ⟨id, (g.leadingCalls nullable id).reverse⟩

/-- How many calls and ends of nodes a way still has before it. -/
def remaining : List Frame → Nat
  | [] => 0
  | f :: way => f.calls.length + 1 + remaining way

/-- Goes on from a way, the node come to last in front, with the nodes of `ids` that were met in
`met` and are either on the way or done with. Yields the node that closes a cycle, or all nodes
met. -/
def searchCycle (g : Graph) (ids nullable met : List ParserId) (way : List Frame) :
    Except ParserId (List ParserId) :=
  match way with
  | [] => .ok met
  | ⟨_, []⟩ :: way => searchCycle g ids nullable met way
  | ⟨id, next :: calls⟩ :: way =>
    if (⟨id, next :: calls⟩ :: way).any (·.id = next) then .error next
    else if _h : ids.contains next && !met.contains next then
      searchCycle g ids nullable (next :: met) (g.frame nullable next :: ⟨id, calls⟩ :: way)
    else searchCycle g ids nullable met (⟨id, calls⟩ :: way)
termination_by (unvisited ids met, remaining way)
decreasing_by
  · exact Prod.Lex.right _ (by simp [remaining])
  · simp only [Bool.and_eq_true, Bool.not_eq_true', List.contains_eq_mem, decide_eq_true_eq] at _h
    exact Prod.Lex.left _ _ (unvisited_cons_lt _h.1 (by simpa using _h.2))
  · exact Prod.Lex.right _ (by simp [remaining])

/-- Searches from each of `roots` in turn that was not met before. -/
def searchCycles (g : Graph) (ids nullable : List ParserId) :
    List ParserId → List ParserId → Except ParserId (List ParserId)
  | met, [] => .ok met
  | met, root :: roots =>
    if met.contains root then searchCycles g ids nullable met roots
    else
      match g.searchCycle ids nullable (root :: met) [g.frame nullable root] with
      | .error id => .error id
      | .ok met => searchCycles g ids nullable met roots

end Graph

end ParserGraph
