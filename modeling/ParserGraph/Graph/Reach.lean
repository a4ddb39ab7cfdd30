import ParserGraph.Graph.Unvisited

/-!
# Reach — the nodes that lead on from given roots

The walk goes depth first, a node before its operands and those in order. Ids
that name no node are passed over, and a node is listed where it is met
first.
-/

namespace ParserGraph.Graph

/-- The walk with `pending` still to visit, the next in front, and `visited` met so far, the last
in front. -/
def reachFrom (g : Graph) (pending visited : List ParserId) : List ParserId :=
  match pending with
  | [] => visited
  | id :: pending =>
    match _h : g.node? id with
    | none => reachFrom g pending visited
    | some node =>
      if _hv : visited.contains id then reachFrom g pending visited
      else reachFrom g (node.kind.operands ++ pending) (id :: visited)
termination_by (unvisited g.liveIds visited, pending.length)
decreasing_by
  · exact Prod.Lex.right _ (by simp)
  · exact Prod.Lex.right _ (by simp)
  · exact Prod.Lex.left _ _ (unvisited_cons_lt (mem_liveIds _h) (by simpa using _hv))

/-- Every node that can be reached from the roots, each once, in the order of the walk. -/
def reachable (g : Graph) (roots : List ParserId) : List ParserId :=
  (g.reachFrom roots []).reverse

end ParserGraph.Graph
