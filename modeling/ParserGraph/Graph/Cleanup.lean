import ParserGraph.Graph.Basic

/-!
# Cleanup — releasing what given roots lead to

A node is released when it is met first, before its operands are visited, so
sharing and cycles do no harm: met again, the id is stale. The last root goes
first, and so does the last operand of a node.
-/

namespace ParserGraph.Graph

/-- How many slots hold a node. -/
def occupied (g : Graph) : Nat := g.slots.countP Slot.isLive

/-- Releasing a node leaves one slot less that holds one. -/
theorem occupied_release? {g g' : Graph} {id : ParserId} {node : Node}
    (h : g.release? id = some (node, g')) : g'.occupied < g.occupied := by
  simp only [release?, Option.map_eq_some_iff, Prod.mk.injEq] at h
  obtain ⟨node', hnode, -, rfl⟩ := h
  unfold node? at hnode
  cases hs : g.slots[id.index]? with
  | none => simp [hs] at hnode
  | some slot =>
    obtain ⟨hlt, hslot⟩ := Array.getElem?_eq_some_iff.1 hs
    have hlive : slot.isLive = true := by
      cases slot with
      | free _ => simp [hs, Slot.node?] at hnode
      | live _ _ => rfl
    simp only [occupied, Array.setIfInBounds, hlt, ↓reduceDIte]
    rw [Array.countP_set, hslot]
    have hpos : 0 < g.slots.countP Slot.isLive :=
      Array.countP_pos_iff.2 ⟨slot, hslot ▸ Array.getElem_mem hlt, hlive⟩
    have hfree : (Slot.free (id.generation + 1)).isLive = false := rfl
    simp only [hlive, hfree, if_true, Bool.false_eq_true, if_false]
    omega

/-- Releases with `pending` still to visit, the next in front, and `released` so far, the last in
front. -/
def cleanupFrom (g : Graph) (pending : List ParserId) (released : List (ParserId × Node)) :
    List (ParserId × Node) × Graph :=
  match pending with
  | [] => (released, g)
  | id :: pending =>
    match _h : g.release? id with
    | none => cleanupFrom g pending released
    | some (node, g') =>
      cleanupFrom g' (node.kind.operands.reverse ++ pending) ((id, node) :: released)
termination_by (g.occupied, pending.length)
decreasing_by
  · exact Prod.Lex.right _ (by simp)
  · exact Prod.Lex.left _ _ (occupied_release? _h)

/-- Releases every node that can be reached from the roots; yields them in the order of release. -/
def cleanup (g : Graph) (roots : List ParserId) : List (ParserId × Node) × Graph :=
  let (released, g) := g.cleanupFrom roots.reverse []
  (released.reverse, g)

/-- Releases exactly the given nodes, whatever they refer to. -/
def discard (g : Graph) (ids : List ParserId) : Graph :=
  ids.foldl (fun g id => ((g.release? id).map Prod.snd).getD g) g

end ParserGraph.Graph
