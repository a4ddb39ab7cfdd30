import ParserGraph.Graph.Basic

/-!
# Walks — counting what is left to visit

A walk over a graph keeps a list of what it has visited. What is left of a
fixed list of ids only ever shrinks, and shrinks by each id of the list that
is visited for the first time (`unvisited_cons_lt`); this is why walks end.
-/

namespace ParserGraph

/-- How many of `ids` have not been visited. -/
def unvisited (ids visited : List ParserId) : Nat := ids.countP (!visited.contains ·)

/-- Visiting more leaves no more to visit. -/
theorem unvisited_le {ids visited visited' : List ParserId} (h : ∀ x ∈ visited, x ∈ visited') :
    unvisited ids visited' ≤ unvisited ids visited :=
  List.countP_mono_left fun x _ hx => by
    simp only [Bool.not_eq_true', List.contains_eq_mem, decide_eq_false_iff_not] at hx ⊢
    exact fun hmem => hx (h x hmem)

/-- Visiting an id for the first time leaves less to visit. -/
theorem unvisited_cons_lt {ids visited : List ParserId} {id : ParserId} (hid : id ∈ ids)
    (hnew : visited.contains id = false) :
    unvisited ids (id :: visited) < unvisited ids visited := by
  induction ids with
  | nil => simp at hid
  | cons y ys ih =>
    have hle : unvisited ys (id :: visited) ≤ unvisited ys visited :=
      unvisited_le fun _ hx => List.mem_cons_of_mem _ hx
    rw [unvisited, unvisited, List.countP_cons, List.countP_cons]
    by_cases hy : y = id
    · have hseen : (!(id :: visited).contains y) = false := by simp [hy]
      have hunseen : (!visited.contains y) = true := by rw [hy, hnew]; rfl
      rw [hseen, hunseen]
      exact Nat.lt_succ_of_le hle
    · have hsame : (id :: visited).contains y = visited.contains y := by
        simp [hy]
      rw [hsame]
      exact Nat.add_lt_add_right (ih ((List.mem_cons.1 hid).resolve_left fun h => hy h.symm)) _

namespace Graph

/-- A node that lives is among the living ones. -/
theorem mem_liveIds {g : Graph} {id : ParserId} {node : Node} (h : g.node? id = some node) :
    id ∈ g.liveIds := by
  obtain ⟨index, generation⟩ := id
  unfold node? at h
  cases hs : g.slots[index]? with
  | none => simp [hs] at h
  | some slot =>
    obtain ⟨hlt, -⟩ := Array.getElem?_eq_some_iff.1 hs
    refine List.mem_filterMap.2 ⟨index, List.mem_range.2 hlt, ?_⟩
    cases slot with
    | free _ => simp [hs, Slot.node?] at h
    | live generation' node' =>
      simp only [hs, Option.bind_some, Slot.node?] at h
      split at h
      · next heq => simp [idAt?, hs, heq]
      · simp at h

end Graph

end ParserGraph
