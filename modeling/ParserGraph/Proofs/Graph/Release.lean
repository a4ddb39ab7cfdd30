import ParserGraph.Graph.Cleanup
import ParserGraph.Proofs.Graph.Reach

/-!
# Release — what cleaning up takes out of a graph

Cleanup takes nodes out while it walks, so the graph it walks on shrinks and
its order is not that of the walk that lists what roots lead to. Still both
meet the same nodes: a node that was met is gone, but its operands are
pending by then (`cleanupFrom_released`). So what cleanup takes out is
exactly what the roots lead to, each node once and as it was, and nothing
else changes (`cleanup_releases_reachable`).
-/

namespace ParserGraph.Graph

variable {g g' : Graph}

/-- A path in a graph is one in any graph that holds the same nodes and more. -/
theorem Leads.of_node?_eq {p q : ParserId}
    (hsub : ∀ id node, g'.node? id = some node → g.node? id = some node) (h : g'.Leads p q) :
    g.Leads p q := by
  have hlive : ∀ id, g'.contains id → g.contains id := by
    intro id hid
    obtain ⟨node, hnode⟩ := contains_iff.1 hid
    exact contains_iff.2 ⟨node, hsub id node hnode⟩
  induction h with
  | refl hp => exact .refl (hlive _ hp)
  | @step q o hq ho hlive' ih =>
    obtain ⟨node, hnode⟩ := contains_iff.1 hq.contains_right
    rw [operands_of_node? hnode] at ho
    exact ih.step (operands_of_node? (hsub q node hnode) ▸ ho) (hlive _ hlive')

/-- What was taken out of a graph, while some ids were pending, and the graph that is left. -/
structure Released (g : Graph) (pending : List ParserId) (out : List (ParserId × Node))
    (g' : Graph) : Prop where
  /-- Nothing is taken out twice. -/
  nodup : (out.map Prod.fst).Nodup
  /-- What is taken out lived, and is what its id named. -/
  node?_eq : ∀ r ∈ out, g.node? r.1 = some r.2
  /-- Something pending led to it. -/
  leads : ∀ r ∈ out, ∃ p ∈ pending, g.Leads p r.1
  /-- Whatever is pending and lives is taken out. -/
  pending_out : ∀ p ∈ pending, g.contains p → p ∈ out.map Prod.fst
  /-- So is each operand of what is taken out, if it lives. -/
  operands_out : ∀ r ∈ out, ∀ o ∈ r.2.kind.operands, g.contains o → o ∈ out.map Prod.fst
  /-- What is taken out names nothing after, and every other id names what it named. -/
  node?_after : ∀ id, g'.node? id = if id ∈ out.map Prod.fst then none else g.node? id
  /-- The limit on nested parsers is the same. -/
  maxDepth_eq : g'.maxDepth = g.maxDepth

namespace Released

variable {id : ParserId} {node : Node} {pending : List ParserId} {out : List (ParserId × Node)}

theorem nil (g : Graph) : g.Released [] [] g where
  nodup := List.nodup_nil
  node?_eq := fun _ hr => absurd hr List.not_mem_nil
  leads := fun _ hr => absurd hr List.not_mem_nil
  pending_out := fun _ hp => absurd hp List.not_mem_nil
  operands_out := fun _ hr => absurd hr List.not_mem_nil
  node?_after := fun _ => rfl
  maxDepth_eq := rfl

/-- A pending id that names nothing is passed over. -/
theorem skip (h : g.Released pending out g') (hid : g.node? id = none) :
    g.Released (id :: pending) out g' := by
  refine { h with leads := fun r hr => ?_, pending_out := fun p hp hlive => ?_ }
  · obtain ⟨p, hp, hl⟩ := h.leads r hr
    exact ⟨p, List.mem_cons_of_mem _ hp, hl⟩
  · rcases List.mem_cons.1 hp with rfl | hp
    · rw [contains, hid] at hlive
      exact absurd hlive Bool.false_ne_true
    · exact h.pending_out p hp hlive

/-- **A pending node is taken out first, with its operands pending from then on.** -/
theorem take {g₁ : Graph} (hid : g.release? id = some (node, g₁))
    (h : g₁.Released (node.kind.operands.reverse ++ pending) out g') :
    g.Released (id :: pending) (out ++ [(id, node)]) g' := by
  have hnode : g.node? id = some node := by
    have hfst := g.release?_fst id
    rw [hid] at hfst
    exact hfst.symm
  have hstep : ∀ id', g₁.node? id' = if id' = id then none else g.node? id' := node?_release? hid
  have hsub : ∀ id' node', g₁.node? id' = some node' → g.node? id' = some node' := by
    intro id' node' h'
    rw [hstep] at h'
    split at h'
    · cases h'
    · exact h'
  have hlive : g.contains id := contains_iff.2 ⟨node, hnode⟩
  -- what lives and is not this node lives after it was taken out
  have hkept : ∀ o, g.contains o → o ≠ id → g₁.contains o := by
    intro o ho hne
    rw [contains, hstep, if_neg hne]
    exact ho
  have hout : ∀ o, o ∈ (out ++ [(id, node)]).map Prod.fst ↔ o ∈ out.map Prod.fst ∨ o = id := by
    intro o
    rw [List.map_append, List.mem_append, List.map_singleton, List.mem_singleton]
  have hnew : id ∉ out.map Prod.fst := by
    intro hmem
    obtain ⟨r, hr, hfst⟩ := List.mem_map.1 hmem
    have hthere := h.node?_eq r hr
    rw [hfst, hstep, if_pos rfl] at hthere
    cases hthere
  refine
    { nodup := ?_, node?_eq := fun r hr => ?_, leads := fun r hr => ?_,
      pending_out := fun p hp hlive' => ?_, operands_out := fun r hr o ho hlive' => ?_,
      node?_after := fun id' => ?_, maxDepth_eq := ?_ }
  · rw [List.map_append, List.map_singleton]
    refine List.nodup_append.2 ⟨h.nodup, by simp, fun o ho o' ho' he => hnew ?_⟩
    have hid' : o = id := he.trans (List.mem_singleton.1 ho')
    exact hid' ▸ ho
  · rcases List.mem_append.1 hr with hr | hr
    · exact hsub _ _ (h.node?_eq r hr)
    · cases List.mem_singleton.1 hr
      exact hnode
  · rcases List.mem_append.1 hr with hr | hr
    · obtain ⟨p, hp, hl⟩ := h.leads r hr
      have hl := hl.of_node?_eq hsub
      rcases List.mem_append.1 hp with ho | hp
      · rw [List.mem_reverse, ← operands_of_node? hnode] at ho
        exact ⟨id, List.mem_cons_self, .head hlive ho hl⟩
      · exact ⟨p, List.mem_cons_of_mem _ hp, hl⟩
    · cases List.mem_singleton.1 hr
      exact ⟨id, List.mem_cons_self, .refl hlive⟩
  · rw [hout]
    by_cases hp' : p = id
    · exact Or.inr hp'
    · have hmem := (List.mem_cons.1 hp).resolve_left hp'
      exact Or.inl (h.pending_out p (List.mem_append_right _ hmem) (hkept p hlive' hp'))
  · rw [hout]
    by_cases ho' : o = id
    · exact Or.inr ho'
    · refine Or.inl ?_
      rcases List.mem_append.1 hr with hr | hr
      · exact h.operands_out r hr o ho (hkept o hlive' ho')
      · cases List.mem_singleton.1 hr
        exact h.pending_out o (List.mem_append_left _ (List.mem_reverse.2 ho))
          (hkept o hlive' ho')
  · simp only [h.node?_after, hstep, hout]
    by_cases hid' : id' = id
    · simp [hid']
    · simp only [hid', or_false, if_false]
  · have hdepth : g₁.maxDepth = g.maxDepth := by
      simp only [release?, Option.map_eq_some_iff, Prod.mk.injEq] at hid
      obtain ⟨node', -, -, rfl⟩ := hid
      rfl
    exact h.maxDepth_eq.trans hdepth

/-- **What is taken out is exactly what the pending ids lead to.** -/
theorem mem_iff (h : g.Released pending out g') :
    id ∈ out.map Prod.fst ↔ ∃ p ∈ pending, g.Leads p id := by
  constructor
  · intro hmem
    obtain ⟨r, hr, rfl⟩ := List.mem_map.1 hmem
    exact h.leads r hr
  · rintro ⟨p, hp, hl⟩
    induction hl with
    | refl hlive => exact h.pending_out p hp hlive
    | @step q o _ ho hlive ih =>
      obtain ⟨r, hr, rfl⟩ := List.mem_map.1 ih
      rw [operands_of_node? (h.node?_eq r hr)] at ho
      exact h.operands_out r hr o ho hlive

end Released

/-- **The walk of cleanup takes out what it should**, in front of what it took out before. -/
theorem cleanupFrom_released (g : Graph) (pending : List ParserId)
    (before : List (ParserId × Node)) :
    ∃ out, (g.cleanupFrom pending before).1 = out ++ before ∧
      g.Released pending out (g.cleanupFrom pending before).2 := by
  fun_induction cleanupFrom g pending before with
  | case1 g before => exact ⟨[], rfl, .nil g⟩
  | case2 g before id pending hr ih =>
    obtain ⟨out, hout, hreleased⟩ := ih
    have hnone : g.node? id = none := by simpa [release?] using hr
    exact ⟨out, hout, hreleased.skip hnone⟩
  | case3 g before id pending node g₁ hr ih =>
    obtain ⟨out, hout, hreleased⟩ := ih
    exact ⟨out ++ [(id, node)], by rw [hout, List.append_assoc]; rfl, hreleased.take hr⟩

/-- Where nothing pending lives, cleanup is over. -/
theorem cleanupFrom_of_dead {pending : List ParserId} (before : List (ParserId × Node))
    (h : ∀ p ∈ pending, g.node? p = none) : g.cleanupFrom pending before = (before, g) := by
  induction pending with
  | nil => rw [cleanupFrom]
  | cons p pending ih =>
    have hp : g.release? p = none := by simp [release?, h p List.mem_cons_self]
    rw [cleanupFrom]
    split
    · exact ih fun q hq => h q (List.mem_cons_of_mem _ hq)
    · next node g₁ hr => cases hp.symm.trans hr

/-- What cleanup yields, in the order of release. -/
theorem cleanup_released (g : Graph) (roots : List ParserId) :
    g.Released roots.reverse (g.cleanup roots).1.reverse (g.cleanup roots).2 := by
  obtain ⟨out, hout, hreleased⟩ := g.cleanupFrom_released roots.reverse []
  have hfst : (g.cleanup roots).1.reverse = out := by
    change ((g.cleanupFrom roots.reverse []).1.reverse).reverse = out
    rw [List.reverse_reverse, hout, List.append_nil]
  rw [hfst]
  exact hreleased

/-- Cleanup takes out just what the roots lead to. -/
theorem mem_map_fst_cleanup {roots : List ParserId} {id : ParserId} :
    id ∈ (g.cleanup roots).1.map Prod.fst ↔ id ∈ g.reachable roots := by
  rw [← List.mem_reverse, ← List.map_reverse, (g.cleanup_released roots).mem_iff, mem_reachable]
  simp only [List.mem_reverse]

/-- And leaves every other node as it is. -/
theorem node?_cleanup (g : Graph) (roots : List ParserId) (id : ParserId) :
    (g.cleanup roots).2.node? id = if id ∈ g.reachable roots then none else g.node? id := by
  rw [(g.cleanup_released roots).node?_after, List.map_reverse]
  simp only [List.mem_reverse, mem_map_fst_cleanup]

/-- **Cleanup releases exactly what the roots lead to, once.** What the roots lead to is listed
without repetition; cleanup meets each of these nodes once, as it was, and no other; their ids name
nothing after, every other id names what it named, and the limit is the same. Doing it again
releases nothing. -/
theorem cleanup_releases_reachable (g : Graph) (roots : List ParserId) :
    (g.reachable roots).Nodup ∧ (∀ id, id ∈ g.reachable roots ↔ ∃ r ∈ roots, g.Leads r id) ∧
      ((g.cleanup roots).1.map Prod.fst).Perm (g.reachable roots) ∧
      (∀ r ∈ (g.cleanup roots).1, g.node? r.1 = some r.2) ∧
      (g.cleanup roots).1.length = (g.reachable roots).length ∧
      (∀ id, (g.cleanup roots).2.node? id =
        if id ∈ g.reachable roots then none else g.node? id) ∧
      (g.cleanup roots).2.maxDepth = g.maxDepth ∧
      (g.cleanup roots).2.cleanup roots = ([], (g.cleanup roots).2) := by
  have h := g.cleanup_released roots
  have hmem : ∀ id, id ∈ (g.cleanup roots).1.reverse.map Prod.fst ↔ id ∈ g.reachable roots := by
    intro id
    rw [h.mem_iff, mem_reachable]
    simp only [List.mem_reverse]
  have hperm : ((g.cleanup roots).1.map Prod.fst).Perm (g.reachable roots) := by
    have hreverse : ((g.cleanup roots).1.reverse.map Prod.fst).Perm (g.reachable roots) :=
      (List.perm_ext_iff_of_nodup h.nodup (nodup_reachable roots)).2 hmem
    rw [List.map_reverse] at hreverse
    exact (List.reverse_perm _).symm.trans hreverse
  have hafter : ∀ id, (g.cleanup roots).2.node? id =
      if id ∈ g.reachable roots then none else g.node? id := by
    intro id
    rw [h.node?_after]
    simp only [hmem]
  refine ⟨nodup_reachable roots, fun id => mem_reachable, hperm,
    fun r hr => h.node?_eq r (List.mem_reverse.2 hr), ?_, hafter, h.maxDepth_eq, ?_⟩
  · rw [← hperm.length_eq, List.length_map]
  · -- a root that lived is released, so no root is left that lives
    have hdead : ∀ p ∈ roots.reverse, (g.cleanup roots).2.node? p = none := by
      intro p hp
      rw [hafter]
      split
      · rfl
      · next hnot =>
        refine Option.not_isSome_iff_eq_none.1 fun hlive => hnot ?_
        exact mem_reachable.2 ⟨p, List.mem_reverse.1 hp, .refl hlive⟩
    rw [cleanup, cleanupFrom_of_dead [] hdead]
    rfl

end ParserGraph.Graph
