import ParserGraph.Proofs.Graph.Reach
import ParserGraph.Proofs.Run.Likeness

/-!
# Frames — what a run does not look at

A run looks at the limit on nested parsers, at the nodes that its parser leads
to, and at the ids these refer to. So it stays the same when a graph changes
elsewhere (`Graph.LeftAlone.run_eq`). An operand that was released is part of
this: a run that comes to it is misuse, and stays so as long as no node takes
its id over, which would put that node in reach.
-/

namespace ParserGraph.Graph

variable {g g' : Graph} {p : ParserId}

/-- What `p` leads to is the same nodes in another graph, and no more. -/
structure LeftAlone (p : ParserId) (g g' : Graph) : Prop where
  /-- Every node in reach is as it was. -/
  node?_eq : ∀ x, g.Leads p x → g'.node? x = g.node? x
  /-- No other node is in reach. -/
  leads : ∀ x, g'.Leads p x → g.Leads p x

/-- Calls are the same in graphs that agree on some ids, among them all operands of the nodes that
these name. -/
theorem parse_eq_of_node?_eq {S : ParserId → Prop} (hnode : ∀ x, S x → g'.node? x = g.node? x)
    (hoperands : ∀ x, S x → ∀ o ∈ g.operands x, S o) (hdepth : g'.maxDepth = g.maxDepth)
    (room : Nat) : ∀ x, S x → g'.parse room x = g.parse room x := by
  induction room with
  | zero =>
    intro x _
    funext c
    have herror : g'.tooDeep c = g.tooDeep c := by rw [tooDeep, tooDeep, hdepth]
    simp only [parse, herror]
  | succ room ih =>
    intro x hx
    have hdescribe : ∀ y, S y → g'.describe y = g.describe y :=
      fun y hy => by rw [describe, describe, hnode y hy]
    funext c
    rw [parse, parse, enter, enter, hnode x hx]
    cases hfound : g.node? x with
    | none => rfl
    | some node =>
      obtain ⟨name, kind⟩ := node
      have hkind : kind.Alike (fun o o' => S o ∧ o = o') kind := by
        refine Kind.Alike.refl fun o ho => ⟨hoperands x hx o ?_, rfl⟩
        rw [operands_of_node? hfound]
        exact ho
      have hperform : Node.perform ⟨name, kind⟩ g' (g'.parse room) =
          Node.perform ⟨name, kind⟩ g (g.parse room) := by
        refine Node.perform_eq ?_ ?_ hkind
        · rintro o _ ⟨ho, rfl⟩
          exact ih o ho
        · rintro o _ ⟨ho, rfl⟩
          exact hdescribe o ho
      dsimp only
      rw [hperform]

/-- **A run does not look at anything else**: where what its parser leads to is left alone, it comes
to the same. -/
theorem LeftAlone.run_eq (h : LeftAlone p g g') (hp : g.contains p)
    (hdepth : g'.maxDepth = g.maxDepth) (input : String) : g'.run p input = g.run p input := by
  -- what is in reach, and what that refers to
  have hnode : ∀ x, (g.Leads p x ∨ ∃ y, g.Leads p y ∧ x ∈ g.operands y) →
      g'.node? x = g.node? x := by
    rintro x (hx | ⟨y, hy, ho⟩)
    · exact h.node?_eq x hx
    by_cases hlive : g.contains x
    · exact h.node?_eq x (hy.step ho hlive)
    · have hdead' : ¬ g'.contains x := by
        intro hlive'
        have hy' : g'.Leads p y := hy.of_node?_eq_on h.node?_eq
        rw [← operands_eq_of_node?_eq (h.node?_eq y hy)] at ho
        exact hlive (h.leads x (hy'.step ho hlive')).contains_right
      rw [Option.not_isSome_iff_eq_none.1 hlive, Option.not_isSome_iff_eq_none.1 hdead']
  have hoperands : ∀ x, (g.Leads p x ∨ ∃ y, g.Leads p y ∧ x ∈ g.operands y) →
      ∀ o ∈ g.operands x, g.Leads p o ∨ ∃ y, g.Leads p y ∧ o ∈ g.operands y := by
    rintro x (hx | ⟨y, hy, hxy⟩) o ho
    · exact Or.inr ⟨x, hx, ho⟩
    · have hlive : g.contains x := contains_of_mem_operands ho
      exact Or.inr ⟨x, hy.step hxy hlive, ho⟩
  have hparse := parse_eq_of_node?_eq hnode hoperands hdepth g.maxDepth p (Or.inl (.refl hp))
  rw [run, run, hdepth, hparse]

end ParserGraph.Graph
