import ParserGraph.Graph.Reach

/-!
# Reach — what the walk over a graph finds

A node leads to another along a path of nodes that live. The walk from given
roots lists exactly what the roots lead to (`mem_reachable`), each once
(`nodup_reachable`). A graph is closed from a node when no operand on the
way has been released (`Graph.Closed`): this is what a run needs so as never
to come to an id that names nothing.
-/

namespace ParserGraph.Graph

variable {g : Graph}

/-! ## Looking operands up -/

theorem contains_iff {id : ParserId} : g.contains id ↔ ∃ node, g.node? id = some node :=
  Option.isSome_iff_exists

theorem operands_of_node? {id : ParserId} {node : Node} (h : g.node? id = some node) :
    g.operands id = node.kind.operands := by
  simp [operands, kind?, h]

theorem kind?_of_node? {id : ParserId} {node : Node} (h : g.node? id = some node) :
    g.kind? id = some node.kind := by
  rw [kind?, h]
  rfl

/-- A node that has operands lives. -/
theorem contains_of_mem_operands {id o : ParserId} (h : o ∈ g.operands id) : g.contains id := by
  unfold operands kind? at h
  cases hnode : g.node? id with
  | none =>
    rw [hnode] at h
    exact absurd h List.not_mem_nil
  | some node => exact contains_iff.2 ⟨node, hnode⟩

/-- An id that names the same has the same operands. -/
theorem operands_eq_of_node?_eq {g' : Graph} {id : ParserId} (h : g'.node? id = g.node? id) :
    g'.operands id = g.operands id := by
  rw [operands, operands, kind?, kind?, h]

/-! ## Paths -/

/-- A node leads to another along operands that live. -/
inductive Leads (g : Graph) (p : ParserId) : ParserId → Prop
  /-- A node that lives leads to itself. -/
  | refl : g.contains p → Leads g p p
  /-- What it leads to leads on to each operand that lives. -/
  | step {q o : ParserId} : Leads g p q → o ∈ g.operands q → g.contains o → Leads g p o

namespace Leads

variable {p q r : ParserId}

/-- Both ends of a path live. -/
theorem contains_right (h : g.Leads p q) : g.contains q := by
  cases h with
  | refl hp => exact hp
  | step _ _ ho => exact ho

theorem contains_left (h : g.Leads p q) : g.contains p := by
  induction h with
  | refl hp => exact hp
  | step _ _ _ ih => exact ih

theorem trans (h : g.Leads p q) (h' : g.Leads q r) : g.Leads p r := by
  induction h' with
  | refl _ => exact h
  | step _ ho hlive ih => exact ih.step ho hlive

/-- A path may start with an operand. -/
theorem head {o : ParserId} (hp : g.contains p) (ho : o ∈ g.operands p) (h : g.Leads o q) :
    g.Leads p q :=
  ((refl hp).step ho h.contains_left).trans h

/-- What a node leads to it leads to still where all of it is as it was. -/
theorem of_node?_eq_on {g' : Graph} (hsame : ∀ x, g.Leads p x → g'.node? x = g.node? x)
    (h : g.Leads p q) : g'.Leads p q := by
  have hlive : ∀ x, g.Leads p x → g'.contains x := by
    intro x hx
    rw [contains, hsame x hx]
    exact hx.contains_right
  induction h with
  | refl hp => exact .refl (hlive p (.refl hp))
  | @step q o hq ho hcontains ih =>
    rw [← operands_eq_of_node?_eq (hsame q hq)] at ho
    exact ih.step ho (hlive o (hq.step (operands_eq_of_node?_eq (hsame q hq) ▸ ho) hcontains))

end Leads

/-! ## Closed graphs -/

/-- A node lives and so do all operands of what it leads to. -/
def Closed (g : Graph) (p : ParserId) : Prop :=
  g.contains p ∧ ∀ q, g.Leads p q → ∀ o ∈ g.operands q, g.contains o

namespace Closed

variable {p q o : ParserId}

/-- What a node leads to in a closed graph is closed too. -/
theorem of_leads (h : g.Closed p) (hq : g.Leads p q) : g.Closed q :=
  ⟨hq.contains_right, fun r hr => h.2 r (hq.trans hr)⟩

theorem of_operand (h : g.Closed p) (ho : o ∈ g.operands p) : g.Closed o :=
  h.of_leads ((Leads.refl h.1).step ho (h.2 p (.refl h.1) o ho))

/-- Nodes whose operands are among them are closed. -/
theorem of_forall {S : ParserId → Prop} (hlive : ∀ id, S id → g.contains id)
    (hstep : ∀ id, S id → ∀ o ∈ g.operands id, S o) (hp : S p) : g.Closed p := by
  have hS : ∀ q, g.Leads p q → S q := by
    intro q hq
    induction hq with
    | refl _ => exact hp
    | step _ ho _ ih => exact hstep _ ih _ ho
  exact ⟨hlive p hp, fun q hq o ho => hlive o (hstep q (hS q hq) o ho)⟩

/-- A graph none of whose nodes has a released operand is closed at each of them. -/
theorem of_liveIds (h : ∀ id ∈ g.liveIds, ∀ o ∈ g.operands id, g.contains o)
    (hp : g.contains p) : g.Closed p := by
  refine of_forall (fun _ hlive => hlive) (fun id hlive => ?_) hp
  obtain ⟨node, hnode⟩ := contains_iff.1 hlive
  exact h id (mem_liveIds hnode)

end Closed

/-! ## The walk -/

/-- The walk meets nothing but what it had met and what the pending ids lead to. -/
theorem mem_of_mem_reachFrom {pending visited : List ParserId} {id : ParserId}
    (h : id ∈ g.reachFrom pending visited) :
    id ∈ visited ∨ ∃ r ∈ pending, g.Leads r id := by
  fun_induction reachFrom g pending visited with
  | case1 visited => exact Or.inl h
  | case2 visited r pending hr ih =>
    rcases ih h with hv | ⟨r', hr', hl⟩
    · exact Or.inl hv
    · exact Or.inr ⟨r', List.mem_cons_of_mem _ hr', hl⟩
  | case3 visited r pending node hr hv ih =>
    rcases ih h with hv | ⟨r', hr', hl⟩
    · exact Or.inl hv
    · exact Or.inr ⟨r', List.mem_cons_of_mem _ hr', hl⟩
  | case4 visited r pending node hr hv ih =>
    have hlive : g.contains r := contains_iff.2 ⟨node, hr⟩
    rcases ih h with hv | ⟨r', hr', hl⟩
    · rcases List.mem_cons.1 hv with rfl | hv
      · exact Or.inr ⟨id, List.mem_cons_self, .refl hlive⟩
      · exact Or.inl hv
    · rcases List.mem_append.1 hr' with ho | hr'
      · rw [← operands_of_node? hr] at ho
        exact Or.inr ⟨r, List.mem_cons_self, .head hlive ho hl⟩
      · exact Or.inr ⟨r', List.mem_cons_of_mem _ hr', hl⟩

/-- The walk keeps what it has met. -/
theorem subset_reachFrom (pending visited : List ParserId) :
    ∀ id ∈ visited, id ∈ g.reachFrom pending visited := by
  fun_induction reachFrom g pending visited with
  | case1 visited => exact fun id h => h
  | case2 visited r pending hr ih => exact ih
  | case3 visited r pending node hr hv ih => exact ih
  | case4 visited r pending node hr hv ih => exact fun id h => ih id (List.mem_cons_of_mem _ h)

/-- The walk meets every pending id that lives, and leads on from what it meets, if what it had met
before led on to what is pending. -/
theorem reachFrom_closed (pending visited : List ParserId)
    (hinv : ∀ id ∈ visited, ∀ o ∈ g.operands id, g.contains o → o ∈ visited ∨ o ∈ pending) :
    (∀ r ∈ pending, g.contains r → r ∈ g.reachFrom pending visited) ∧
      ∀ id ∈ g.reachFrom pending visited, ∀ o ∈ g.operands id, g.contains o →
        o ∈ g.reachFrom pending visited := by
  fun_induction reachFrom g pending visited with
  | case1 visited =>
    refine ⟨fun r hr => (nomatch hr), fun id hid o ho hlive => ?_⟩
    exact (hinv id hid o ho hlive).resolve_right List.not_mem_nil
  | case2 visited r pending hr ih =>
    -- what does not live is nothing that a node has to lead on to
    have hdead : ¬ g.contains r := by simp [contains, hr]
    obtain ⟨hpending, hstep⟩ := ih fun id hid o ho hlive => by
      rcases hinv id hid o ho hlive with hv | hp
      · exact Or.inl hv
      · exact Or.inr ((List.mem_cons.1 hp).resolve_left fun he => hdead (he ▸ hlive))
    refine ⟨fun r' hr' hlive => ?_, hstep⟩
    exact hpending r' ((List.mem_cons.1 hr').resolve_left fun he => hdead (he ▸ hlive)) hlive
  | case3 visited r pending node hr hv ih =>
    have hmet : r ∈ visited := by simpa using hv
    obtain ⟨hpending, hstep⟩ := ih fun id hid o ho hlive => by
      rcases hinv id hid o ho hlive with hv | hp
      · exact Or.inl hv
      · rcases List.mem_cons.1 hp with rfl | hp
        · exact Or.inl hmet
        · exact Or.inr hp
    refine ⟨fun r' hr' hlive => ?_, hstep⟩
    rcases List.mem_cons.1 hr' with rfl | hr'
    · exact subset_reachFrom pending visited r' hmet
    · exact hpending r' hr' hlive
  | case4 visited r pending node hr hv ih =>
    -- the node is met now, and its operands are pending from here on
    obtain ⟨hpending, hstep⟩ := ih fun id hid o ho hlive => by
      rcases List.mem_cons.1 hid with rfl | hid
      · exact Or.inr (List.mem_append_left _ (operands_of_node? hr ▸ ho))
      · rcases hinv id hid o ho hlive with hv | hp
        · exact Or.inl (List.mem_cons_of_mem _ hv)
        · rcases List.mem_cons.1 hp with rfl | hp
          · exact Or.inl List.mem_cons_self
          · exact Or.inr (List.mem_append_right _ hp)
    refine ⟨fun r' hr' hlive => ?_, hstep⟩
    rcases List.mem_cons.1 hr' with rfl | hr'
    · exact subset_reachFrom _ _ r' List.mem_cons_self
    · exact hpending r' (List.mem_append_right _ hr') hlive

/-- The walk meets nothing twice. -/
theorem nodup_reachFrom {pending visited : List ParserId} (h : visited.Nodup) :
    (g.reachFrom pending visited).Nodup := by
  fun_induction reachFrom g pending visited with
  | case1 visited => exact h
  | case2 visited r pending hr ih => exact ih h
  | case3 visited r pending node hr hv ih => exact ih h
  | case4 visited r pending node hr hv ih =>
    exact ih (List.nodup_cons.2 ⟨by simpa using hv, h⟩)

/-- **The walk lists exactly what the roots lead to.** -/
theorem mem_reachable {roots : List ParserId} {id : ParserId} :
    id ∈ g.reachable roots ↔ ∃ r ∈ roots, g.Leads r id := by
  rw [reachable, List.mem_reverse]
  constructor
  · intro h
    exact (mem_of_mem_reachFrom h).resolve_left List.not_mem_nil
  · rintro ⟨r, hr, hl⟩
    obtain ⟨hpending, hstep⟩ :=
      g.reachFrom_closed roots [] fun id hid => absurd hid List.not_mem_nil
    induction hl with
    | refl hlive => exact hpending r hr hlive
    | step _ ho hlive ih => exact hstep _ ih _ ho hlive

/-- **And lists nothing twice.** -/
theorem nodup_reachable (roots : List ParserId) : (g.reachable roots).Nodup := by
  have hwalk : (g.reachFrom roots []).Nodup := nodup_reachFrom List.nodup_nil
  rw [reachable, List.Nodup, List.pairwise_reverse]
  exact hwalk.imp Ne.symm

end ParserGraph.Graph
