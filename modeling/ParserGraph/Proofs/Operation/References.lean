import ParserGraph.Proofs.Graph.Release
import ParserGraph.Proofs.Operation.Lifetime

/-!
# References — what nodes refer to was given out

Constructors and bodies refer to parsers that live at the time, and no
operation makes a node refer to anything else (`Operation.refersTo_run`). A
node may outlive its operands, but an id it refers to was given out once, so
that it names nothing for good once it is released
(`Operation.not_contains_of_refersTo`).
-/

namespace ParserGraph

open Event

namespace Graph

variable {g g' g'' : Graph} {id o : ParserId} {node : Node}

/-- Some node has the id as an operand. -/
def RefersTo (g : Graph) (o : ParserId) : Prop :=
  ∃ id node, g.node? id = some node ∧ o ∈ node.kind.operands

theorem RefersTo.of_operands (h : o ∈ g.operands id) : g.RefersTo o := by
  obtain ⟨node, hnode⟩ := contains_iff.1 (contains_of_mem_operands h)
  exact ⟨id, node, hnode, operands_of_node? hnode ▸ h⟩

/-- A graph in which every node is that of another refers to nothing else. -/
theorem RefersTo.of_node?_eq (h : g'.RefersTo o)
    (hsub : ∀ id node, g'.node? id = some node → g.node? id = some node) : g.RefersTo o := by
  obtain ⟨id, node, hnode, ho⟩ := h
  exact ⟨id, node, hsub id node hnode, ho⟩

/-- A node that replaces another refers to its own operands. -/
theorem RefersTo.of_replace {node' : Node} (hnode : g.node? id = some node)
    (h : (g.replace id node').RefersTo o) : g.RefersTo o ∨ o ∈ node'.kind.operands := by
  obtain ⟨x, found, hfound, ho⟩ := h
  rw [node?_replace hnode] at hfound
  split at hfound
  · cases hfound
    exact Or.inr ho
  · exact Or.inl ⟨x, found, hfound, ho⟩

/-- A body that is given lives. -/
theorem RefersTo.of_define {rule body : ParserId} (h : g'.RefersTo o)
    (hdefine : g.define rule body = .ok g') : g.RefersTo o ∨ g'.contains o := by
  obtain ⟨hbody, name, hrule, rfl⟩ := define_eq_ok hdefine
  refine (h.of_replace hrule).imp_right fun ho => ?_
  cases List.mem_singleton.1 ho
  exact (contains_replace hrule _ _).2 hbody

/-- Cleaning up takes nodes away only. -/
theorem RefersTo.of_cleanup {roots : List ParserId} (h : (g.cleanup roots).2.RefersTo o) :
    g.RefersTo o := by
  refine h.of_node?_eq fun id node hnode => ?_
  rw [(g.cleanup_released roots).node?_after] at hnode
  split at hnode
  · cases hnode
  · exact hnode

/-! ## Graphs that grow -/

/-- Nodes were added to a graph, over operands that live. -/
structure Grows (g g' : Graph) : Prop where
  /-- The graph is sound still. -/
  sound : g'.Sound
  /-- Every node stays what it is. -/
  extends_graph : g.Extends g'
  /-- The limit on nested parsers is the same. -/
  maxDepth_eq : g'.maxDepth = g.maxDepth
  /-- Nodes refer to what they referred to, or to what lives. -/
  refersTo : ∀ o, g'.RefersTo o → g.RefersTo o ∨ g'.contains o

theorem Grows.refl (h : g.Sound) : g.Grows g := ⟨h, .refl g, rfl, fun _ ho => Or.inl ho⟩

theorem Grows.trans (h : g.Grows g') (h' : g'.Grows g'') : g.Grows g'' where
  sound := h'.sound
  extends_graph := h.extends_graph.trans h'.extends_graph
  maxDepth_eq := h'.maxDepth_eq.trans h.maxDepth_eq
  refersTo := by
    intro o ho
    rcases h'.refersTo o ho with ho | hlive
    · exact (h.refersTo o ho).imp_right h'.extends_graph.contains
    · exact Or.inr hlive

/-- Adding a node over operands that live lets a graph grow. -/
theorem Added.grows (h : g.Added id node g') (hops : ∀ o ∈ node.kind.operands, g.contains o) :
    g.Grows g' where
  sound := h.sound
  extends_graph := h.extends
  maxDepth_eq := h.maxDepth_eq
  refersTo := by
    rintro o ⟨x, found, hfound, ho⟩
    rw [h.node?_eq] at hfound
    split at hfound
    · cases hfound
      exact Or.inr (h.extends.contains (hops o ho))
    · exact Or.inl ⟨x, found, hfound, ho⟩

end Graph

/-! ## Building steps -/

namespace Build

variable {α β : Type}

/-- A step that lets a graph grow, whether it is refused or not. -/
def Adds (step : Build α) : Prop := ∀ g : Graph, g.Sound → g.Grows (step.leaves g)

theorem Adds.bind {step : Build α} {f : α → Build β} (hstep : step.Adds) (hf : ∀ a, (f a).Adds) :
    (step >>= f).Adds := by
  intro g hg
  have hgrows := hstep g hg
  rw [leaves] at hgrows
  rw [leaves_bind]
  cases hrun : step g with
  | ok a g' =>
    rw [hrun] at hgrows
    exact hgrows.trans (hf a g' hgrows.sound)
  | error m g' =>
    rw [hrun] at hgrows
    exact hgrows

theorem insert_adds (kind : Kind) : (insert kind).Adds := by
  intro g hg
  cases hrun : insert kind g with
  | ok id g' =>
    obtain ⟨hadded, hops⟩ := insert_eq_ok hg hrun
    rw [leaves, hrun]
    exact hadded.grows hops
  | error m g' =>
    unfold insert at hrun
    split at hrun
    · next stale hstale =>
      cases hrun
      rw [leaves, insert, hstale]
      exact .refl hg
    · cases hrun

theorem repetition_adds (part : ParserId) (min : Nat) (max : Option Nat) :
    (repetition part min max).Adds := by
  unfold repetition
  cases max with
  | none => exact insert_adds _
  | some high =>
    dsimp only
    split
    · exact fun g hg => .refl hg
    · exact insert_adds _

/-- A placeholder is added under its name at once. -/
theorem rule_adds (name : String) : (rule name).Adds := by
  intro g hg
  have hrule := rule_eq hg name
  rw [leaves, hrule]
  exact (rule_eq_ok hg hrule).grows fun _ ho => absurd ho List.not_mem_nil

theorem lexeme_adds (part : ParserId) : (lexeme part).Adds :=
  (insert_adds (.terminal (.satisfy "whitespace" CharSet.whiteSpace.contains))).bind fun space =>
    (repetition_adds space 0 none).bind fun spaces =>
      (insert_adds (.sequence [part, spaces])).bind fun both =>
        insert_adds (.transform both Tree.first)

end Build

/-! ## Compiling -/

namespace Grammar

variable {base : Graph} {o : ParserId}

/-- A draft whose nodes refer to what some did in the base, or to what lives. -/
def Draft.Refers (base : Graph) (d : Draft) : Prop :=
  d.graph.Sound ∧ ∀ o, d.graph.RefersTo o → base.RefersTo o ∨ d.graph.contains o

theorem Draft.Refers.grows {d : Draft} {g : Graph} (h : d.Refers base) (hgrows : d.graph.Grows g) :
    g.Sound ∧ ∀ o, g.RefersTo o → base.RefersTo o ∨ g.contains o := by
  refine ⟨hgrows.sound, fun o ho => ?_⟩
  rcases hgrows.refersTo o ho with ho | hlive
  · exact (h.2 o ho).imp_right hgrows.extends_graph.contains
  · exact Or.inr hlive

theorem add_maintains_refers {step : Build ParserId} (hstep : step.Adds) :
    (Draft.add step).Maintains (Draft.Refers base) := by
  refine Drafting.Maintains.add (fun d id g hd h => ?_) fun d m g hd h => ?_
  · have hgrows := hstep _ hd.1
    rw [Build.leaves, h] at hgrows
    exact hd.grows hgrows
  · have hgrows := hstep _ hd.1
    rw [Build.leaves, h] at hgrows
    exact hd.grows hgrows

/-- **No change to a draft lets a node refer to what does not live.** -/
theorem Draft.stable_refers (base : Graph) : Draft.Stable (Draft.Refers base) where
  insert := fun kind _ => add_maintains_refers (Build.insert_adds kind)
  repetition := fun part min max => add_maintains_refers (Build.repetition_adds part min max)
  rule := fun name => add_maintains_refers (Build.rule_adds name)
  define := by
    intro rule body d hd
    rw [Drafting.leaves, Draft.define]
    cases hdefine : d.graph.define rule body with
    | error e => exact hd
    | ok g =>
      refine ⟨Graph.sound_define hd.1 hdefine, fun o ho => ?_⟩
      rcases ho.of_define hdefine with ho | hlive
      · refine (hd.2 o ho).imp_right fun hlive => ?_
        obtain ⟨-, name, hrule, rfl⟩ := Graph.define_eq_ok hdefine
        exact (Graph.contains_replace hrule _ _).2 hlive
      · exact Or.inr hlive
  spaces := fun _ _ hd => hd

/-- Compiling lets no node refer to what does not live. -/
theorem refersTo_compile (hsound : base.Sound) {dialect : Pattern.Dialect} {text : String}
    {bindings : List ParserId} {sensitive : Bool}
    (h : ((compile dialect text bindings sensitive).leaves base).RefersTo o) :
    base.RefersTo o ∨ ((compile dialect text bindings sensitive).leaves base).contains o := by
  rw [leaves_compile] at h ⊢
  split at h
  · next ds _ =>
    rw [Build.leaves, assemble] at h ⊢
    cases hcheck : check base ds bindings with
    | error e => rw [hcheck] at h; exact Or.inl h
    | ok bound =>
      have hrefers := (Draft.stable_refers base).build sensitive bound ds ⟨base, none, [], []⟩
        ⟨hsound, fun _ ho => Or.inl ho⟩
      rw [Drafting.leaves] at hrefers
      rw [hcheck] at h
      dsimp only at h ⊢
      cases hbuild : Draft.build sensitive bound ds ⟨base, none, [], []⟩ with
      | error m d => rw [hbuild] at h hrefers; exact hrefers.2 o h
      | ok r d =>
        rw [hbuild] at h hrefers
        cases r with
        | ok c => exact hrefers.2 o h
        | error e =>
          -- a draft that is undone leaves the nodes of the base
          obtain ⟨hover, -, -⟩ := Draft.build_spec hsound hcheck hbuild
          obtain ⟨-, -, hnode⟩ := hover.undone_restores
          exact Or.inl (h.of_node?_eq fun id node hid => (hnode id).symm.trans hid)
  · exact Or.inl h

end Grammar

/-! ## Operations -/

namespace Operation

variable {g : Graph} {o : ParserId}

/-- **No operation lets a node refer to what does not live.** -/
theorem refersTo_run (hsound : g.Sound) (op : Operation) (h : (op.run g).RefersTo o) :
    g.RefersTo o ∨ (op.run g).contains o := by
  cases op with
  | insert kind => exact (Build.insert_adds kind g hsound).refersTo o h
  | repetition part min max => exact (Build.repetition_adds part min max g hsound).refersTo o h
  | lexeme part => exact (Build.lexeme_adds part g hsound).refersTo o h
  | rule name => exact (Build.rule_adds name g hsound).refersTo o h
  | named id name =>
    rw [run, Build.leaves, Build.named] at h
    cases hnode : g.node? id with
    | none => rw [hnode] at h; exact Or.inl h
    | some node =>
      rw [hnode] at h
      rcases h.of_replace hnode with ho | ho
      · exact Or.inl ho
      · exact Or.inl ⟨id, node, hnode, ho⟩
  | define id body =>
    rw [run_define] at h ⊢
    cases hdefine : g.define id body with
    | ok g' => rw [hdefine] at h; exact h.of_define hdefine
    | error e => rw [hdefine] at h; exact Or.inl h
  | setMaxDepth depth => exact Or.inl h
  | cleanup roots => exact Or.inl (Graph.RefersTo.of_cleanup h)
  | compile dialect text bindings sensitive =>
    rw [run] at h ⊢
    exact Grammar.refersTo_compile hsound h

theorem runAll_concat (ops : List Operation) (op : Operation) :
    runAll (ops ++ [op]) = op.run (runAll ops) := by
  rw [runAll, List.foldl_append]
  rfl

/-- What was released as often was released so often before more operations were made. -/
theorem releases_le_append (ops later : List Operation) (index : Nat) :
    releases (eventsAll ops) index ≤ releases (eventsAll (ops ++ later)) index :=
  ((prefix_eventsAll_append ops later).filterMap _).sublist.countP_le

/-- **What nodes refer to was given out.** -/
theorem mem_createdIds_of_refersTo {ops : List Operation}
    (hfew : ∀ index, releases (eventsAll ops) index < 2 ^ 32) (h : (runAll ops).RefersTo o) :
    o ∈ createdIds (eventsAll ops) := by
  induction ops using List.reverseRecOn with
  | nil =>
    obtain ⟨id, node, hnode, -⟩ := h
    cases hnode
  | append_singleton ops op ih =>
    rw [runAll_concat] at h
    rcases op.refersTo_run (past_runAll ops).sound h with ho | hlive
    · have hbefore := ih (fun index => Nat.lt_of_le_of_lt (releases_le_append ops [op] index)
        (hfew index)) ho
      exact ((prefix_eventsAll_append ops [op]).filterMap _).subset hbefore
    · rw [← runAll_concat] at hlive
      exact (((past_runAll _).identities hfew).contains_iff o).1 hlive |>.1

/-- **An operand that was released names nothing for good**, as long as no slot is released so often
that its generations come round. -/
theorem not_contains_of_refersTo {ops later : List Operation}
    (hfew : ∀ index, releases (eventsAll (ops ++ later)) index < 2 ^ 32)
    (h : (runAll ops).RefersTo o) (hdead : ¬ (runAll ops).contains o) :
    ¬ (runAll (ops ++ later)).contains o := by
  have hfew' : ∀ index, releases (eventsAll ops) index < 2 ^ 32 :=
    fun index => Nat.lt_of_le_of_lt (releases_le_append ops later index) (hfew index)
  have hcreated := mem_createdIds_of_refersTo hfew' h
  have hreleased : o ∈ releasedIds (eventsAll ops) :=
    Classical.byContradiction fun hnot =>
      hdead ((((past_runAll ops).identities hfew').contains_iff o).2 ⟨hcreated, hnot⟩)
  intro hlive
  refine ((((past_runAll _).identities hfew).contains_iff o).1 hlive).2 ?_
  exact ((prefix_eventsAll_append ops later).filterMap _).subset hreleased

end Operation

end ParserGraph
