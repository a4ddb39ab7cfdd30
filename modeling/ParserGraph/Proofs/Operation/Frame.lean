import ParserGraph.Proofs.Grammar.Frame
import ParserGraph.Proofs.Operation.References
import ParserGraph.Proofs.Run.Frame
import ParserGraph.Proofs.Validation.Renaming

/-!
# Frames of operations — what a program may do beside a parser

Runs and validation depend on what a parser leads to and on nothing else: not
on the ids that it stands under (`Graph.Renaming`), nor on the rest of the
graph (`Graph.LeftAlone`). So a program may add nodes, clean up what has
nothing to do with the parser, and compile other grammars, be they rejected or
not; the parser does what it did before (`Operation.runs_depend_on_reach`).
-/

namespace ParserGraph.Operation

open Event ParserGraph.Graph

variable {g : Graph} {p : ParserId} {ops later : List Operation}

/-- An operation that has nothing to do with what `p` leads to. Nodes may always be added; a node
may be renamed and a placeholder given a body, if it is not in reach; what is cleaned up is not in
reach; and a grammar that is not rejected defines no placeholder in reach. -/
def Spares (p : ParserId) (g : Graph) : Operation → Prop
  | .named id _ => ¬ g.Leads p id
  | .define id body => (∃ g', g.define id body = .ok g') → ¬ g.Leads p id
  | .setMaxDepth depth => depth = g.maxDepth
  | .cleanup roots => ∀ x, g.Leads p x → x ∉ g.reachable roots
  | .compile dialect text bindings sensitive =>
    (∃ c g', Grammar.compile dialect text bindings sensitive g = .ok (.ok c) g') →
      ∀ x, g.Leads p x → ¬ Grammar.Defines g dialect text bindings x
  | _ => True

/-- Operations each of which has nothing to do with what `p` leads to. -/
def SparesAll (p : ParserId) : Graph → List Operation → Prop
  | _, [] => True
  | g, op :: ops => op.Spares p g ∧ SparesAll p (op.run g) ops

/-! ## One operation -/

/-- What is added leaves the nodes in reach as they are. -/
theorem node?_eq_of_grows {g' : Graph} (h : g.Grows g') :
    (∀ x, g.Leads p x → g'.node? x = g.node? x) ∧ g'.maxDepth = g.maxDepth := by
  refine ⟨fun x hx => ?_, h.maxDepth_eq⟩
  obtain ⟨node, hnode⟩ := contains_iff.1 hx.contains_right
  rw [hnode, h.extends_graph x node hnode]

/-- A node out of reach may be replaced. -/
theorem node?_eq_of_replace {id : ParserId} {node : Node} (hnode : g.node? id = some node)
    (hid : ¬ g.Leads p id) (node' : Node) :
    (∀ x, g.Leads p x → (g.replace id node').node? x = g.node? x) ∧
      (g.replace id node').maxDepth = g.maxDepth := by
  refine ⟨fun x hx => ?_, rfl⟩
  have hne : x ≠ id := fun he => hid (he ▸ hx)
  rw [node?_replace hnode, if_neg hne]

/-- **An operation that spares what a parser leads to leaves it as it is.** -/
theorem node?_eq_of_spares (hsound : g.Sound) {op : Operation} (h : op.Spares p g) :
    (∀ x, g.Leads p x → (op.run g).node? x = g.node? x) ∧ (op.run g).maxDepth = g.maxDepth := by
  cases op with
  | insert kind => exact node?_eq_of_grows (Build.insert_adds kind g hsound)
  | repetition part min max => exact node?_eq_of_grows (Build.repetition_adds part min max g hsound)
  | lexeme part => exact node?_eq_of_grows (Build.lexeme_adds part g hsound)
  | rule name => exact node?_eq_of_grows (Build.rule_adds name g hsound)
  | named id name =>
    rw [run, Build.leaves, Build.named]
    cases hnode : g.node? id with
    | none => exact ⟨fun _ _ => rfl, rfl⟩
    | some node => exact node?_eq_of_replace hnode h _
  | define id body =>
    rw [run_define]
    cases hdefine : g.define id body with
    | error e => exact ⟨fun _ _ => rfl, rfl⟩
    | ok g' =>
      obtain ⟨-, name, hrule, rfl⟩ := define_eq_ok hdefine
      exact node?_eq_of_replace hrule (h ⟨_, hdefine⟩) _
  | setMaxDepth depth => exact ⟨fun _ _ => rfl, h⟩
  | cleanup roots =>
    refine ⟨fun x hx => ?_, (g.cleanup_released roots).maxDepth_eq⟩
    exact (node?_cleanup g roots x).trans (if_neg (h x hx))
  | compile dialect text bindings sensitive =>
    obtain ⟨hdepth, hnode⟩ := Grammar.leaves_compile_eq dialect text bindings sensitive hsound
    exact ⟨fun x hx => hnode x hx.contains_right fun hbuilt => h hbuilt x hx, hdepth⟩

/-! ## Operations one after another -/

/-- **So do several.** -/
theorem node?_eq_of_sparesAll {es : List Event} (hpast : g.Past es) (h : SparesAll p g later) :
    (∀ x, g.Leads p x → (later.foldl (fun g op => op.run g) g).node? x = g.node? x) ∧
      (later.foldl (fun g op => op.run g) g).maxDepth = g.maxDepth := by
  induction later generalizing g es with
  | nil => exact ⟨fun _ _ => rfl, rfl⟩
  | cons op later ih =>
    obtain ⟨hop, hlater⟩ := h
    obtain ⟨hnode, hdepth⟩ := node?_eq_of_spares hpast.sound hop
    obtain ⟨hnodes, hdepths⟩ := ih (op.past_run hpast) hlater
    refine ⟨fun x hx => ?_, hdepths.trans hdepth⟩
    -- what was in reach is in reach still, so that the rest spares it too
    exact (hnodes x (hx.of_node?_eq_on hnode)).trans (hnode x hx)

theorem runAll_append (ops later : List Operation) :
    runAll (ops ++ later) = later.foldl (fun g op => op.run g) (runAll ops) :=
  List.foldl_append

/-- **Operations that spare what a parser leads to leave it alone**, if none of its operands was
released, or no slot is released so often that its generations come round. -/
theorem leftAlone_of_sparesAll (hlive : (runAll ops).contains p)
    (h : SparesAll p (runAll ops) later)
    (hstale : (runAll ops).Closed p ∨
      ∀ index, releases (eventsAll (ops ++ later)) index < 2 ^ 32) :
    LeftAlone p (runAll ops) (runAll (ops ++ later)) ∧
      (runAll (ops ++ later)).maxDepth = (runAll ops).maxDepth := by
  obtain ⟨hnode, hdepth⟩ := node?_eq_of_sparesAll (past_runAll ops) h
  rw [← runAll_append] at hnode hdepth
  refine ⟨⟨hnode, fun x hx => ?_⟩, hdepth⟩
  induction hx with
  | refl _ => exact .refl hlive
  | @step y o _ ho hcontains ih =>
    rw [operands_eq_of_node?_eq (hnode y ih)] at ho
    refine ih.step ho ?_
    rcases hstale with hclosed | hfew
    · exact hclosed.2 y ih o ho
    · -- an operand that names nothing was released, and stays so
      exact Classical.byContradiction fun hdead =>
        not_contains_of_refersTo hfew (RefersTo.of_operands ho) hdead hcontains

/-! ## Runs and validation -/

/-- **Runs and validation depend on what is in reach only.** What one node leads to may stand in
another graph under other ids: runs of every input, validation and the nullable nodes are the same.
A run stays the same where the rest of a graph changes. So the operations of a program that spare
what a parser leads to leave it alone, and with it every run of the parser. -/
theorem runs_depend_on_reach :
    (∀ (g g' : Graph) (p q : ParserId) (f : ParserId → ParserId),
      g.maxDepth = g'.maxDepth → g.Renaming p g' q f →
        (∀ input, g.run p input = g'.run q input) ∧
          ∀ roots, (∀ r ∈ roots, g.Leads p r) →
            g.validate roots = g'.validate (roots.map f) ∧
              ∀ y, y ∈ g'.nullable (roots.map f) ↔ ∃ x ∈ g.nullable roots, f x = y) ∧
      (∀ (g g' : Graph) (p : ParserId), g.contains p → LeftAlone p g g' →
        g'.maxDepth = g.maxDepth → ∀ input, g'.run p input = g.run p input) ∧
      ∀ (ops later : List Operation) (p : ParserId), (runAll ops).contains p →
        SparesAll p (runAll ops) later →
        ((runAll ops).Closed p ∨ ∀ index, releases (eventsAll (ops ++ later)) index < 2 ^ 32) →
        LeftAlone p (runAll ops) (runAll (ops ++ later)) ∧
          ∀ input, (runAll (ops ++ later)).run p input = (runAll ops).run p input := by
  refine ⟨fun g g' p q f hdepth h => ⟨h.run_eq hdepth, fun roots hroots => ?_⟩,
    fun g g' p hlive h hdepth => h.run_eq hlive hdepth, fun ops later p hlive h hstale => ?_⟩
  · exact ⟨h.validate_eq hroots, h.mem_nullable_iff hroots⟩
  · obtain ⟨halone, hdepth⟩ := leftAlone_of_sparesAll hlive h hstale
    exact ⟨halone, halone.run_eq hlive hdepth⟩

/-- A program that makes a rule of one or more characters. -/
def straight : List Operation :=
  [.rule "r", .insert (.terminal (.char 'a')), .insert (.optional ⟨0, 0⟩),
    .insert (.sequence [⟨1, 0⟩, ⟨2, 0⟩]), .define ⟨0, 0⟩ ⟨3, 0⟩]

/-- The same rule, made in another order and partly in a slot that was used before. -/
def roundabout : List Operation :=
  [.insert (.terminal .any), .cleanup [⟨0, 0⟩], .insert (.terminal (.char 'a')), .rule "r",
    .insert (.optional ⟨1, 0⟩), .insert (.sequence [⟨0, 1⟩, ⟨2, 0⟩]), .define ⟨1, 0⟩ ⟨3, 0⟩]

/-- What the one rule leads to, in the order of the walk. -/
def straightIds : List ParserId := [⟨0, 0⟩, ⟨3, 0⟩, ⟨1, 0⟩, ⟨2, 0⟩]

/-- What the other leads to. -/
def roundaboutIds : List ParserId := [⟨1, 0⟩, ⟨3, 0⟩, ⟨0, 1⟩, ⟨2, 0⟩]

/-- The ids of the one under those of the other. -/
def roundaboutId (id : ParserId) : ParserId :=
  if id = ⟨0, 0⟩ then ⟨1, 0⟩ else if id = ⟨1, 0⟩ then ⟨0, 1⟩ else id

/-- A node that is made and released, and a grammar that is rejected. -/
def bystanders : List Operation :=
  [.insert (.terminal .pass), .cleanup [⟨4, 0⟩], .compile .plain "a:a'x';" [] false]

theorem leads_straight {x : ParserId} :
    (runAll straight).Leads ⟨0, 0⟩ x ↔ x ∈ straightIds := by
  have hwalk : (runAll straight).reachable [⟨0, 0⟩] = straightIds := by
    cbv
  rw [← hwalk, mem_reachable]
  simp

theorem leads_roundabout {x : ParserId} :
    (runAll roundabout).Leads ⟨1, 0⟩ x ↔ x ∈ roundaboutIds := by
  have hwalk : (runAll roundabout).reachable [⟨1, 0⟩] = roundaboutIds := by
    cbv
  rw [← hwalk, mem_reachable]
  simp

theorem closed_straight : (runAll straight).Closed ⟨0, 0⟩ :=
  Closed.of_forall (S := fun id => id ∈ straightIds) (by decide) (by decide) (by decide)

/-- The rule stands in the other graph under other ids. -/
theorem renaming_roundabout :
    (runAll straight).Renaming ⟨0, 0⟩ (runAll roundabout) ⟨1, 0⟩ roundaboutId where
  closed := closed_straight
  bijective := by
    have hmaps : ∀ x ∈ straightIds, roundaboutId x ∈ roundaboutIds := by decide
    have hinj : ∀ x ∈ straightIds, ∀ y ∈ straightIds, roundaboutId x = roundaboutId y → x = y := by
      decide
    have hsurj : ∀ y ∈ roundaboutIds, ∃ x ∈ straightIds, roundaboutId x = y := by decide
    refine ⟨fun x hx => ?_, fun x hx y hy => ?_, fun y hy => ?_⟩
    · exact leads_roundabout.2 (hmaps x (leads_straight.1 hx))
    · exact hinj x (leads_straight.1 hx) y (leads_straight.1 hy)
    · obtain ⟨x, hx, hxy⟩ := hsurj y (leads_roundabout.1 hy)
      exact ⟨x, leads_straight.2 hx, hxy⟩
  root := rfl
  nodes := by
    have hrule : (runAll roundabout).node? ⟨1, 0⟩ = some ⟨some "r", .rule (some ⟨3, 0⟩)⟩ := by cbv
    have hbody : (runAll roundabout).node? ⟨3, 0⟩ =
        some ⟨none, .sequence [⟨0, 1⟩, ⟨2, 0⟩]⟩ := by cbv
    have hchar : (runAll roundabout).node? ⟨0, 1⟩ = some ⟨none, .terminal (.char 'a')⟩ := by cbv
    have hrest : (runAll roundabout).node? ⟨2, 0⟩ = some ⟨none, .optional ⟨1, 0⟩⟩ := by cbv
    intro x hx
    have hmem := leads_straight.1 hx
    simp only [straightIds, List.mem_cons, List.not_mem_nil, or_false] at hmem
    rcases hmem with rfl | rfl | rfl | rfl
    · exact ⟨_, _, _, rfl, hrule, .rule rfl⟩
    · exact ⟨_, _, _, rfl, hbody, .sequence (.cons rfl (.cons rfl .nil))⟩
    · exact ⟨_, _, _, rfl, hchar, .terminal⟩
    · exact ⟨_, _, _, rfl, hrest, .optional rfl⟩

theorem sparesAll_bystanders : SparesAll ⟨0, 0⟩ (runAll straight) bystanders := by
  refine ⟨trivial, fun x hx => ?_, fun _ x _ hdefines => ?_, trivial⟩
  · have hwalk : ((Operation.insert (.terminal .pass)).run (runAll straight)).reachable [⟨4, 0⟩] =
        [⟨4, 0⟩] := by cbv
    have hreach : ((Operation.insert (.terminal .pass)).run (runAll straight)).reachable [⟨0, 0⟩] =
        straightIds := by cbv
    have hapart : ∀ x ∈ straightIds, x ∉ [(⟨4, 0⟩ : ParserId)] := by decide
    have hmem := mem_reachable.2 ⟨_, List.mem_singleton_self _, hx⟩
    rw [hreach] at hmem
    rw [hwalk]
    exact hapart x hmem
  · exact absurd hdefines.1 List.not_mem_nil

/-- Under other ids the rule takes the same characters and is found to be the same; it also is when
a node beside it came and went and a grammar was rejected. -/
theorem runs_depend_on_reach_roundabout :
    (runAll straight).maxDepth = (runAll roundabout).maxDepth ∧
      (runAll straight).Renaming ⟨0, 0⟩ (runAll roundabout) ⟨1, 0⟩ roundaboutId ∧
      (runAll roundabout).run ⟨1, 0⟩ "aab" = (runAll straight).run ⟨0, 0⟩ "aab" ∧
      (runAll straight).validate [⟨0, 0⟩] = (runAll roundabout).validate [⟨1, 0⟩] ∧
      ⟨2, 0⟩ ∈ (runAll roundabout).nullable [⟨1, 0⟩] ∧
      SparesAll ⟨0, 0⟩ (runAll straight) bystanders ∧
      LeftAlone ⟨0, 0⟩ (runAll straight) (runAll (straight ++ bystanders)) ∧
      (runAll (straight ++ bystanders)).run ⟨0, 0⟩ "aab" =
        (runAll roundabout).run ⟨1, 0⟩ "aab" := by
  have hdepth : (runAll straight).maxDepth = (runAll roundabout).maxDepth := by cbv
  have hlive : (runAll straight).contains ⟨0, 0⟩ := by decide
  have hroots : ∀ r ∈ [(⟨0, 0⟩ : ParserId)], (runAll straight).Leads ⟨0, 0⟩ r := by
    intro r hr
    cases List.mem_singleton.1 hr
    exact .refl hlive
  have hnullable : ⟨2, 0⟩ ∈ (runAll straight).nullable [⟨0, 0⟩] := by
    have hamong : (runAll straight).nullableAmong ((runAll straight).reachable [⟨0, 0⟩]) =
        [⟨2, 0⟩] := by cbv
    rw [nullable, List.mem_mergeSort, hamong]
    exact List.mem_singleton_self _
  obtain ⟨hrenaming, halone, hspared⟩ := runs_depend_on_reach
  obtain ⟨hrun, hvalidate⟩ := hrenaming _ _ _ _ _ hdepth renaming_roundabout
  obtain ⟨hvalid, hnull⟩ := hvalidate [⟨0, 0⟩] hroots
  obtain ⟨hleft, -⟩ :=
    hspared straight bystanders ⟨0, 0⟩ hlive sparesAll_bystanders (Or.inl closed_straight)
  obtain ⟨-, hdepth'⟩ :=
    leftAlone_of_sparesAll hlive sparesAll_bystanders (Or.inl closed_straight)
  refine ⟨hdepth, renaming_roundabout, (hrun "aab").symm, hvalid,
    (hnull ⟨2, 0⟩).2 ⟨⟨2, 0⟩, hnullable, rfl⟩, sparesAll_bystanders, hleft, ?_⟩
  exact (halone _ _ _ hlive hleft hdepth' "aab").trans (hrun "aab")

end ParserGraph.Operation
