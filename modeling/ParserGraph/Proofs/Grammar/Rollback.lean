import ParserGraph.Proofs.Grammar.Build

/-!
# Rollback — what a rejected grammar leaves behind

A draft that is undone leaves the base it started from, as far as any id can
tell: its record is complete, so taking back the bodies and releasing the
nodes on it restores every lookup (`Draft.Over.undone_restores`). Only the free slots
may have changed. The graphs a program can come to (`Graph.Built`) are sound,
and for these a rejected grammar is invisible.
-/

namespace ParserGraph

namespace Grammar

namespace Draft

variable {base : Graph} {bound : List ParserId} {d : Draft}

/-- Once the bodies are taken away, what was added lives still, each node under its own id. -/
theorem Over.created_undefined (h : d.Over base bound) :
    (∀ id ∈ d.created.reverse,
      (d.patched.reverse.foldl Graph.undefine d.graph).contains id) ∧
      d.created.reverse.Nodup := by
  refine ⟨fun id hid => ?_, List.pairwise_reverse.2 (h.nodup_created.imp Ne.symm)⟩
  have hcontains := h.created_live id (List.mem_reverse.1 hid)
  rw [Graph.contains, (d.graph.foldl_undefine d.patched.reverse).1]
  split
  · rw [Option.isSome_map]
    exact hcontains
  · exact hcontains

/-- **Undoing a draft restores what it started from**: the count, the limit and every lookup. -/
theorem Over.undone_restores (h : d.Over base bound) :
    d.undone.live = base.live ∧ d.undone.maxDepth = base.maxDepth ∧
      ∀ id, d.undone.node? id = base.node? id := by
  obtain ⟨hnode, hlive, hdepth⟩ := d.graph.foldl_undefine d.patched.reverse
  obtain ⟨hcreated, hnodup⟩ := h.created_undefined
  obtain ⟨hcount, hlimit⟩ := Graph.discard_live hcreated hnodup
  refine ⟨?_, (hlimit.trans hdepth).trans h.maxDepth_eq, fun id => ?_⟩
  · rw [undone, hcount, hlive, h.live_eq, List.length_reverse]
    omega
  · rw [undone, Graph.node?_discard, hnode]
    by_cases hmem : id ∈ d.created
    · -- a node that was added is released, and its id named nothing before
      rw [if_pos (List.mem_reverse.2 hmem), h.created_fresh id hmem]
    · rw [if_neg (mt List.mem_reverse.1 hmem)]
      by_cases hpatched : id ∈ d.patched
      · -- a placeholder of the base, which was open
        obtain ⟨name, body, hbase, hbody⟩ := h.patched_open id hpatched hmem
        rw [if_pos (List.mem_reverse.2 hpatched), hbody, hbase]
        rfl
      · rw [if_neg (mt List.mem_reverse.1 hpatched)]
        exact h.node?_eq id hmem hpatched

theorem Over.sound_undone (h : d.Over base bound) : d.undone.Sound :=
  Graph.sound_discard (Graph.sound_foldl_undefine h.sound _) _

end Draft

end Grammar

/-! ## The graphs a program can come to -/

/-- A graph that was made from the empty one by what a program may do to it. -/
inductive Graph.Built : Graph → Prop
  | empty : Built .empty
  /-- Every constructor adds a node. -/
  | insert {g g' : Graph} {kind : Kind} {id : ParserId} :
      Built g → Build.insert kind g = .ok id g' → Built g'
  | named {g g' : Graph} {id id' : ParserId} {name : String} :
      Built g → Build.named id name g = .ok id' g' → Built g'
  | define {g g' : Graph} {rule body : ParserId} :
      Built g → g.define rule body = .ok g' → Built g'
  | setMaxDepth {g : Graph} {depth : Nat} : Built g → Built (g.setMaxDepth depth)
  | cleanup {g : Graph} {roots : List ParserId} : Built g → Built (g.cleanup roots).2
  /-- Grammars are compiled, whether they are rejected or not. -/
  | compile {g g' : Graph} {dialect : Pattern.Dialect} {text : String} {bindings : List ParserId}
      {sensitive : Bool} {r : Except GrammarError Compilation} :
      Built g → Grammar.compile dialect text bindings sensitive g = .ok r g' → Built g'

/-- Compiling keeps a graph sound. -/
theorem Grammar.sound_compile {g g' : Graph} {dialect : Pattern.Dialect} {text : String}
    {bindings : List ParserId} {sensitive : Bool} {r : Except GrammarError Compilation}
    (hsound : g.Sound)
    (h : compile dialect text bindings sensitive g = .ok r g') : g'.Sound := by
  rcases compile_eq_ok h with ⟨error, -, -, rfl⟩ | ⟨ds, -, h⟩
  · exact hsound
  rcases assemble_eq_ok h with ⟨error, -, -, rfl⟩ | ⟨bound, d, hcheck, hbuild, hresult⟩
  · exact hsound
  obtain ⟨hover, -, -⟩ := Draft.build_spec hsound hcheck hbuild
  rcases hresult with ⟨error, -, rfl⟩ | ⟨c, -, rfl⟩
  · exact hover.sound_undone
  · exact hover.sound

/-- **Every graph a program can come to is sound.** -/
theorem Graph.Built.sound {g : Graph} (h : g.Built) : g.Sound := by
  induction h with
  | empty => exact sound_empty
  | insert _ hstep ih => exact (Build.insert_eq_ok ih hstep).1.sound
  | named _ hstep ih =>
    obtain ⟨-, node, hnode, rfl⟩ := Build.named_eq_ok hstep
    exact sound_replace ih hnode _
  | define _ hstep ih => exact sound_define ih hstep
  | setMaxDepth _ ih => exact sound_setMaxDepth ih _
  | cleanup _ ih => exact sound_cleanupFrom ih _ _
  | compile _ hstep ih => exact Grammar.sound_compile ih hstep

namespace Grammar

/-- Definitions that are rejected leave nothing behind. -/
theorem assemble_error_invisible {g g' : Graph} {ds : List Definition} {bindings : List ParserId}
    {sensitive : Bool} {error : GrammarError} (hsound : g.Sound)
    (h : assemble ds bindings sensitive g = .ok (.error error) g') :
    g'.live = g.live ∧ g'.maxDepth = g.maxDepth ∧ (∀ id, g'.node? id = g.node? id) ∧
      ((∀ v, error ≠ .invalid v) → g' = g) := by
  rcases assemble_eq_ok h with ⟨_, -, -, rfl⟩ | ⟨bound, d, hcheck, hbuild, hresult⟩
  · exact ⟨rfl, rfl, fun _ => rfl, fun _ => rfl⟩
  obtain ⟨hover, hinvalid, -⟩ := Draft.build_spec hsound hcheck hbuild
  rcases hresult with ⟨_, -, rfl⟩ | ⟨c, hc, -⟩
  · obtain ⟨hlive, hdepth, hnode⟩ := hover.undone_restores
    refine ⟨hlive, hdepth, hnode, fun hother => ?_⟩
    obtain ⟨v, hv⟩ := hinvalid error rfl
    exact absurd hv (hother v)
  · exact nomatch hc

/-- **A rejected grammar is invisible**, whether it is a text in any dialect or a list of
definitions. As many nodes live as before, under the same limit, and every id names what it named,
or nothing still. Unless it was rejected for the graph it led to, not even the free slots have
changed. -/
theorem compile_error_invisible {g g' : Graph} {bindings : List ParserId} {sensitive : Bool}
    {error : GrammarError} (hg : g.Built)
    (h : (∃ dialect text, compile dialect text bindings sensitive g = .ok (.error error) g') ∨
      ∃ ds, assemble ds bindings sensitive g = .ok (.error error) g') :
    g'.live = g.live ∧ g'.maxDepth = g.maxDepth ∧ (∀ id, g'.node? id = g.node? id) ∧
      ((∀ v, error ≠ .invalid v) → g' = g) := by
  rcases h with ⟨dialect, text, h⟩ | ⟨ds, h⟩
  · rcases compile_eq_ok h with ⟨_, -, -, rfl⟩ | ⟨ds, -, h⟩
    · exact ⟨rfl, rfl, fun _ => rfl, fun _ => rfl⟩
    · exact assemble_error_invisible hg.sound h
  · exact assemble_error_invisible hg.sound h

/-- A text whose rule starts with itself, and what it states. -/
theorem definitions_leftRecursive : definitions .plain "a:a'x';" =
    .ok (.ok [⟨"a", none, .sequence [.reference "a" ⟨2, 1, 3⟩, .char 'x'], ⟨0, 1, 1⟩⟩]) :=
  definitions_of_states (by decide +kernel)

/-- A graph with one open placeholder. -/
def openRule : Graph := ⟨#[.live 0 ⟨some "a", .rule none⟩], [], 1, 256⟩

/-- The same graph once eight nodes beside the placeholder were released. -/
def openRuleAgain : Graph :=
  { openRule with
    slots := openRule.slots ++ Array.replicate 8 (.free 1)
    free := [8, 7, 6, 5, 4, 3, 2, 1] }

/-- A rule that starts with itself is rejected although it was bound, and leaves its placeholder
open. -/
theorem compile_error_openRule :
    openRule.Built ∧ compile .plain "a:a'x';" [⟨0, 0⟩] false openRule =
        .ok (.error (.invalid (.leftRecursion "a"))) openRuleAgain ∧
      ∀ id, openRuleAgain.node? id = openRule.node? id := by
  have hbuilt : openRule.Built :=
    .named (.insert .empty (rfl : Build.insert (.rule none) Graph.empty = .ok ⟨0, 0⟩
      ⟨#[.live 0 ⟨none, .rule none⟩], [], 1, 256⟩)) (rfl : Build.named ⟨0, 0⟩ "a" _ = _)
  have hcompile : compile .plain "a:a'x';" [⟨0, 0⟩] false openRule =
      .ok (.error (.invalid (.leftRecursion "a"))) openRuleAgain := by
    rw [compile_of_definitions definitions_leftRecursive]
    cbv
  exact ⟨hbuilt, hcompile, (compile_error_invisible hbuilt (.inl ⟨_, _, hcompile⟩)).2.2.1⟩

end Grammar

end ParserGraph
