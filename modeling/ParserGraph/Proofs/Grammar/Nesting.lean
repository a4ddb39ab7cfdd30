import ParserGraph.Proofs.Grammar.Rollback
import ParserGraph.Proofs.Validation.Nesting

/-!
# How deep runs nest — from valid graphs to compiled grammars

A grammar that is compiled without bindings leads to a graph that is valid
from its rules, and its rules refer to nodes of the grammar only, so nothing
in their reach can have been released (`compile_valid`). What validation
promises about nesting therefore holds of every rule.
-/

namespace ParserGraph

namespace Grammar

/-- A node that a draft without bindings added refers to nodes it added, and so on. -/
theorem Draft.Over.closed {base : Graph} {d : Draft} (h : d.Over base []) {id : ParserId}
    (hid : id ∈ d.created) : d.graph.Closed id := by
  refine Graph.Closed.of_forall (S := fun o => o ∈ d.created) h.created_live ?_ hid
  intro q hq o ho
  exact (h.operands_known q hq o ho).resolve_right List.not_mem_nil

/-- **Definitions assembled without bindings are valid from their rules**, and no operand in their
reach was released. -/
theorem assemble_valid {g g' : Graph} {ds : List Definition} {sensitive : Bool} {c : Compilation}
    (hsound : g.Sound) (h : assemble ds [] sensitive g = .ok (.ok c) g') :
    ∃ roots, g'.validate roots = .ok () ∧
      ∀ name id, c.table.get? name = some id → id ∈ g'.reachable roots ∧ g'.Closed id := by
  obtain ⟨d, rfl, hover, hcomplete⟩ := assemble_nil_eq_ok hsound h
  obtain ⟨roots, hvalid, hroots⟩ := hcomplete.valid
  refine ⟨roots, hvalid, fun name id hget => ?_⟩
  have hclosed : d.graph.Closed id := hover.closed (hcomplete.mem_created hget)
  have hroot : id ∈ roots := by
    obtain ⟨e, he, rfl⟩ := hcomplete.exists_definition hget
    exact hroots e he id hget
  exact ⟨Graph.mem_reachable.2 ⟨id, hroot, .refl hclosed.1⟩, hclosed⟩

/-- So is a grammar. -/
theorem compile_valid {g g' : Graph} {dialect : Pattern.Dialect} {text : String} {sensitive : Bool}
    {c : Compilation} (hsound : g.Sound)
    (h : compile dialect text [] sensitive g = .ok (.ok c) g') :
    ∃ roots, g'.validate roots = .ok () ∧
      ∀ name id, c.table.get? name = some id → id ∈ g'.reachable roots ∧ g'.Closed id := by
  obtain ⟨ds, -, hassemble⟩ := assemble_of_compile h
  exact assemble_valid hsound hassemble

end Grammar

namespace Graph

/-- Runs of a parser over an input nest at most so many calls, and with room for as many are not
stopped by the nesting limit. -/
def NestsWithin (g : Graph) (p : ParserId) (input : String) (bound : Nat) : Prop :=
  (∀ n, g.Nests p (Cursor.start input) n → n ≤ bound) ∧
    ∀ room, bound ≤ room → ∀ kept e,
      ((g.parse room) p (Cursor.start input)).run kept ≠ .error (.tooDeep e)

/-- A bound on nested calls is room enough. -/
theorem nestsWithin_of_forall {g : Graph} {p : ParserId} {input : String} {bound : Nat}
    (h : ∀ n, g.Nests p (Cursor.start input) n → n ≤ bound) : g.NestsWithin p input bound := by
  refine ⟨h, fun room hroom kept e hrun => ?_⟩
  have hle := h _ (nests_of_tooDeep hrun)
  omega

/-- In a valid graph, runs nest no deeper than parsers in reach times places of the input. -/
theorem nestsWithin_of_validate {g : Graph} {roots : List ParserId} {p : ParserId}
    (hvalid : g.validate roots = .ok ()) (hp : p ∈ g.reachable roots) (hclosed : g.Closed p)
    (hpattern : ∀ q ∈ g.reachable [p], ∀ kind, g.kind? q = some kind → kind.KnowsEmpty)
    (input : String) : g.NestsWithin p input ((g.reachable [p]).length * (input.length + 1)) := by
  refine nestsWithin_of_forall fun n hn => ?_
  have hpattern' : ∀ q, g.Leads p q → ∀ kind, g.kind? q = some kind → kind.KnowsEmpty :=
    fun q hq => hpattern q (mem_reachable.2 ⟨p, List.mem_singleton_self p, hq⟩)
  exact hn.le_of_validate hvalid hp hclosed hpattern'

/-- In reach of a rule that was assembled without bindings as well. -/
theorem nestsWithin_of_assemble {g g' : Graph} {ds : List Grammar.Definition} {sensitive : Bool}
    {c : Compilation} (hsound : g.Sound)
    (h : Grammar.assemble ds [] sensitive g = .ok (.ok c) g') {name : String} {id : ParserId}
    (hget : c.table.get? name = some id)
    (hpattern : ∀ q ∈ g'.reachable [id], ∀ kind, g'.kind? q = some kind → kind.KnowsEmpty)
    (input : String) :
    g'.NestsWithin id input ((g'.reachable [id]).length * (input.length + 1)) := by
  obtain ⟨roots, hvalid, hrules⟩ := Grammar.assemble_valid hsound h
  obtain ⟨hid, hclosed⟩ := hrules name id hget
  exact nestsWithin_of_validate hvalid hid hclosed hpattern input

/-- **Validation bounds nesting.** From a parser in reach of the roots of a valid graph, and with no
released operand in its own reach, a run nests at most as many calls as there are parsers in its
reach times places in the input, and is never stopped with room for as many. This holds of every
rule of a grammar compiled without bindings, in any dialect, and of every list of definitions.
Patterns have to know whether they match nothing. -/
theorem nesting_bounded :
    (∀ (g : Graph) (roots : List ParserId) (p : ParserId), g.validate roots = .ok () →
      p ∈ g.reachable roots → g.Closed p →
      (∀ q ∈ g.reachable [p], ∀ kind, g.kind? q = some kind → kind.KnowsEmpty) →
      ∀ input : String, g.NestsWithin p input ((g.reachable [p]).length * (input.length + 1))) ∧
    (∀ (g g' : Graph) (ds : List Grammar.Definition) (sensitive : Bool) (c : Compilation),
      g.Built → Grammar.assemble ds [] sensitive g = .ok (.ok c) g' →
      ∀ name id, c.table.get? name = some id →
        (∀ q ∈ g'.reachable [id], ∀ kind, g'.kind? q = some kind → kind.KnowsEmpty) →
        ∀ input : String,
          g'.NestsWithin id input ((g'.reachable [id]).length * (input.length + 1))) ∧
    ∀ (g g' : Graph) (dialect : Pattern.Dialect) (text : String) (sensitive : Bool)
      (c : Compilation), g.Built → Grammar.compile dialect text [] sensitive g = .ok (.ok c) g' →
      ∀ name id, c.table.get? name = some id →
        (∀ q ∈ g'.reachable [id], ∀ kind, g'.kind? q = some kind → kind.KnowsEmpty) →
        ∀ input : String,
          g'.NestsWithin id input ((g'.reachable [id]).length * (input.length + 1)) := by
  refine ⟨fun g roots p hvalid hp hclosed hpattern input =>
    nestsWithin_of_validate hvalid hp hclosed hpattern input, ?_, ?_⟩
  · intro g g' ds sensitive c hbuilt hassemble name id hget hpattern input
    exact nestsWithin_of_assemble hbuilt.sound hassemble hget hpattern input
  · intro g g' dialect text sensitive c hbuilt hcompile name id hget hpattern input
    obtain ⟨ds, -, hassemble⟩ := Grammar.assemble_of_compile hcompile
    exact nestsWithin_of_assemble hbuilt.sound hassemble hget hpattern input

/-- A graph without a pattern has nothing to know about patterns. -/
theorem knowsEmpty_recursive {q : ParserId} {kind : Kind}
    (h : Grammar.recursiveGraph.kind? q = some kind) : kind.KnowsEmpty := by
  obtain ⟨node, hnode, rfl⟩ := Option.map_eq_some_iff.1 h
  intro p hp
  have hslot := Array.mem_of_getElem? (node?_eq_some_iff.1 hnode)
  obtain ⟨name, kind⟩ := node
  cases hp
  simp [Grammar.recursiveGraph] at hslot

/-- A recursive rule nests no more than thirteen parsers at each place. -/
theorem nesting_bounded_recursive :
    Grammar.recursiveGraph.validate [⟨0, 0⟩] = .ok () ∧ Grammar.recursiveGraph.Closed ⟨0, 0⟩ ∧
      Graph.empty.Built ∧ Grammar.compile .plain "a:'x'a|'y';" [] false Graph.empty =
        .ok (.ok ⟨RuleTable.empty.insert "a" ⟨0, 0⟩, []⟩) Grammar.recursiveGraph ∧
      Grammar.recursiveGraph.NestsWithin ⟨0, 0⟩ "xxy" (13 * 4) ∧
      Grammar.recursiveGraph.NestsWithin ⟨0, 0⟩ "xy" (13 * 3) := by
  have hvalid : Grammar.recursiveGraph.validate [⟨0, 0⟩] = .ok () := by cbv
  have hreach : (Grammar.recursiveGraph.reachable [⟨0, 0⟩]).length = 13 := by cbv
  obtain ⟨roots, -, hrules⟩ := Grammar.compile_valid sound_empty Grammar.compile_recursive
  obtain ⟨-, hclosed⟩ := hrules "a" ⟨0, 0⟩ rfl
  have hroot : ⟨0, 0⟩ ∈ Grammar.recursiveGraph.reachable [⟨0, 0⟩] :=
    mem_reachable.2 ⟨⟨0, 0⟩, List.mem_singleton_self _, .refl hclosed.1⟩
  have hfirst := nesting_bounded.1 Grammar.recursiveGraph [⟨0, 0⟩] ⟨0, 0⟩ hvalid hroot hclosed
    (fun _ _ _ => knowsEmpty_recursive) "xxy"
  have hsecond := nesting_bounded.2.2 Graph.empty Grammar.recursiveGraph _ _ false _ .empty
    Grammar.compile_recursive "a" ⟨0, 0⟩ rfl (fun _ _ _ => knowsEmpty_recursive) "xy"
  rw [hreach] at hfirst hsecond
  exact ⟨hvalid, hclosed, .empty, Grammar.compile_recursive, hfirst, hsecond⟩

end Graph

end ParserGraph
