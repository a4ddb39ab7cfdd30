import ParserGraph.Proofs.Grammar.Acceptance
import ParserGraph.Proofs.Grammar.Rollback

/-!
# Refusal — what compiling is never stopped by

A build can go wrong in ways that no text may bring about: a name without a
rule, a node over a parser that does not live, bounds that are not in order, a
placeholder that refuses its body. Each of them is ruled out by a check made
before, in another place: references and names by the checks on definitions,
bounds when a suffix is read, live parsers when they are bound. All that is
left of them is a binding that does not live (`bind_refused`), and it is told
before the graph is touched.
-/

namespace ParserGraph.Grammar

open ParserGraph.Grammar.Language

variable {g : Graph} {bound : RuleTable} {ds : List Definition} {bindings : List ParserId}
  {dialect : Pattern.Dialect} {text : String} {error : GraphError}

/-! ## Which checks refuse -/

/-- **A binding is refused if it is the first that does not live.** -/
theorem bind_refused {ids : List ParserId} (h : bind g bound ids = .error (.refused error)) :
    ∃ front id back, ids = front ++ id :: back ∧ (∀ x ∈ front, g.contains x) ∧
      ¬ g.contains id ∧ error = .released id := by
  induction ids generalizing bound with
  | nil => cases h
  | cons id ids ih =>
    rw [bind] at h
    split at h
    · next hnode =>
      cases h
      exact ⟨[], id, ids, rfl, fun _ hx => absurd hx List.not_mem_nil,
        by rw [Graph.contains, hnode]; exact Bool.false_ne_true, rfl⟩
    · cases h
    · next name kind hnode =>
      split at h
      · cases h
      · obtain ⟨front, dead, back, rfl, hlive, hdead, herror⟩ := ih h
        refine ⟨id :: front, dead, back, rfl, List.forall_mem_cons.2 ⟨?_, hlive⟩, hdead, herror⟩
        exact Graph.contains_iff.2 ⟨_, hnode⟩

/-- A rule that may not be defined is told as a duplicate. -/
theorem checkDefinitions_ne_refused {seen : List String} :
    checkDefinitions g bound seen ds ≠ .error (.refused error) := by
  induction ds generalizing seen with
  | nil =>
    intro h
    cases h
  | cons d ds ih =>
    rw [checkDefinitions]
    split
    · intro h
      cases h
    · exact ih

/-- A reference that leads nowhere is told as an undefined rule. -/
theorem checkReferences_ne_refused : checkReferences bound ds ≠ .error (.refused error) := by
  unfold checkReferences
  dsimp only
  split
  · exact fun h => nomatch h
  · exact fun h => nomatch h

/-- Of all checks, only that on bindings refuses. -/
theorem check_refused (h : check g ds bindings = .error (.refused error)) :
    bind g .empty bindings = .error (.refused error) := by
  unfold check at h
  rcases except_bind_eq_error h with h | ⟨bound, -, h⟩
  · exact h
  rcases except_bind_eq_error h with h | ⟨u, -, h⟩
  · exact absurd h checkDefinitions_ne_refused
  rcases except_bind_eq_error h with h | ⟨u, -, h⟩
  · exact absurd h checkReferences_ne_refused
  · exact nomatch h

/-- What cannot be read is not refused: it is no grammar, or has a fault in it. -/
theorem definitions_ne_refused : definitions dialect text ≠ .ok (.error (.refused error)) := by
  intro h
  obtain ⟨r, hr⟩ := graph_closed.run_eq_ok text
  cases r with
  | error e => exact nomatch h.symm.trans (definitions_of_parse_error hr)
  | ok t =>
    obtain ⟨s, -, rfl⟩ := exists_written hr
    have hfault : s.definitions dialect = .error (.refused error) :=
      Except.ok.inj ((definitions_of_parse hr).symm.trans h)
    obtain ⟨fault, -, he⟩ := Option.map_eq_some_iff.1 ((s.tells dialect _).1 hfault)
    cases fault <;> exact nomatch he

/-! ## The whole compilation -/

/-- Once definitions passed the checks, their rules have placeholders and none of these refuses its
body. -/
theorem Draft.placeholders_bodies (sensitive : Bool) (hsound : g.Sound)
    (hcheck : check g ds bindings = .ok bound) (hordered : ∀ e ∈ ds, e.body.Ordered) :
    ∃ rules d d', Draft.placeholders bound ds ⟨g, none, [], []⟩ = .ok rules d ∧
      Draft.bodies sensitive rules ds d = .ok (.ok ()) d' := by
  obtain ⟨r, d', hbuild⟩ := Draft.build_succeeds sensitive hsound hcheck hordered
  obtain ⟨rules, d, roots, hrules, -, hbodies, -⟩ := Draft.parts_of_build hsound hcheck hbuild
  exact ⟨rules, d, d', hrules, hbodies⟩

/-- Definitions are assembled or rejected, and refused only for a binding that does not live. -/
theorem assemble_total (bindings : List ParserId) (sensitive : Bool) (hsound : g.Sound)
    (hordered : ∀ e ∈ ds, e.body.Ordered) :
    ∃ r g', assemble ds bindings sensitive g = .ok r g' ∧
      ∀ error, r = .error (.refused error) → bind g .empty bindings = .error (.refused error) := by
  cases hcheck : check g ds bindings with
  | error e =>
    unfold assemble
    rw [hcheck]
    refine ⟨_, _, rfl, fun error he => ?_⟩
    cases he
    exact check_refused hcheck
  | ok bound =>
    obtain ⟨d, rules, roots, -, -, hassemble⟩ := assemble_of_check sensitive hsound hcheck hordered
    rw [hassemble]
    unfold Draft.verdict
    split
    · next e hverdict =>
      refine ⟨_, _, rfl, fun error he => ?_⟩
      cases he
      split at hverdict
      · exact nomatch hverdict
      · exact nomatch hverdict
    · exact ⟨_, _, rfl, fun error he => nomatch he⟩

/-- The graph that grammars are read with is the one its constructors make: none of them is refused,
nor is the one body that is given late. -/
theorem grammar_built :
    Language.grammar.run Graph.empty = .ok Language.graph.1 Language.graph.2 := by
  have hok := grammar_isOk
  unfold Language.graph
  cases hrun : Language.grammar.run Graph.empty with
  | ok root g => rfl
  | error m g =>
    rw [hrun] at hok
    exact absurd hok Bool.false_ne_true

/-- **Compiling is never misused.** Whatever a program compiles into its graph, in whatever dialect,
and whatever it binds, the text is compiled or rejected: no rule is looked up that is not in the
table, no node is built over a parser that does not live or between bounds that are not in order,
and the grammar language itself stands. It is refused only for the first binding that does not
live, and no placeholder ever refuses the body it is given. -/
theorem compile_total (hg : g.Built) (dialect : Pattern.Dialect) (text : String)
    (bindings : List ParserId) (sensitive : Bool) :
    Language.grammar.run Graph.empty = .ok Language.graph.1 Language.graph.2 ∧
    (∃ r g', compile dialect text bindings sensitive g = .ok r g' ∧
      ∀ error, r = .error (.refused error) → ∃ front id back, bindings = front ++ id :: back ∧
        (∀ x ∈ front, g.contains x) ∧ ¬ g.contains id ∧ error = .released id) ∧
    ∀ ds bound, definitions dialect text = .ok (.ok ds) → check g ds bindings = .ok bound →
      ∃ rules d d', Draft.placeholders bound ds ⟨g, none, [], []⟩ = .ok rules d ∧
        Draft.bodies sensitive rules ds d = .ok (.ok ()) d' := by
  refine ⟨grammar_built, ?_, fun ds bound hdefs hcheck =>
    Draft.placeholders_bodies sensitive hg.sound hcheck (definitions_ordered hdefs)⟩
  obtain ⟨read, hread⟩ := definitions_succeeds dialect text
  cases read with
  | error e =>
    unfold compile
    rw [hread]
    refine ⟨_, _, rfl, fun error he => ?_⟩
    cases he
    exact absurd hread definitions_ne_refused
  | ok ds =>
    obtain ⟨r, g', hassemble, hrefused⟩ :=
      assemble_total bindings sensitive hg.sound (definitions_ordered hread)
    rw [compile_of_definitions hread]
    exact ⟨r, g', hassemble, fun error he => bind_refused (hrefused error he)⟩

/-- A program can come to a graph with one open placeholder. -/
theorem openRule_built : openRule.Built :=
  .named (.insert .empty (rfl : Build.insert (.rule none) Graph.empty = .ok ⟨0, 0⟩
    ⟨#[.live 0 ⟨none, .rule none⟩], [], 1, 256⟩)) (rfl : Build.named ⟨0, 0⟩ "a" _ = _)

/-- Bound to its placeholder, a rule that goes on with itself is given to it. Bound to two parsers
more that do not live, it is refused for the first of these. -/
theorem compile_total_released :
    openRule.Built ∧
      (∃ rules d d', Draft.placeholders (RuleTable.empty.insert "a" ⟨0, 0⟩)
          [⟨"a", none, .alternation [.sequence [.char 'x', .reference "a" ⟨5, 1, 6⟩], .char 'y'],
            ⟨0, 1, 1⟩⟩] ⟨openRule, none, [], []⟩ = .ok rules d ∧
        Draft.bodies false rules
          [⟨"a", none, .alternation [.sequence [.char 'x', .reference "a" ⟨5, 1, 6⟩], .char 'y'],
            ⟨0, 1, 1⟩⟩] d = .ok (.ok ()) d') ∧
      compile .plain "a:'x'a|'y';" [⟨0, 0⟩, ⟨7, 0⟩, ⟨8, 0⟩] false openRule =
        .ok (.error (.refused (.released ⟨7, 0⟩))) openRule ∧
      ∃ front back, [⟨0, 0⟩, ⟨7, 0⟩, ⟨8, 0⟩] = front ++ ⟨7, 0⟩ :: back ∧
        ∀ x ∈ front, openRule.contains x := by
  obtain ⟨-, -, hbodies⟩ := compile_total openRule_built .plain "a:'x'a|'y';" [⟨0, 0⟩] false
  have hgiven := hbodies _ (RuleTable.empty.insert "a" ⟨0, 0⟩) definitions_recursive rfl
  obtain ⟨-, ⟨r, g', hcompile, hrefused⟩, -⟩ :=
    compile_total openRule_built .plain "a:'x'a|'y';" [⟨0, 0⟩, ⟨7, 0⟩, ⟨8, 0⟩] false
  have hresult : compile .plain "a:'x'a|'y';" [⟨0, 0⟩, ⟨7, 0⟩, ⟨8, 0⟩] false openRule =
      .ok (.error (.refused (.released ⟨7, 0⟩))) openRule := by
    rw [compile_of_definitions definitions_recursive]
    rfl
  cases hcompile.symm.trans hresult
  obtain ⟨front, id, back, hsplit, hlive, -, he⟩ := hrefused _ rfl
  cases he
  exact ⟨openRule_built, hgiven, hresult, front, back, hsplit, hlive⟩

end ParserGraph.Grammar
