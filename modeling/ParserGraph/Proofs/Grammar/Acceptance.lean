import ParserGraph.Proofs.Grammar.Pairing
import ParserGraph.Proofs.Grammar.WellFormed
import ParserGraph.Proofs.Language.Definitions

/-!
# Acceptance — a grammar is accepted or rejected for what it says

Neither the graph that a grammar is compiled into nor whether white space
counts plays a part in what becomes of it. That definitions are well-formed is
what it takes where white space counts (`assemble_accepts_iff`); where it does
not, the nodes that skip white space change neither the verdict nor the error
(`assemble_insensitive`). A text is read the same way for both, so it is
accepted for both if it states well-formed definitions, and rejected for both
with the same error if it does not (`compile_accepts_wellFormed`).
-/

namespace ParserGraph.Grammar

variable {ds : List Definition} {dialect : Pattern.Dialect} {text : String}

/-- Every text is read: as definitions, or as an error. -/
theorem definitions_succeeds (dialect : Pattern.Dialect) (text : String) :
    ∃ r, definitions dialect text = .ok r := by
  obtain ⟨r, hr⟩ := Language.graph_closed.run_eq_ok text
  have hparse : Language.parse text = .ok r := hr
  rw [definitions, hparse]
  cases r with
  | error e => exact ⟨_, rfl⟩
  | ok t => exact ⟨_, rfl⟩

/-- What definitions without bindings come to, once where white space counts and once where it does
not: they are rejected for the same, or accepted with rules of the same names; and they are accepted
if they are well-formed. -/
theorem assemble_both {g g' : Graph} (hg : g.Sound) (hg' : g'.Sound)
    (hordered : ∀ d ∈ ds, d.body.Ordered) :
    ∃ r r' g₁ g₁', assemble ds [] true g = .ok r g₁ ∧ assemble ds [] false g' = .ok r' g₁' ∧
      r.map (fun c => (c.table.names, c.pending)) =
        r'.map (fun c => (c.table.names, c.pending)) ∧
      ((∃ c, r = .ok c) ↔ WellFormed ds) := by
  obtain ⟨r, r', g₁, g₁', hassemble, hassemble', hsame⟩ := assemble_insensitive hg hg' hordered
  refine ⟨r, r', g₁, g₁', hassemble, hassemble', hsame, ?_⟩
  rw [← assemble_accepts_iff hg hordered, hassemble]
  constructor
  · rintro ⟨c, rfl⟩
    exact ⟨c, g₁, rfl⟩
  · rintro ⟨c, g₂, hresult⟩
    cases hresult
    exact ⟨c, rfl⟩

/-- **What is accepted is told by how it is written.** Without bindings, definitions whose bounds are
in order, as those of all texts are, are accepted if they are well-formed and no others, and a text
is accepted if it states such definitions. This is so whether or not white space counts and whatever
graphs they are compiled into: where one compilation accepts, the other does, with rules of the same
names; and where one rejects, the other rejects for the same error, with the same name and the same
place. -/
theorem compile_accepts_wellFormed {g g' : Graph} (hg : g.Built) (hg' : g'.Built) :
    (∀ ds : List Definition, (∀ d ∈ ds, d.body.Ordered) →
      ∃ r r' g₁ g₁', assemble ds [] true g = .ok r g₁ ∧ assemble ds [] false g' = .ok r' g₁' ∧
        r.map (fun c => (c.table.names, c.pending)) =
          r'.map (fun c => (c.table.names, c.pending)) ∧
        ((∃ c, r = .ok c) ↔ WellFormed ds)) ∧
    ∀ (dialect : Pattern.Dialect) (text : String),
      ∃ r r' g₁ g₁', compile dialect text [] true g = .ok r g₁ ∧
        compile dialect text [] false g' = .ok r' g₁' ∧
        r.map (fun c => (c.table.names, c.pending)) =
          r'.map (fun c => (c.table.names, c.pending)) ∧
        ((∃ c, r = .ok c) ↔ ∃ ds, definitions dialect text = .ok (.ok ds) ∧ WellFormed ds) := by
  refine ⟨fun ds hordered => assemble_both hg.sound hg'.sound hordered, fun dialect text => ?_⟩
  obtain ⟨read, hread⟩ := definitions_succeeds dialect text
  cases read with
  | error e =>
    -- what cannot be read is rejected before a graph is looked at
    unfold compile
    rw [hread]
    refine ⟨_, _, _, _, rfl, rfl, rfl, ?_⟩
    exact ⟨fun ⟨_, haccepted⟩ => (nomatch haccepted), fun ⟨_, hdefs, _⟩ => (nomatch hdefs)⟩
  | ok ds =>
    obtain ⟨r, r', g₁, g₁', hassemble, hassemble', hsame, haccepts⟩ :=
      assemble_both hg.sound hg'.sound (definitions_ordered hread)
    rw [compile_of_definitions hread, compile_of_definitions hread]
    refine ⟨r, r', g₁, g₁', hassemble, hassemble', hsame, haccepts.trans ?_⟩
    rw [hread]
    exact ⟨fun hds => ⟨ds, rfl, hds⟩, fun ⟨_, heq, hds⟩ => by cases heq; exact hds⟩

/-- A rule that begins with itself is rejected, and its four nodes are released. -/
theorem compile_leftRecursive : compile .plain "a:a'x';" [] true Graph.empty =
    .ok (.error (.invalid (.leftRecursion "a")))
      ⟨Array.replicate 4 (.free 1), [3, 2, 1, 0], 0, 256⟩ := by
  rw [compile_of_definitions definitions_leftRecursive]
  cbv

/-- A rule that goes on with itself is well-formed, and so it is accepted where white space counts,
as it is where it does not. A rule that begins with itself is not, and the same is said of it where
white space does not count. -/
theorem compile_accepts_wellFormed_recursive :
    Graph.empty.Built ∧
      WellFormed [⟨"a", none,
        .alternation [.sequence [.char 'x', .reference "a" ⟨5, 1, 6⟩], .char 'y'], ⟨0, 1, 1⟩⟩] ∧
      (∃ c g₁, compile .plain "a:'x'a|'y';" [] true Graph.empty = .ok (.ok c) g₁ ∧
        c.table.names = ["a"]) ∧
      ¬ WellFormed [⟨"a", none, .sequence [.reference "a" ⟨2, 1, 3⟩, .char 'x'], ⟨0, 1, 1⟩⟩] ∧
      ∃ g₁, compile .plain "a:a'x';" [] false Graph.empty =
        .ok (.error (.invalid (.leftRecursion "a"))) g₁ := by
  obtain ⟨-, hboth⟩ := compile_accepts_wellFormed .empty .empty
  obtain ⟨r, r', g₁, g₁', hcompile, hcompile', hsame, haccepts⟩ := hboth .plain "a:'x'a|'y';"
  obtain ⟨s, s', k₁, k₁', hrejected, hrejected', hsame', hrejects⟩ := hboth .plain "a:a'x';"
  cases hcompile'.symm.trans compile_recursive
  cases hrejected.symm.trans compile_leftRecursive
  obtain ⟨c, rfl⟩ : ∃ c, r = .ok c := by
    cases r with
    | error e => exact nomatch hsame
    | ok c => exact ⟨c, rfl⟩
  obtain rfl : s' = .error (.invalid (.leftRecursion "a")) := by
    cases s' with
    | error e => exact congrArg Except.error (Except.error.inj hsame').symm
    | ok c => exact nomatch hsame'
  refine ⟨.empty, ?_, ⟨c, g₁, hcompile, ?_⟩, fun hds => ?_, k₁', hrejected'⟩
  · obtain ⟨ds, hdefs, hds⟩ := haccepts.1 ⟨c, rfl⟩
    cases hdefs.symm.trans definitions_recursive
    exact hds
  · exact congrArg Prod.fst (Except.ok.inj hsame)
  · obtain ⟨c', hc'⟩ := hrejects.2 ⟨_, definitions_leftRecursive, hds⟩
    exact nomatch hc'

end ParserGraph.Grammar
