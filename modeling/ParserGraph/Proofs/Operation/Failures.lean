import ParserGraph.Proofs.Operation.Bounds
import ParserGraph.Proofs.Run.Explanation

/-!
# Failures — what the errors of a program's runs come from

In a graph that a program came to all bounds are in order, so every error that
a run of one of its parsers ends with is explained by the calls of the run
(`Graph.run_explained`). A run that nested too deep is the exception; its
error tells nothing but that.
-/

namespace ParserGraph.Operation

/-- **Every item is honest and every failure is explained.** A run that fails, and not for nesting
too deep, tells an error whose items were each expected by a call that failed right there: of a
terminal, of an expectation with that label or of a negated lookahead, and not inside of another
expectation or negated lookahead. Its message comes from a parser that fails with it, or from a
placeholder without a body, in the same way. Unless the parser leads to an alternation of nothing,
the error has an item or a message. -/
theorem runAll_failures_explained (ops : List Operation) (hops : ∀ op ∈ ops, op.Offered)
    (id : ParserId) (input : String) (e : ParseError)
    (hrun : (runAll ops).run id input = .ok (.error e))
    (hstopped : ¬ (runAll ops).Stopped id input) :
    ∃ o r, (runAll ops).traced id input = .ok (o, r) ∧ Runner.verdict (o, r) = .error e ∧
      (∀ item ∈ e.expected, ∃ visit,
        (runAll ops).FailedAt r.turns e.position visit ∧ (runAll ops).Expects visit.id item) ∧
      (∀ message, e.failure = some message → ∃ visit,
        (runAll ops).FailedAt r.turns e.position visit ∧
          (runAll ops).FailsWith visit.id message) ∧
      ((∀ q, (runAll ops).Leads id q → (runAll ops).kind? q ≠ some (.alternation [])) →
        (∃ item, item ∈ e.expected) ∨ e.failure.isSome) := by
  obtain ⟨o, r, htraced, hexplained⟩ :=
    Graph.run_explained (ordered_runAll hops) hrun hstopped
  have hverdict : Runner.verdict (o, r) = .error e := by
    rw [Graph.run_eq_traced, htraced] at hrun
    exact Except.ok.inj hrun
  exact ⟨o, r, htraced, hverdict, hexplained.expected, hexplained.failure, hexplained.telling⟩

/-- The optional got past the start before it was given up on, so the run tells what was expected
inside of it; a character that failed there expected it. -/
theorem runAll_failures_explained_retreat :
    (∀ op ∈ retreat, op.Offered) ∧
    (runAll retreat).run ⟨6, 0⟩ "é\nc" = .ok (.error (.expecting ⟨3, 2, 1⟩ "'b'" (some 'c'))) ∧
    ¬ (runAll retreat).Stopped ⟨6, 0⟩ "é\nc" ∧
    ∃ o r visit, (runAll retreat).traced ⟨6, 0⟩ "é\nc" = .ok (o, r) ∧
      (runAll retreat).FailedAt r.turns ⟨3, 2, 1⟩ visit ∧
      (runAll retreat).Expects visit.id "'b'" := by
  have hops : ∀ op ∈ retreat, op.Offered := by
    simp [retreat, Offered]
  have hrun : (runAll retreat).run ⟨6, 0⟩ "é\nc" =
      .ok (.error (.expecting ⟨3, 2, 1⟩ "'b'" (some 'c'))) := rfl
  have hstopped : ¬ (runAll retreat).Stopped ⟨6, 0⟩ "é\nc" := by
    rintro ⟨o, r, e, htraced, hr⟩
    have hend : ∃ o r, (runAll retreat).traced ⟨6, 0⟩ "é\nc" = .ok (o, r) ∧ r.stopped = none :=
      ⟨_, _, rfl, rfl⟩
    obtain ⟨o', r', htraced', hr'⟩ := hend
    cases htraced.symm.trans htraced'
    cases hr.symm.trans hr'
  obtain ⟨o, r, htraced, -, hexpected, -, -⟩ :=
    runAll_failures_explained retreat hops ⟨6, 0⟩ "é\nc" _ hrun hstopped
  obtain ⟨visit, hvisit, hexpects⟩ := hexpected "'b'" (ItemSet.mem_singleton.2 rfl)
  exact ⟨hops, hrun, hstopped, o, r, visit, htraced, hvisit, hexpects⟩

end ParserGraph.Operation
