import ParserGraph.Proofs.Language.Completeness
import ParserGraph.Proofs.Language.Soundness
import ParserGraph.Proofs.Peg.Adequacy
import ParserGraph.Proofs.Run.Failure

/-!
# Recognition — which texts are grammars

A text is read as a grammar exactly when it is the text of a written one, and
its tree is the tree of that. Neither the greedy loops nor the branches that
are there for their errors change this: a written grammar with its names apart
is taken as it is written, and whatever is read was written so.
-/

namespace ParserGraph.Grammar.Language

open Written

/-- What the graph of the language is found to be once it is built. -/
theorem graph_check :
    graph.2.maxDepth = 256 ∧ graph.2.isPlain ∧ graph.2.contains graph.1 ∧
      ∀ id ∈ graph.2.liveIds, ∀ o ∈ graph.2.operands id, graph.2.contains o := by
  decide +kernel

theorem graph_maxDepth : graph.2.maxDepth = 256 := graph_check.1

/-- No operand in the graph of the language was released. -/
theorem graph_closed : graph.2.Closed graph.1 :=
  .of_liveIds graph_check.2.2.2 graph_check.2.2.1

/-- Reading a text does not nest parsers deeper than the language lets it. -/
def Fits (text : String) : Prop :=
  ∀ e, ((graph.2.parse 256) graph.1 (Cursor.start text)).run none ≠ .error (.tooDeep e)

variable {text : String}

/-- **What is read was written**, and its tree is the tree of that. -/
theorem exists_written {t : Tree} (h : parse text = .ok (.ok t)) :
    ∃ s : Source, s.text = text.toList ∧ t = s.tree .start := by
  obtain ⟨p, hlayout, hp⟩ := graph_layout
  obtain ⟨d, hm⟩ := Graph.settles_of_run h
  rw [← hp] at hm
  obtain ⟨s, hread, hend, rfl⟩ := hlayout.grammar_settles_some (Cursor.le_refl _) hm
  refine ⟨s, ?_, rfl⟩
  have hahead := hread.ahead
  rw [hend, List.append_nil] at hahead
  exact hahead.symm

/-- **What is written is read**, with its tree, if its names are apart. -/
theorem parse_written (hfits : Fits text) {s : Source} (hspaced : s.Spaced)
    (htext : s.text = text.toList) : parse text = .ok (.ok (s.tree .start)) := by
  obtain ⟨p, hlayout, hp⟩ := graph_layout
  obtain ⟨outcome, kept, hrun⟩ := Graph.parse_finishes_of_not_tooDeep graph_closed hfits
  have hahead : (Cursor.start text).ahead = s.text ++ [] := by
    rw [htext, List.append_nil]
    rfl
  have hread : (Cursor.start text).Reads s.text ((Cursor.start text).advance s.text.length) :=
    .of_ahead hahead
  have hend : ((Cursor.start text).advance s.text.length).ahead = [] := by
    rw [Cursor.ahead_advance, htext]
    exact List.drop_length
  have htakes := hlayout.takes_grammar hspaced rfl hread hend
  have hmatch := htakes outcome.toMatch ⟨256, none, outcome, kept, hp ▸ hrun, rfl⟩
  cases outcome with
  | failed e => exact nomatch hmatch
  | matched t d =>
    cases hmatch
    rw [← graph_maxDepth] at hrun
    exact Graph.run_eq_matched hrun

/-- **The texts that are read as grammars are those of the written ones**, as long as they fit. -/
theorem parse_iff_written (hfits : Fits text) :
    ((∃ t, parse text = .ok (.ok t)) ↔ ∃ s : Source, s.text = text.toList) ∧
      ((∃ e, parse text = .ok (.error e)) ↔ ¬∃ s : Source, s.text = text.toList) := by
  have hread : (∃ t, parse text = .ok (.ok t)) ↔ ∃ s : Source, s.text = text.toList := by
    constructor
    · rintro ⟨t, ht⟩
      obtain ⟨s, hs, -⟩ := exists_written ht
      exact ⟨s, hs⟩
    · rintro ⟨s, hs⟩
      obtain ⟨s', hspaced, hs'⟩ := s.exists_spaced
      exact ⟨_, parse_written hfits hspaced (hs'.trans hs)⟩
  refine ⟨hread, ?_⟩
  rw [← hread]
  obtain ⟨r, hr⟩ := graph_closed.run_eq_ok text
  constructor
  · rintro ⟨e, he⟩ ⟨t, ht⟩
    exact nomatch he.symm.trans ht
  · intro hnone
    cases r with
    | ok t => exact absurd ⟨t, hr⟩ hnone
    | error e => exact ⟨e, hr⟩

/-- Whether a text is read as a grammar, unless it does not fit. -/
def verdict (text : String) : Option Bool :=
  (((graph.2.parse 256) graph.1 (Cursor.start text)).run none).toOption.map fun r =>
    r.1.toMatch.isSome

theorem fits_of_verdict {b : Bool} (h : verdict text = some b) : Fits text := by
  intro e he
  rw [verdict, he] at h
  exact nomatch h

theorem parse_of_verdict {b : Bool} (h : verdict text = some b) :
    ∃ r, parse text = .ok r ∧ r.isOk = b := by
  unfold verdict at h
  cases hrun : ((graph.2.parse 256) graph.1 (Cursor.start text)).run none with
  | error halt =>
    rw [hrun] at h
    exact nomatch h
  | ok r =>
    obtain ⟨outcome, kept⟩ := r
    rw [hrun] at h
    rw [parse, Graph.run, graph_maxDepth, hrun]
    cases outcome <;> cases kept <;> exact ⟨_, rfl, Option.some.inj h⟩

/-- A statement with its semicolon is a grammar; without it, there is none. -/
theorem parse_iff_written_semicolon :
    Fits "a:'x';" ∧ Fits "a:'x'" ∧ (∃ s : Source, s.text = "a:'x';".toList) ∧
      ¬∃ s : Source, s.text = "a:'x'".toList := by
  have hwith : verdict "a:'x';" = some true := by decide +kernel
  have hwithout : verdict "a:'x'" = some false := by decide +kernel
  have hfits := fits_of_verdict hwith
  have hfits' := fits_of_verdict hwithout
  refine ⟨hfits, hfits', ?_, ?_⟩
  · obtain ⟨r, hr, hok⟩ := parse_of_verdict hwith
    cases r with
    | error e => exact nomatch hok
    | ok t => exact (parse_iff_written hfits).1.1 ⟨t, hr⟩
  · obtain ⟨r, hr, hok⟩ := parse_of_verdict hwithout
    cases r with
    | error e => exact (parse_iff_written hfits').2.1 ⟨e, hr⟩
    | ok t => exact nomatch hok

end ParserGraph.Grammar.Language
