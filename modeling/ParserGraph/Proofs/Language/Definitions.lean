import ParserGraph.Proofs.Language.Reading
import ParserGraph.Proofs.Language.Recognition

/-!
# Definitions — reading a grammar undoes writing it

However a grammar is written, it is read as the definitions it states or as
the first fault in it. Any other text is rejected for an error of the parser,
and neither kind of rejection says that a part of the tree is missing: there
is always the tree of a written grammar to be read, and no error of the
language's parsers has such a message.
-/

namespace ParserGraph.Grammar.Language

open Written

variable {dialect : Pattern.Dialect} {text : String}

/-- A text with a tree states what the grammar it was written as states. -/
theorem definitions_of_parse {s : Source} (h : parse text = .ok (.ok (s.tree .start))) :
    definitions dialect text = .ok (s.definitions dialect) := by
  rw [definitions, h, ← s.definitions_tree]
  rfl

/-- A text without one is rejected for the error of the parser. -/
theorem definitions_of_parse_error {e : ParseError} (h : parse text = .ok (.error e)) :
    definitions dialect text = .ok (.error (.unreadable e)) := by
  rw [definitions, h]
  rfl

/-- No error of the language's parsers is that something is missing. -/
theorem unreadable_ne_missing {e : ParseError} (h : parse text = .ok (.error e)) (t : Tree)
    (what : String) : GrammarError.unreadable e ≠ missing t what := by
  intro he
  have hmessage : e.failure = some ("malformed grammar: missing " ++ what) :=
    congrArg ParseError.failure (GrammarError.unreadable.inj he)
  rcases Graph.run_error graph_check.2.1 h with hplain | ⟨c, rfl⟩
  · exact nomatch hmessage.symm.trans hplain
  · have hfirst := congrArg (fun s => s.toList.head?) (Option.some.inj hmessage)
    simp at hfirst

/-- What statements define bears their names. -/
theorem exists_name_of_statements {statements : List Statement} {p : Position}
    {ds : List Definition} (h : statementsDefinitions dialect statements p = .ok ds) :
    ∀ d ∈ ds, ∃ n : Name, d.name = String.ofList n.text := by
  induction statements generalizing p ds with
  | nil =>
    cases h
    exact fun _ hd => absurd hd List.not_mem_nil
  | cons s statements ih =>
    obtain ⟨d, hd, h⟩ := except_bind_eq_ok h
    obtain ⟨ds', hds, h⟩ := except_bind_eq_ok h
    obtain ⟨body, -, hd⟩ := except_bind_eq_ok hd
    cases hd
    cases h
    exact List.forall_mem_cons.2 ⟨⟨s.name, rfl⟩, ih hds⟩

/-- **The definitions of a text bear names that the language has.** -/
theorem exists_name_of_definitions {ds : List Definition}
    (h : definitions dialect text = .ok (.ok ds)) :
    ∀ d ∈ ds, ∃ n : Name, d.name = String.ofList n.text := by
  obtain ⟨r, hr⟩ := graph_closed.run_eq_ok text
  cases r with
  | error e => exact nomatch h.symm.trans (definitions_of_parse_error hr)
  | ok t =>
    obtain ⟨s, -, rfl⟩ := exists_written hr
    have hstated : s.definitions dialect = .ok ds :=
      Except.ok.inj ((definitions_of_parse hr).symm.trans h)
    exact exists_name_of_statements hstated

/-- **Reading a grammar undoes writing it.** A text that a grammar with its names apart was written
as, and that fits, is read as what the grammar states: its definitions, or the error that tells the
first fault in the text. And whatever the text, no error says that a part of the grammar is missing
or that bounds are malformed. This is so in every dialect of regular expressions. -/
theorem definitions_eq_stated (dialect : Pattern.Dialect) (text : String) :
    (∀ s : Source, s.Spaced → s.text = text.toList → Fits text →
      definitions dialect text = .ok (s.definitions dialect) ∧
        ∀ e, s.definitions dialect = .error e ↔
          (s.faults dialect).head?.map Fault.error = some e) ∧
    ∃ r, definitions dialect text = .ok r ∧ ∀ e, r = .error e →
      (∀ t what, e ≠ missing t what) ∧ ∀ p, e ≠ .invalidRepetition p .malformed := by
  refine ⟨fun s hspaced htext hfits => ?_, ?_⟩
  · exact ⟨definitions_of_parse (parse_written hfits hspaced htext), s.tells dialect⟩
  obtain ⟨r, hr⟩ := graph_closed.run_eq_ok text
  cases r with
  | error e =>
    refine ⟨_, definitions_of_parse_error hr, fun e' he' => ?_⟩
    cases he'
    exact ⟨unreadable_ne_missing hr, fun p h => nomatch h⟩
  | ok t =>
    obtain ⟨s, -, rfl⟩ := exists_written hr
    refine ⟨_, definitions_of_parse hr, fun e he => ?_⟩
    obtain ⟨fault, -, rfl⟩ := Option.map_eq_some_iff.1 ((s.tells dialect e).1 he)
    exact ⟨fault.error_ne_missing, fault.error_ne_malformed⟩

/-- Nothing between two tokens. -/
def noBlanks : Blanks := ⟨[], fun _ h => nomatch h⟩

/-- A name of one letter. -/
def aLetter (c : Char) (h : isNameStart c = true) : Name := ⟨c, [], h, fun _ h => nomatch h⟩

/-- A number of one digit. -/
def aDigit (c : Char) (h : c.isDigit = true) : Number := ⟨c, [], List.forall_mem_singleton.2 h⟩

/-- A rule for a newline and then, two or three times, another rule. -/
def newlineSource : Source where
  opening := noBlanks
  statements := [{
    name := aLetter 'a' (by decide)
    afterName := noBlanks
    label := none
    colon := noBlanks
    body := .mk
      (.cons (.mk (.char ⟨[.escaped 'n']⟩ noBlanks) none)
        (.cons (.mk (.angled noBlanks (aLetter 'b' (by decide)) noBlanks noBlanks)
          (some (.between noBlanks (aDigit '2' (by decide)) noBlanks noBlanks
            (aDigit '3' (by decide)) noBlanks noBlanks))) .nil)) .nil
    semicolon := noBlanks }]

/-- It is read with the newline it means, the bounds and the place of the reference. -/
theorem definitions_eq_stated_newline :
    newlineSource.Spaced ∧ newlineSource.text = "a:'\\n'<b>\x7b2,3\x7d;".toList ∧
      Fits "a:'\\n'<b>\x7b2,3\x7d;" ∧
      definitions .plain "a:'\\n'<b>\x7b2,3\x7d;" = .ok (.ok [⟨"a", none, .sequence [.char '\n',
        .repetition (.reference "b" ⟨7, 1, 8⟩) 2 (some 3)], ⟨0, 1, 1⟩⟩]) := by
  have hspaced : newlineSource.Spaced := by
    simp [newlineSource, Source.Spaced, Alternatives.Spaced, Branches.Spaced, Sequence.Spaced,
      Factor.Spaced, Base.Spaced, Factor.isOpen, Sequence.isBare]
  have htext : newlineSource.text = "a:'\\n'<b>\x7b2,3\x7d;".toList := by decide
  have hfits : Fits "a:'\\n'<b>\x7b2,3\x7d;" := fits_of_verdict (b := true) (by decide +kernel)
  refine ⟨hspaced, htext, hfits, ?_⟩
  obtain ⟨hread, -⟩ := (definitions_eq_stated .plain _).1 _ hspaced htext hfits
  rw [hread]
  rfl

end ParserGraph.Grammar.Language
