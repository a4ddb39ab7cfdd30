import ParserGraph.Grammar.Language

/-!
# Written grammars — the texts of the grammar language

A written grammar is a text of the language together with the way it reads:
what each token is, how long the blanks after it are, and how tokens make up
statements. Its text is what is written (`Source.text`), and a text belongs to
the language when some written grammar has it. Two bare names with nothing
between them would read as one, so such names are told apart from spaced ones
(`Spaced`); taking them for one name leaves the text as it is
(`Source.exists_spaced`).
-/

namespace ParserGraph.Grammar

namespace Written

/-! ## Tokens -/

/-- Whether a character separates tokens. -/
def isBlank (c : Char) : Bool := [' ', '\t', '\r', '\n', '\x0b', '\x0c'].contains c

/-- Any number of blanks. -/
structure Blanks where
  text : List Char
  blank : ∀ c ∈ text, isBlank c = true

/-- A name: a letter or underscore, then letters, digits and underscores. -/
structure Name where
  first : Char
  others : List Char
  start : (first.isAlpha || first = '_') = true
  part : ∀ c ∈ others, (c.isAlphanum || c = '_') = true

/-- The characters of a name. -/
def Name.text (n : Name) : List Char := n.first :: n.others

/-- A number: one digit or more. -/
structure Number where
  first : Char
  others : List Char
  digit : ∀ c ∈ first :: others, c.isDigit = true

/-- The digits of a number. -/
def Number.text (n : Number) : List Char := n.first :: n.others

/-- A piece of the text between two marks. -/
inductive Piece (mark : Char) where
  /-- A character that stands for itself. -/
  | plain (c : Char) (notMark : c ≠ mark) (notBackslash : c ≠ '\\')
  /-- A backslash and the character it takes along. -/
  | escaped (c : Char)

/-- The characters of a piece. -/
def Piece.text {mark : Char} : Piece mark → List Char
  | plain c _ _ => [c]
  | escaped c => ['\\', c]

/-- The characters of several pieces. -/
def piecesText {mark : Char} (pieces : List (Piece mark)) : List Char := pieces.flatMap Piece.text

/-- Text between two marks. -/
structure Quoted (mark : Char) where
  pieces : List (Piece mark)

/-- The characters of a quoted text, with its marks. -/
def Quoted.text {mark : Char} (q : Quoted mark) : List Char :=
  mark :: (piecesText q.pieces ++ [mark])

/-- An operator that may follow a factor. -/
inductive Operator where
  /-- Any number of times. -/
  | star
  /-- At least once. -/
  | plus
  /-- Once or not at all. -/
  | question
  /-- Not at all. -/
  | bang

/-- The character of an operator. -/
def Operator.char : Operator → Char
  | star => '*'
  | plus => '+'
  | question => '?'
  | bang => '!'

/-- What may follow a factor, with the blanks after each token. -/
inductive Suffix where
  | operator (op : Operator) (after : Blanks)
  /-- A count in braces. -/
  | exactly (opening : Blanks) (n : Number) (afterNumber closing : Blanks)
  /-- A lower bound in braces. -/
  | atLeast (opening : Blanks) (n : Number) (afterNumber comma closing : Blanks)
  /-- Two bounds in braces. -/
  | between (opening : Blanks) (low : Number) (afterLow comma : Blanks) (high : Number)
      (afterHigh closing : Blanks)

/-- The characters of a suffix. -/
def Suffix.text : Suffix → List Char
  | operator op after => op.char :: after.text
  | exactly opening n afterNumber closing =>
    '\x7b' :: opening.text ++ (n.text ++ afterNumber.text ++ '\x7d' :: closing.text)
  | atLeast opening n afterNumber comma closing =>
    '\x7b' :: opening.text ++ (n.text ++ afterNumber.text ++
      (',' :: comma.text ++ '\x7d' :: closing.text))
  | between opening low afterLow comma high afterHigh closing =>
    '\x7b' :: opening.text ++ (low.text ++ afterLow.text ++
      (',' :: comma.text ++ (high.text ++ afterHigh.text ++ '\x7d' :: closing.text)))

/-! ## Phrases -/

mutual

/-- What a factor starts with. -/
inductive Base where
  | string (q : Quoted '"') (after : Blanks)
  | char (q : Quoted '\'') (after : Blanks)
  | regex (q : Quoted '/') (after : Blanks)
  /-- A reference in angles. -/
  | angled (opening : Blanks) (name : Name) (afterName after : Blanks)
  /-- A reference without angles. -/
  | bare (name : Name) (after : Blanks)
  | group (opening : Blanks) (alternatives : Alternatives) (after : Blanks)

/-- A base and perhaps a suffix. -/
inductive Factor where
  | mk (base : Base) (suffix : Option Suffix)

/-- Any number of factors. -/
inductive Sequence where
  | nil
  | cons (first : Factor) (rest : Sequence)

/-- Any number of sequences, each with a bar in front. -/
inductive Branches where
  | nil
  | cons (bar : Blanks) (first : Sequence) (rest : Branches)

/-- One sequence or several. -/
inductive Alternatives where
  | mk (first : Sequence) (others : Branches)

end

mutual

/-- The characters of a base. -/
def Base.text : Base → List Char
  | .string q after => q.text ++ after.text
  | .char q after => q.text ++ after.text
  | .regex q after => q.text ++ after.text
  | .angled opening name afterName after =>
    '<' :: opening.text ++ (name.text ++ afterName.text ++ '>' :: after.text)
  | .bare name after => name.text ++ after.text
  | .group opening a after => '(' :: opening.text ++ (a.text ++ ')' :: after.text)

/-- The characters of a factor. -/
def Factor.text : Factor → List Char
  | .mk base suffix => base.text ++ suffix.elim [] Suffix.text

/-- The characters of a sequence. -/
def Sequence.text : Sequence → List Char
  | .nil => []
  | .cons first rest => first.text ++ rest.text

/-- The characters of several sequences and their bars. -/
def Branches.text : Branches → List Char
  | .nil => []
  | .cons bar first rest => '|' :: bar.text ++ (first.text ++ rest.text)

/-- The characters of alternatives. -/
def Alternatives.text : Alternatives → List Char
  | .mk first others => first.text ++ others.text

end

/-- A label with the blanks after it. -/
structure Label where
  quoted : Quoted '"'
  after : Blanks

/-- The characters of a label. -/
def Label.text (l : Label) : List Char := l.quoted.text ++ l.after.text

/-- A statement: a name, perhaps a label, a colon, alternatives and a semicolon. -/
structure Statement where
  name : Name
  afterName : Blanks
  label : Option Label
  colon : Blanks
  body : Alternatives
  semicolon : Blanks

/-- The characters of a statement. -/
def Statement.text (s : Statement) : List Char :=
  s.name.text ++ s.afterName.text ++ (s.label.elim [] Label.text ++
    (':' :: s.colon.text ++ (s.body.text ++ ';' :: s.semicolon.text)))

/-- The characters of several statements. -/
def statementsText (statements : List Statement) : List Char := statements.flatMap Statement.text

/-- A whole grammar: blanks and statements. -/
structure Source where
  opening : Blanks
  statements : List Statement

/-- The characters of a grammar. -/
def Source.text (s : Source) : List Char := s.opening.text ++ statementsText s.statements

/-! ## How phrases start -/

/-- Whether a character can start a factor. -/
def startsFactor (c : Char) : Bool := "\"'/<(".toList.contains c || Language.isNameStart c

/-- Whether a base is a reference without angles. -/
def Base.isBare : Base → Bool
  | .bare _ _ => true
  | _ => false

/-- Whether a factor is a bare reference, perhaps with a suffix. -/
def Factor.isBare : Factor → Bool
  | .mk base _ => base.isBare

/-- Whether a factor ends in a bare name, with nothing behind it. -/
def Factor.isOpen : Factor → Bool
  | .mk (.bare _ after) none => after.text.isEmpty
  | _ => false

/-- Whether a sequence starts with a bare reference. -/
def Sequence.isBare : Sequence → Bool
  | .nil => false
  | .cons first _ => first.isBare

/-- A base starts with a character that can, and only a bare reference with part of a name. -/
theorem Base.exists_text_eq (b : Base) :
    ∃ x rest, b.text = x :: rest ∧ startsFactor x = true ∧
      (b.isBare = false → Language.isNamePart x = false) := by
  cases b with
  | string q after => exact ⟨'"', _, by rw [Base.text]; rfl, by decide, fun _ => by decide⟩
  | char q after => exact ⟨'\'', _, by rw [Base.text]; rfl, by decide, fun _ => by decide⟩
  | regex q after => exact ⟨'/', _, by rw [Base.text]; rfl, by decide, fun _ => by decide⟩
  | angled opening name afterName after =>
    exact ⟨'<', _, by rw [Base.text]; rfl, by decide, fun _ => by decide⟩
  | bare name after =>
    have hstart : Language.isNameStart name.first = true := name.start
    refine ⟨name.first, _, by rw [Base.text]; rfl, ?_, fun hbare => nomatch hbare⟩
    rw [startsFactor, hstart, Bool.or_true]
  | group opening a after => exact ⟨'(', _, by rw [Base.text]; rfl, by decide, fun _ => by decide⟩

theorem Factor.exists_text_eq (f : Factor) :
    ∃ x rest, f.text = x :: rest ∧ startsFactor x = true ∧
      (f.isBare = false → Language.isNamePart x = false) := by
  obtain ⟨base, suffix⟩ := f
  obtain ⟨x, rest, htext, hstart, hbare⟩ := base.exists_text_eq
  exact ⟨x, _, by rw [Factor.text, htext]; rfl, hstart, hbare⟩

/-! ## Names side by side -/

mutual

/-- Everywhere in a base, bare names are apart. -/
def Base.Spaced : Base → Prop
  | .group _ a _ => a.Spaced
  | _ => True

/-- Everywhere in a factor, bare names are apart. -/
def Factor.Spaced : Factor → Prop
  | .mk base _ => base.Spaced

/-- Everywhere in a sequence, bare names are apart. -/
def Sequence.Spaced : Sequence → Prop
  | .nil => True
  | .cons first rest => first.Spaced ∧ rest.Spaced ∧ (first.isOpen = true → rest.isBare = false)

/-- Everywhere in several sequences, bare names are apart. -/
def Branches.Spaced : Branches → Prop
  | .nil => True
  | .cons _ first rest => first.Spaced ∧ rest.Spaced

/-- Everywhere in alternatives, bare names are apart. -/
def Alternatives.Spaced : Alternatives → Prop
  | .mk first others => first.Spaced ∧ others.Spaced

end

/-- Everywhere in a grammar, bare names are apart. -/
def Source.Spaced (s : Source) : Prop := ∀ statement ∈ s.statements, statement.body.Spaced

/-- What can start a name can go on one. -/
theorem isNamePart_of_isNameStart {c : Char} (h : Language.isNameStart c = true) :
    Language.isNamePart c = true := by
  simp only [Language.isNameStart, Language.isNamePart, Char.isAlphanum, Bool.or_eq_true] at h ⊢
  exact h.imp_left Or.inl

/-- Two names taken for one. -/
def Name.append (m n : Name) : Name where
  first := m.first
  others := m.others ++ n.text
  start := m.start
  part := by
    intro c hc
    rcases List.mem_append.1 hc with hm | hn
    · exact m.part c hm
    · rcases List.mem_cons.1 hn with rfl | hn
      · exact isNamePart_of_isNameStart n.start
      · exact n.part c hn

theorem Name.text_append (m n : Name) : (m.append n).text = m.text ++ n.text := rfl

/-- A factor is put before spaced ones, as part of the first of them if need be. -/
theorem Sequence.exists_spaced_cons {f : Factor} {s : Sequence} (hf : f.Spaced) (hs : s.Spaced) :
    ∃ s' : Sequence, s'.Spaced ∧ s'.text = f.text ++ s.text := by
  by_cases hmerge : f.isOpen = true ∧ s.isBare = true
  · obtain ⟨hopen, hbare⟩ := hmerge
    unfold Factor.isOpen at hopen
    split at hopen
    · next m after =>
      have hnil : after.text = [] := List.isEmpty_iff.1 hopen
      cases s with
      | nil => exact nomatch hbare
      | cons g rest =>
        obtain ⟨base, suffix⟩ := g
        cases base with
        | bare n after' =>
          have hsame : (Factor.mk (.bare (m.append n) after') suffix).isOpen =
              (Factor.mk (.bare n after') suffix).isOpen := by
            cases suffix <;> rfl
          rw [Sequence.Spaced, ← hsame] at hs
          refine ⟨.cons (.mk (.bare (m.append n) after') suffix) rest, ?_, ?_⟩
          · rw [Sequence.Spaced]
            exact ⟨trivial, hs.2⟩
          · simp [Sequence.text, Factor.text, Base.text, Name.text_append, hnil]
        | _ => exact nomatch hbare
    · exact nomatch hopen
  · refine ⟨.cons f s, ?_, by rw [Sequence.text]⟩
    rw [Sequence.Spaced]
    exact ⟨hf, hs, fun hopen => by simpa using fun hbare => hmerge ⟨hopen, hbare⟩⟩

mutual

theorem Base.exists_spaced : ∀ b : Base, ∃ b' : Base, b'.Spaced ∧ b'.text = b.text
  | .string q after => ⟨.string q after, trivial, rfl⟩
  | .char q after => ⟨.char q after, trivial, rfl⟩
  | .regex q after => ⟨.regex q after, trivial, rfl⟩
  | .angled opening name afterName after => ⟨.angled opening name afterName after, trivial, rfl⟩
  | .bare name after => ⟨.bare name after, trivial, rfl⟩
  | .group opening a after => by
    obtain ⟨a', ha', htext⟩ := a.exists_spaced
    exact ⟨.group opening a' after, ha', by rw [Base.text, Base.text, htext]⟩

theorem Factor.exists_spaced : ∀ f : Factor, ∃ f' : Factor, f'.Spaced ∧ f'.text = f.text
  | .mk base suffix => by
    obtain ⟨base', hbase', htext⟩ := base.exists_spaced
    exact ⟨.mk base' suffix, hbase', by rw [Factor.text, Factor.text, htext]⟩

theorem Sequence.exists_spaced : ∀ s : Sequence, ∃ s' : Sequence, s'.Spaced ∧ s'.text = s.text
  | .nil => ⟨.nil, trivial, rfl⟩
  | .cons first rest => by
    obtain ⟨first', hfirst', htext⟩ := first.exists_spaced
    obtain ⟨rest', hrest', htext'⟩ := rest.exists_spaced
    obtain ⟨s, hs, hjoined⟩ := Sequence.exists_spaced_cons hfirst' hrest'
    exact ⟨s, hs, by rw [hjoined, htext, htext', Sequence.text]⟩

theorem Branches.exists_spaced : ∀ b : Branches, ∃ b' : Branches, b'.Spaced ∧ b'.text = b.text
  | .nil => ⟨.nil, trivial, rfl⟩
  | .cons bar first rest => by
    obtain ⟨first', hfirst', htext⟩ := first.exists_spaced
    obtain ⟨rest', hrest', htext'⟩ := rest.exists_spaced
    exact ⟨.cons bar first' rest', ⟨hfirst', hrest'⟩, by
      rw [Branches.text, Branches.text, htext, htext']⟩

theorem Alternatives.exists_spaced :
    ∀ a : Alternatives, ∃ a' : Alternatives, a'.Spaced ∧ a'.text = a.text
  | .mk first others => by
    obtain ⟨first', hfirst', htext⟩ := first.exists_spaced
    obtain ⟨others', hothers', htext'⟩ := others.exists_spaced
    exact ⟨.mk first' others', ⟨hfirst', hothers'⟩, by
      rw [Alternatives.text, Alternatives.text, htext, htext']⟩

end

/-- **Every text of the language is the text of a spaced grammar.** -/
theorem Source.exists_spaced (s : Source) : ∃ s' : Source, s'.Spaced ∧ s'.text = s.text := by
  have hall : ∀ l : List Statement, ∃ l' : List Statement,
      (∀ statement ∈ l', statement.body.Spaced) ∧ statementsText l' = statementsText l := by
    intro l
    induction l with
    | nil => exact ⟨[], fun _ h => absurd h List.not_mem_nil, rfl⟩
    | cons statement l ih =>
      obtain ⟨l', hl', htext⟩ := ih
      obtain ⟨body, hbody, hbodyText⟩ := statement.body.exists_spaced
      refine ⟨{ statement with body } :: l', fun t ht => ?_, ?_⟩
      · rcases List.mem_cons.1 ht with rfl | ht
        · exact hbody
        · exact hl' t ht
      · rw [statementsText, statementsText, List.flatMap_cons, List.flatMap_cons, ← statementsText,
          ← statementsText, htext, Statement.text, Statement.text, hbodyText]
  obtain ⟨l, hl, htext⟩ := hall s.statements
  exact ⟨⟨s.opening, l⟩, hl, by rw [Source.text, Source.text, htext]⟩

end Written

end ParserGraph.Grammar
