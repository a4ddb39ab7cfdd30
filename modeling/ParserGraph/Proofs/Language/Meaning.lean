import ParserGraph.Grammar.Reading
import ParserGraph.Proofs.Language.Written

/-!
# Meanings — what a written grammar states

A written grammar states its definitions, in order: names as they stand,
quoted texts with their escapes resolved, regular expressions with only the
slashes restored, counts by their value, and every name with its place in the
text. Where a regular expression means nothing in the dialect, or a count is
too high or below its lower bound, the grammar is at fault, and the first
fault in the text is told instead (`Source.tells`).
-/

namespace ParserGraph.Grammar

namespace Written

/-! ## Tokens -/

/-- The character that a backslash makes of the one it takes along. -/
def escapedValue (c : Char) : Char :=
  if c = 'n' then '\n' else if c = 't' then '\t' else if c = 'r' then '\r'
  else if c = '0' then '\x00' else c

/-- The character that a piece of a quoted text stands for. -/
def Piece.value {mark : Char} : Piece mark → Char
  | plain c _ _ => c
  | escaped c => escapedValue c

/-- The text that a quoted text stands for. -/
def Quoted.value {mark : Char} (q : Quoted mark) : List Char := q.pieces.map Piece.value

/-- What a quoted text means: a single piece the character it stands for, any other number of
pieces the text they stand for. -/
def Quoted.meaning {mark : Char} (q : Quoted mark) : Expr :=
  match q.pieces with
  | [piece] => .char piece.value
  | pieces => .literal (String.ofList (pieces.map Piece.value))

/-- What a piece of a regular expression stands for: all escapes but that of the mark are left to
the expression. -/
def Piece.source {mark : Char} : Piece mark → List Char
  | plain c _ _ => [c]
  | escaped c => if c = mark then [c] else ['\\', c]

/-- The source of a regular expression. -/
def Quoted.source {mark : Char} (q : Quoted mark) : String :=
  String.ofList (q.pieces.flatMap Piece.source)

/-- A regular expression is written with each of its slashes escaped, and nothing else. -/
theorem Quoted.escape_source (q : Quoted '/') :
    q.source.toList.flatMap (fun c => if c = '/' then ['\\', '/'] else [c]) =
      piecesText q.pieces := by
  have hpiece : ∀ piece : Piece '/',
      piece.source.flatMap (fun c => if c = '/' then ['\\', '/'] else [c]) = piece.text := by
    intro piece
    cases piece with
    | plain c hmark hback => simp [Piece.source, Piece.text, hmark]
    | escaped c =>
      by_cases hslash : c = '/'
      · simp [Piece.source, Piece.text, hslash]
      · simp [Piece.source, Piece.text, hslash]
  rw [Quoted.source, String.toList_ofList, List.flatMap_assoc]
  simp only [hpiece]
  rfl

/-- The value of a number. -/
def Number.value (n : Number) : Nat := Nat.ofDigitChars 10 n.text 0

/-- The bound that a number stands for, in a suffix at a place: a machine word holds it. -/
def Number.bound (n : Number) (p : Position) : Except GrammarError Nat :=
  if n.value < UInt64.size then .ok n.value
  else .error (.invalidRepetition p (.tooLarge (String.ofList n.text)))

/-! ## Phrases -/

/-- An item under a suffix at a place. -/
def Suffix.meaning (item : Expr) : Suffix → Position → Except GrammarError Expr
  | operator .star _, _ => .ok (.repetition item 0 none)
  | operator .plus _, _ => .ok (.repetition item 1 none)
  | operator .question _, _ => .ok (.optional item)
  | operator .bang _, _ => .ok (.absent item)
  | exactly _ n _ _, p => do
    let n ← n.bound p
    .ok (.repetition item n (some n))
  | atLeast _ n _ _ _, p => do
    let n ← n.bound p
    .ok (.repetition item n none)
  | between _ low _ _ high _ _, p => do
    let low ← low.bound p
    let high ← high.bound p
    if high < low then .error (.invalidRepetition p (.inverted low high))
    else .ok (.repetition item low (some high))

/-- One item as it is, any other number of them combined. -/
def collapsed (combine : List Expr → Expr) : List Expr → Expr
  | [only] => only
  | items => combine items

mutual

/-- The expression of a base at a place. -/
def Base.meaning (dialect : Pattern.Dialect) : Base → Position → Except GrammarError Expr
  | .string q _, _ => .ok q.meaning
  | .char q _, _ => .ok q.meaning
  | .regex q _, p =>
    match dialect q.source with
    | .ok (minLength, program) => .ok (.pattern ⟨q.source, minLength, program⟩)
    | .error reason => .error (.invalidPattern p ⟨q.source, reason⟩)
  | .angled opening name _ _, p =>
    .ok (.reference (String.ofList name.text) (p.after ('<' :: opening.text)))
  | .bare name _, p => .ok (.reference (String.ofList name.text) p)
  | .group opening a _, p => a.meaning dialect (p.after ('(' :: opening.text))

/-- The expression of a factor at a place. -/
def Factor.meaning (dialect : Pattern.Dialect) : Factor → Position → Except GrammarError Expr
  | .mk base suffix, p => do
    let item ← base.meaning dialect p
    match suffix with
    | some s => s.meaning item (p.after base.text)
    | none => .ok item

/-- The expressions of the factors of a sequence. -/
def Sequence.meanings (dialect : Pattern.Dialect) :
    Sequence → Position → Except GrammarError (List Expr)
  | .nil, _ => .ok []
  | .cons first rest, p => do
    let item ← first.meaning dialect p
    let items ← rest.meanings dialect (p.after first.text)
    .ok (item :: items)

/-- The expressions of several sequences. -/
def Branches.meanings (dialect : Pattern.Dialect) :
    Branches → Position → Except GrammarError (List Expr)
  | .nil, _ => .ok []
  | .cons bar first rest, p => do
    let inner := p.after ('|' :: bar.text)
    let factors ← first.meanings dialect inner
    let items ← rest.meanings dialect (inner.after first.text)
    .ok (collapsed .sequence factors :: items)

/-- The expression of alternatives at a place. -/
def Alternatives.meaning (dialect : Pattern.Dialect) :
    Alternatives → Position → Except GrammarError Expr
  | .mk first others, p => do
    let factors ← first.meanings dialect p
    let branches ← others.meanings dialect (p.after first.text)
    .ok (collapsed .alternation (collapsed .sequence factors :: branches))

end

/-- What a statement at a place defines. -/
def Statement.definition (dialect : Pattern.Dialect) (s : Statement) (p : Position) :
    Except GrammarError Definition := do
  let label := p.after (s.name.text ++ s.afterName.text)
  let colon := label.after (s.label.elim [] Label.text)
  let body ← s.body.meaning dialect (colon.after (':' :: s.colon.text))
  .ok ⟨String.ofList s.name.text, s.label.map fun l => String.ofList l.quoted.value, body, p⟩

/-- What several statements define, the first of them at a place. -/
def statementsDefinitions (dialect : Pattern.Dialect) :
    List Statement → Position → Except GrammarError (List Definition)
  | [], _ => .ok []
  | s :: statements, p => do
    let d ← s.definition dialect p
    let ds ← statementsDefinitions dialect statements (p.after s.text)
    .ok (d :: ds)

/-- **What a grammar states**, or the first fault in it. -/
def Source.definitions (dialect : Pattern.Dialect) (s : Source) :
    Except GrammarError (List Definition) :=
  statementsDefinitions dialect s.statements (Position.start.after s.opening.text)

/-! ## Faults -/

/-- What can be wrong with a written grammar. -/
inductive Fault where
  /-- A regular expression means nothing. -/
  | pattern (position : Position) (source reason : String)
  /-- A count is too high. -/
  | count (position : Position) (digits : String)
  /-- The upper bound is below the lower one. -/
  | bounds (position : Position) (low high : Nat)

/-- The error that tells a fault. -/
def Fault.error : Fault → GrammarError
  | pattern p source reason => .invalidPattern p ⟨source, reason⟩
  | count p digits => .invalidRepetition p (.tooLarge digits)
  | bounds p low high => .invalidRepetition p (.inverted low high)

/-- No fault is that a part is missing. -/
theorem Fault.error_ne_missing (fault : Fault) (t : Tree) (what : String) :
    fault.error ≠ missing t what := by
  cases fault <;> exact fun h => nomatch h

/-- No fault is that bounds are neither one nor two numbers. -/
theorem Fault.error_ne_malformed (fault : Fault) (p : Position) :
    fault.error ≠ .invalidRepetition p .malformed := by
  cases fault <;> exact fun h => nomatch h

/-- What is wrong with a number in a suffix at a place. -/
def Number.faults (n : Number) (p : Position) : List Fault :=
  if n.value < UInt64.size then [] else [.count p (String.ofList n.text)]

/-- What is wrong with a suffix. -/
def Suffix.faults : Suffix → Position → List Fault
  | operator _ _, _ => []
  | exactly _ n _ _, p => n.faults p
  | atLeast _ n _ _ _, p => n.faults p
  | between _ low _ _ high _ _, p =>
    low.faults p ++ (high.faults p ++
      if high.value < low.value then [.bounds p low.value high.value] else [])

mutual

/-- What is wrong with a base, in the order of the text. -/
def Base.faults (dialect : Pattern.Dialect) : Base → Position → List Fault
  | .string _ _, _ => []
  | .char _ _, _ => []
  | .regex q _, p =>
    match dialect q.source with
    | .ok _ => []
    | .error reason => [.pattern p q.source reason]
  | .angled _ _ _ _, _ => []
  | .bare _ _, _ => []
  | .group opening a _, p => a.faults dialect (p.after ('(' :: opening.text))

/-- What is wrong with a factor, in the order of the text. -/
def Factor.faults (dialect : Pattern.Dialect) : Factor → Position → List Fault
  | .mk base suffix, p =>
    base.faults dialect p ++ suffix.elim [] fun s => s.faults (p.after base.text)

/-- What is wrong with a sequence, in the order of the text. -/
def Sequence.faults (dialect : Pattern.Dialect) : Sequence → Position → List Fault
  | .nil, _ => []
  | .cons first rest, p => first.faults dialect p ++ rest.faults dialect (p.after first.text)

/-- What is wrong with several sequences, in the order of the text. -/
def Branches.faults (dialect : Pattern.Dialect) : Branches → Position → List Fault
  | .nil, _ => []
  | .cons bar first rest, p =>
    let inner := p.after ('|' :: bar.text)
    first.faults dialect inner ++ rest.faults dialect (inner.after first.text)

/-- What is wrong with alternatives, in the order of the text. -/
def Alternatives.faults (dialect : Pattern.Dialect) : Alternatives → Position → List Fault
  | .mk first others, p => first.faults dialect p ++ others.faults dialect (p.after first.text)

end

/-- What is wrong with a statement, in the order of the text. -/
def Statement.faults (dialect : Pattern.Dialect) (s : Statement) (p : Position) : List Fault :=
  let label := p.after (s.name.text ++ s.afterName.text)
  let colon := label.after (s.label.elim [] Label.text)
  s.body.faults dialect (colon.after (':' :: s.colon.text))

/-- What is wrong with several statements, in the order of the text. -/
def statementsFaults (dialect : Pattern.Dialect) : List Statement → Position → List Fault
  | [], _ => []
  | s :: statements, p =>
    s.faults dialect p ++ statementsFaults dialect statements (p.after s.text)

/-- **What is wrong with a grammar**, in the order of the text. -/
def Source.faults (dialect : Pattern.Dialect) (s : Source) : List Fault :=
  statementsFaults dialect s.statements (Position.start.after s.opening.text)

/-- Of several faults the first is told; where there is none, there is no error. -/
def Tells {α : Type} (faults : List Fault) (x : Except GrammarError α) : Prop :=
  ∀ e, x = .error e ↔ faults.head?.map Fault.error = some e

namespace Tells

variable {α β : Type} {x : Except GrammarError α} {f : α → Except GrammarError β}
  {faults faults' : List Fault}

theorem ok (a : α) : Tells [] (.ok a) := fun _ => ⟨(nomatch ·), (nomatch ·)⟩

theorem error (fault : Fault) : Tells [fault] (.error fault.error : Except GrammarError α) :=
  fun _ => ⟨fun h => congrArg some (Except.error.inj h),
    fun h => congrArg Except.error (Option.some.inj h)⟩

/-- The faults of what is read first come first. -/
theorem bind (hx : Tells faults x) (hf : ∀ a, x = .ok a → Tells faults' (f a)) :
    Tells (faults ++ faults') (x >>= f) := by
  intro e
  cases x with
  | error e' =>
    obtain ⟨fault, rest, rfl⟩ : ∃ fault rest, faults = fault :: rest := by
      cases faults with
      | nil => exact nomatch (hx e').1 rfl
      | cons fault rest => exact ⟨fault, rest, rfl⟩
    have he' : fault.error = e' := Option.some.inj ((hx e').1 rfl)
    subst he'
    exact error fault e
  | ok a =>
    have hnil : faults = [] := by
      cases faults with
      | nil => rfl
      | cons fault rest => exact nomatch (hx fault.error).2 rfl
    rw [hnil]
    exact hf a rfl e

/-- What comes of a value has no faults of its own. -/
theorem map (hx : Tells faults x) {g : α → β} : Tells faults (x >>= fun a => .ok (g a)) := by
  have h := hx.bind (f := fun a => .ok (g a)) fun a _ => ok (g a)
  rwa [List.append_nil] at h

end Tells

theorem Number.bound_eq_ok {n : Number} {p : Position} {a : Nat} (h : n.bound p = .ok a) :
    a = n.value := by
  unfold Number.bound at h
  split at h
  · exact (Except.ok.inj h).symm
  · exact nomatch h

theorem Number.tells (n : Number) (p : Position) : Tells (n.faults p) (n.bound p) := by
  unfold Number.faults Number.bound
  split
  · exact .ok _
  · exact .error (.count p _)

theorem Suffix.tells (item : Expr) (s : Suffix) (p : Position) :
    Tells (s.faults p) (s.meaning item p) := by
  cases s with
  | operator op after => cases op <;> exact .ok _
  | exactly opening n afterNumber closing => exact (n.tells p).map
  | atLeast opening n afterNumber comma closing => exact (n.tells p).map
  | between opening low afterLow comma high afterHigh closing =>
    refine (low.tells p).bind fun l hl => (high.tells p).bind fun h hh => ?_
    rw [Number.bound_eq_ok hl, Number.bound_eq_ok hh]
    split
    · exact .error (.bounds p _ _)
    · exact .ok _

variable (dialect : Pattern.Dialect)

mutual

theorem Base.tells :
    ∀ (b : Base) (p : Position), Tells (b.faults dialect p) (b.meaning dialect p)
  | .string q _, p => by
    rw [Base.faults, Base.meaning]
    exact .ok _
  | .char q _, p => by
    rw [Base.faults, Base.meaning]
    exact .ok _
  | .regex q _, p => by
    rw [Base.faults, Base.meaning]
    cases dialect q.source with
    | error reason => exact .error (.pattern p _ reason)
    | ok _ => exact .ok _
  | .angled opening name _ _, p => by
    rw [Base.faults, Base.meaning]
    exact .ok _
  | .bare name _, p => by
    rw [Base.faults, Base.meaning]
    exact .ok _
  | .group opening a _, p => by
    rw [Base.faults, Base.meaning]
    exact a.tells _

theorem Factor.tells :
    ∀ (f : Factor) (p : Position), Tells (f.faults dialect p) (f.meaning dialect p)
  | .mk base suffix, p => by
    rw [Factor.faults, Factor.meaning]
    refine (base.tells p).bind fun item _ => ?_
    cases suffix with
    | none => exact .ok _
    | some s => exact s.tells item _

theorem Sequence.tells :
    ∀ (s : Sequence) (p : Position), Tells (s.faults dialect p) (s.meanings dialect p)
  | .nil, p => by
    rw [Sequence.faults, Sequence.meanings]
    exact .ok _
  | .cons first rest, p => by
    rw [Sequence.faults, Sequence.meanings]
    exact (first.tells p).bind fun _ _ => (rest.tells _).map

theorem Branches.tells :
    ∀ (b : Branches) (p : Position), Tells (b.faults dialect p) (b.meanings dialect p)
  | .nil, p => by
    rw [Branches.faults, Branches.meanings]
    exact .ok _
  | .cons bar first rest, p => by
    rw [Branches.faults, Branches.meanings]
    exact (first.tells _).bind fun _ _ => (rest.tells _).map

theorem Alternatives.tells :
    ∀ (a : Alternatives) (p : Position), Tells (a.faults dialect p) (a.meaning dialect p)
  | .mk first others, p => by
    rw [Alternatives.faults, Alternatives.meaning]
    exact (first.tells p).bind fun _ _ => (others.tells _).map

end

theorem Statement.tells (s : Statement) (p : Position) :
    Tells (s.faults dialect p) (s.definition dialect p) :=
  (s.body.tells dialect _).map

theorem tells_statementsDefinitions (l : List Statement) (p : Position) :
    Tells (statementsFaults dialect l p) (statementsDefinitions dialect l p) := by
  induction l generalizing p with
  | nil => exact .ok _
  | cons s l ih => exact (s.tells dialect p).bind fun _ _ => (ih _).map

/-- **A grammar states its definitions unless something is wrong with it**, and of several faults
the first in the text is told. -/
theorem Source.tells (s : Source) : Tells (s.faults dialect) (s.definitions dialect) :=
  tells_statementsDefinitions dialect _ _

end Written

end ParserGraph.Grammar
