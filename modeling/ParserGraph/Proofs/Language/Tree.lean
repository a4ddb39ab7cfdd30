import ParserGraph.Proofs.Language.Written
import ParserGraph.Proofs.Tree.Flattening

/-!
# Trees of written grammars — what reading a grammar leaves behind

Each part of a written grammar has its tree at a place: a token is a leaf with
its characters, a phrase a node over the trees of its parts, side by side, as
`Tree.flatten` puts them. Blanks leave nothing.
-/

namespace ParserGraph

namespace Grammar.Written

/-! ## Tokens -/

/-- The tree of a character that is a token. -/
def symbolTree (x : Char) (p : Position) : Tree := .leaf (String.ofList [x]) p

@[simp]
theorem splice_symbolTree (x : Char) (p : Position) : (symbolTree x p).splice = [symbolTree x p] :=
  Tree.splice_leaf p (by simp)

/-- The tree of a name. -/
def Name.tree (n : Name) (p : Position) : Tree := ⟨"ident", String.ofList n.text, p, []⟩

@[simp]
theorem Name.splice_tree (n : Name) (p : Position) : (n.tree p).splice = [n.tree p] :=
  Tree.splice_of_tag_ne (by simp [Name.tree])

/-- The tree of a number. -/
def Number.tree (n : Number) (p : Position) : Tree := ⟨"digits", String.ofList n.text, p, []⟩

@[simp]
theorem Number.splice_tree (n : Number) (p : Position) : (n.tree p).splice = [n.tree p] :=
  Tree.splice_of_tag_ne (by simp [Number.tree])

/-- The tree of a quoted text, under the tag of its kind. -/
def Quoted.tree {mark : Char} (tag : String) (q : Quoted mark) (p : Position) : Tree :=
  ⟨tag, String.ofList q.text, p, []⟩

theorem Quoted.splice_tree {mark : Char} {tag : String} (htag : tag ≠ "") (q : Quoted mark)
    (p : Position) : (q.tree tag p).splice = [q.tree tag p] :=
  Tree.splice_of_tag_ne htag

/-- The tree of a suffix. -/
def Suffix.tree : Suffix → Position → Tree
  | operator op _, p => ⟨"suffix", String.ofList [op.char], p, []⟩
  | exactly opening n afterNumber _, p =>
    let number := p.after ('\x7b' :: opening.text)
    let stop := number.after (n.text ++ afterNumber.text)
    ⟨"suffix", "", p, [symbolTree '\x7b' p, n.tree number, symbolTree '\x7d' stop]⟩
  | atLeast opening n afterNumber comma _, p =>
    let number := p.after ('\x7b' :: opening.text)
    let separator := number.after (n.text ++ afterNumber.text)
    let stop := separator.after (',' :: comma.text)
    ⟨"suffix", "", p, [symbolTree '\x7b' p, n.tree number, symbolTree ',' separator,
      symbolTree '\x7d' stop]⟩
  | between opening low afterLow comma high afterHigh _, p =>
    let number := p.after ('\x7b' :: opening.text)
    let separator := number.after (low.text ++ afterLow.text)
    let second := separator.after (',' :: comma.text)
    let stop := second.after (high.text ++ afterHigh.text)
    ⟨"suffix", "", p, [symbolTree '\x7b' p, low.tree number, symbolTree ',' separator,
      high.tree second, symbolTree '\x7d' stop]⟩

@[simp]
theorem Suffix.splice_tree (s : Suffix) (p : Position) : (s.tree p).splice = [s.tree p] := by
  cases s <;> exact Tree.splice_of_tag_ne (by simp [Suffix.tree])

/-! ## Phrases -/

mutual

/-- The tree of a base. -/
def Base.tree : Base → Position → Tree
  | .string q _, p => q.tree "string" p
  | .char q _, p => q.tree "char" p
  | .regex q _, p => q.tree "regex" p
  | .angled opening name afterName _, p =>
    let inner := p.after ('<' :: opening.text)
    ⟨"ref", "", p, [symbolTree '<' p, name.tree inner,
      symbolTree '>' (inner.after (name.text ++ afterName.text))]⟩
  | .bare name _, p => ⟨"ref|ident", String.ofList name.text, p, []⟩
  | .group opening a _, p =>
    let inner := p.after ('(' :: opening.text)
    ⟨"group", "", p, [symbolTree '(' p, a.tree inner, symbolTree ')' (inner.after a.text)]⟩

/-- The tree of a factor. -/
def Factor.tree : Factor → Position → Tree
  | .mk base suffix, p =>
    ⟨"factor", "", p, base.tree p :: suffix.elim [] fun s => [s.tree (p.after base.text)]⟩

/-- The trees of the factors of a sequence. -/
def Sequence.trees : Sequence → Position → List Tree
  | .nil, _ => []
  | .cons first rest, p => first.tree p :: rest.trees (p.after first.text)

/-- The trees of several sequences and their bars. -/
def Branches.trees : Branches → Position → List Tree
  | .nil, _ => []
  | .cons bar first rest, p =>
    let inner := p.after ('|' :: bar.text)
    symbolTree '|' p :: ⟨"seq", "", inner, first.trees inner⟩ ::
      rest.trees (inner.after first.text)

/-- The tree of alternatives. -/
def Alternatives.tree : Alternatives → Position → Tree
  | .mk first others, p =>
    ⟨"alt", "", p, ⟨"seq", "", p, first.trees p⟩ :: others.trees (p.after first.text)⟩

end

/-- The tree of a sequence. -/
def Sequence.tree (s : Sequence) (p : Position) : Tree := ⟨"seq", "", p, s.trees p⟩

/-- The tree of a statement. -/
def Statement.tree (s : Statement) (p : Position) : Tree :=
  let label := p.after (s.name.text ++ s.afterName.text)
  let colon := label.after (s.label.elim [] Label.text)
  let body := colon.after (':' :: s.colon.text)
  ⟨"stmt", "", p, s.name.tree p ::
    ((s.label.elim [] fun l => [l.quoted.tree "label|string" label]) ++
      [symbolTree ':' colon, s.body.tree body, symbolTree ';' (body.after s.body.text)])⟩

/-- The trees of several statements. -/
def statementsTrees : List Statement → Position → List Tree
  | [], _ => []
  | s :: statements, p => s.tree p :: statementsTrees statements (p.after s.text)

/-- The tree of a grammar. -/
def Source.tree (s : Source) (p : Position) : Tree :=
  ⟨"grammar", "", p, statementsTrees s.statements (p.after s.opening.text)⟩

/-! ## They stay side by side -/

@[simp]
theorem Base.splice_tree (b : Base) (p : Position) : (b.tree p).splice = [b.tree p] := by
  cases b <;> exact Tree.splice_of_tag_ne (by simp [Base.tree, Quoted.tree])

@[simp]
theorem Factor.splice_tree (f : Factor) (p : Position) : (f.tree p).splice = [f.tree p] := by
  cases f
  exact Tree.splice_of_tag_ne (by simp [Factor.tree])

/-- The trees of factors stay side by side. -/
@[simp]
theorem Sequence.spliceAll_trees : ∀ (s : Sequence) (p : Position),
    Tree.spliceAll (s.trees p) = s.trees p
  | .nil, p => by rw [Sequence.trees, Tree.spliceAll]
  | .cons first rest, p => by
    rw [Sequence.trees, Tree.spliceAll, Factor.splice_tree, rest.spliceAll_trees]
    rfl

@[simp]
theorem Sequence.splice_tree (s : Sequence) (p : Position) : (s.tree p).splice = [s.tree p] :=
  Tree.splice_of_tag_ne (by simp [Sequence.tree])

@[simp]
theorem Alternatives.splice_tree (a : Alternatives) (p : Position) :
    (a.tree p).splice = [a.tree p] := by
  cases a
  exact Tree.splice_of_tag_ne (by simp [Alternatives.tree])

@[simp]
theorem Statement.splice_tree (s : Statement) (p : Position) : (s.tree p).splice = [s.tree p] :=
  Tree.splice_of_tag_ne (by simp [Statement.tree])

@[simp]
theorem spliceAll_statementsTrees (l : List Statement) (p : Position) :
    Tree.spliceAll (statementsTrees l p) = statementsTrees l p := by
  induction l generalizing p with
  | nil => rfl
  | cons s l ih =>
    rw [statementsTrees, Tree.spliceAll, Statement.splice_tree, ih]
    rfl

end Grammar.Written

end ParserGraph
