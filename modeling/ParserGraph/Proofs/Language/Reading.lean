import ParserGraph.Proofs.Language.Meaning
import ParserGraph.Proofs.Language.Tree

/-!
# Reading the trees of written grammars

A tree is read by the tags and the places of its parts. In the tree of a
written grammar each part is where it is looked for, whatever the form of a
reference, of a suffix or of a label, so what is read is what the grammar
states (`Source.definitions_tree`).
-/

namespace ParserGraph

/-- A tree that comes from a single parser has its name as a tag, and no other. -/
theorem Tree.hasTag_eq_decide {t : Tree} {name : String}
    (h : components t.tag.toList = [name.toList]) (tag : String) :
    t.hasTag tag = decide (tag = name) := by
  simp [hasTag, h, String.toList_inj]

namespace Grammar

namespace Written

/-! ## Tags of trees -/

@[simp]
theorem hasTag_symbolTree (x : Char) (p : Position) (tag : String) :
    (symbolTree x p).hasTag tag = decide (tag = "") :=
  Tree.hasTag_eq_decide (by simp [symbolTree, Tree.leaf, Tree.components]) tag

@[simp]
theorem Name.hasTag_tree (n : Name) (p : Position) (tag : String) :
    (n.tree p).hasTag tag = decide (tag = "ident") :=
  Tree.hasTag_eq_decide (by simp [Name.tree, Tree.components]) tag

@[simp]
theorem Number.hasTag_tree (n : Number) (p : Position) (tag : String) :
    (n.tree p).hasTag tag = decide (tag = "digits") :=
  Tree.hasTag_eq_decide (by simp [Number.tree, Tree.components]) tag

@[simp]
theorem Suffix.hasTag_tree (s : Suffix) (p : Position) (tag : String) :
    (s.tree p).hasTag tag = decide (tag = "suffix") :=
  Tree.hasTag_eq_decide (by cases s <;> simp [Suffix.tree, Tree.components]) tag

@[simp]
theorem Base.hasTag_tree (b : Base) (p : Position) : (b.tree p).hasTag "suffix" = false := by
  cases b <;> simp [Base.tree, Quoted.tree, Tree.hasTag, Tree.components]

@[simp]
theorem Factor.hasTag_tree (f : Factor) (p : Position) (tag : String) :
    (f.tree p).hasTag tag = decide (tag = "factor") :=
  Tree.hasTag_eq_decide (by cases f; simp [Factor.tree, Tree.components]) tag

@[simp]
theorem Alternatives.hasTag_tree (a : Alternatives) (p : Position) (tag : String) :
    (a.tree p).hasTag tag = decide (tag = "alt") :=
  Tree.hasTag_eq_decide (by cases a; simp [Alternatives.tree, Tree.components]) tag

@[simp]
theorem Quoted.hasTag_label {mark : Char} (q : Quoted mark) (p : Position) (tag : String) :
    (q.tree "label|string" p).hasTag tag = (tag = "label" || tag = "string") := by
  simp [Quoted.tree, Tree.hasTag, Tree.components, ← String.toList_inj]

@[simp]
theorem Statement.hasTag_tree (s : Statement) (p : Position) (tag : String) :
    (s.tree p).hasTag tag = decide (tag = "stmt") :=
  Tree.hasTag_eq_decide (by simp [Statement.tree, Tree.components]) tag

/-! ## Reading tokens -/

theorem undelimited_quoted {mark : Char} (q : Quoted mark) :
    undelimited (String.ofList q.text) = piecesText q.pieces := by
  simp [undelimited, Quoted.text]

theorem unescape_escaped (c : Char) (text : List Char) :
    unescape ('\\' :: c :: text) = escapedValue c :: unescape text := by
  by_cases hn : c = 'n'
  · subst hn; rfl
  by_cases ht : c = 't'
  · subst ht; rfl
  by_cases hr : c = 'r'
  · subst hr; rfl
  by_cases h0 : c = '0'
  · subst h0; rfl
  simp [unescape, escapedValue, hn, ht, hr, h0]

theorem unescape_plain {c : Char} (hc : c ≠ '\\') (text : List Char) :
    unescape (c :: text) = c :: unescape text := by
  simp [unescape, hc]

/-- Resolving escapes takes a quoted text piece by piece. -/
theorem unescape_piecesText {mark : Char} (pieces : List (Piece mark)) :
    unescape (piecesText pieces) = pieces.map Piece.value := by
  induction pieces with
  | nil => rfl
  | cons q pieces ih =>
    rw [List.map_cons, ← ih]
    cases q with
    | plain c hmark hback => exact unescape_plain hback _
    | escaped c => exact unescape_escaped c _

theorem unescapeSlashes_plain {c : Char} (hc : c ≠ '\\') (text : List Char) :
    unescapeSlashes (c :: text) = c :: unescapeSlashes text := by
  simp [unescapeSlashes, hc]

/-- A backslash that no slash follows stays. -/
theorem unescapeSlashes_backslash {text : List Char} (h : ∀ rest, text ≠ '/' :: rest) :
    unescapeSlashes ('\\' :: text) = '\\' :: unescapeSlashes text := by
  rw [unescapeSlashes]
  rintro rest - rfl
  exact h rest rfl

/-- No piece starts with the mark. -/
theorem piecesText_ne_cons {mark : Char} (hmark : mark ≠ '\\') (pieces : List (Piece mark))
    (text : List Char) : piecesText pieces ≠ mark :: text := by
  intro h
  cases pieces with
  | nil => exact nomatch h
  | cons q pieces =>
    cases q with
    | plain c hne hback => exact hne (List.cons.inj h).1
    | escaped c => exact hmark (List.cons.inj h).1.symm

/-- So does restoring the slashes of a regular expression. -/
theorem unescapeSlashes_piecesText (pieces : List (Piece '/')) :
    unescapeSlashes (piecesText pieces) = pieces.flatMap Piece.source := by
  induction pieces with
  | nil => rfl
  | cons q pieces ih =>
    rw [List.flatMap_cons, ← ih]
    cases q with
    | plain c hmark hback => exact unescapeSlashes_plain hback _
    | escaped c =>
      change unescapeSlashes ('\\' :: c :: piecesText pieces) = _
      by_cases hslash : c = '/'
      · subst hslash
        rw [Piece.source, if_pos rfl, unescapeSlashes]
        rfl
      · rw [Piece.source, if_neg hslash,
          unescapeSlashes_backslash (fun _ he => hslash (List.cons.inj he).1)]
        by_cases hback : c = '\\'
        · -- the second backslash is not one before a slash, since no piece starts with one
          subst hback
          have hrest : ∀ rest, piecesText pieces ≠ '/' :: rest :=
            piecesText_ne_cons (by decide) pieces
          rw [unescapeSlashes_backslash hrest]
          rfl
        · rw [unescapeSlashes_plain hback]
          rfl

/-- A quoted text is read as what it means: pieces stand for one character each. -/
theorem Quoted.ofText_value {mark : Char} (q : Quoted mark) : Expr.ofText q.value = q.meaning := by
  unfold Quoted.value Quoted.meaning
  rcases q.pieces with _ | ⟨first, _ | ⟨second, rest⟩⟩ <;> rfl

theorem decimal_eq_ofDigitChars (text : List Char) : decimal text = Nat.ofDigitChars 10 text 0 :=
  (Nat.ofDigitChars_eq_foldl ..).symm

/-- The highest bound is the highest machine word. -/
theorem le_maxBound_iff {n : Nat} : n ≤ maxBound ↔ n < UInt64.size :=
  Nat.lt_succ_iff.symm

theorem Number.bound_tree (n : Number) (p q : Position) :
    Grammar.bound p (n.tree q).contents = n.bound p := by
  have hvalue : decimal (n.tree q).contents.toList = n.value := by
    rw [Number.tree, String.toList_ofList, decimal_eq_ofDigitChars, Number.value]
  rw [Grammar.bound, hvalue, Number.bound]
  exact if_congr le_maxBound_iff rfl rfl

/-- A regular expression is read as the pattern of its source. -/
theorem patternOf_quoted (dialect : Pattern.Dialect) (tag : String) (q : Quoted '/')
    (after : Blanks) (p : Position) :
    patternOf dialect (q.tree tag p) = (Base.regex q after).meaning dialect p := by
  have hsource : String.ofList (unescapeSlashes (undelimited (q.tree tag p).contents)) =
      q.source := by
    rw [Quoted.tree, undelimited_quoted, unescapeSlashes_piecesText, Quoted.source]
  have hposition : (q.tree tag p).position = p := rfl
  rw [patternOf, hsource, hposition, Pattern.read, Base.meaning]
  cases dialect q.source <;> rfl

/-- No number is a comma. -/
theorem Number.contents_ne (n : Number) (p : Position) : (n.tree p).contents ≠ "," := by
  intro h
  have htext : n.text = [','] := by simpa [Number.tree] using congrArg String.toList h
  have hdigit := n.digit n.first List.mem_cons_self
  rw [(List.cons.inj htext).1] at hdigit
  exact absurd hdigit (by decide)

theorem suffixed_node (item : Expr) (p : Position) (t : Tree) (ts : List Tree) :
    suffixed item ⟨"suffix", "", p, t :: ts⟩ = (do
      let bounds ← ((t :: ts).filter (·.hasTag "digits")).mapM fun t => bound p t.contents
      bounded item p bounds ((t :: ts).any (·.contents = ","))) :=
  rfl

theorem contents_symbolTree (x : Char) (p : Position) :
    (symbolTree x p).contents = String.ofList [x] := rfl

/-- **A suffix is read as what it means.** -/
theorem suffixed_tree (item : Expr) (s : Suffix) (p : Position) :
    suffixed item (s.tree p) = s.meaning item p := by
  cases s with
  | operator op after => cases op <;> rfl
  | exactly opening n afterNumber closing =>
    simp [Suffix.tree, suffixed_node, n.bound_tree, n.contents_ne, contents_symbolTree,
      Suffix.meaning]
    cases n.bound p <;> rfl
  | atLeast opening n afterNumber comma closing =>
    simp [Suffix.tree, suffixed_node, n.bound_tree, n.contents_ne, contents_symbolTree,
      Suffix.meaning]
    cases n.bound p <;> rfl
  | between opening low afterLow comma high afterHigh closing =>
    simp [Suffix.tree, suffixed_node, Number.bound_tree, Number.contents_ne, contents_symbolTree,
      Suffix.meaning]
    cases low.bound p <;> cases high.bound p <;> rfl

/-! ## Reading phrases -/

variable (dialect : Pattern.Dialect)

theorem sequenceOf_node (tag contents : String) (p : Position) (children : List Tree) :
    sequenceOf dialect ⟨tag, contents, p, children⟩ =
      (do let items ← factorsOf dialect children; .ok (collapsed .sequence items)) := by
  rw [sequenceOf]
  rcases factorsOf dialect children with e | items
  · rfl
  · rcases items with _ | ⟨first, _ | ⟨second, rest⟩⟩ <;> rfl

/-- A tree that is a sequence gives an item of its own. -/
theorem sequencesOf_cons_seq (p : Position) (children ts : List Tree) :
    sequencesOf dialect (⟨"seq", "", p, children⟩ :: ts) = (do
      let factors ← factorsOf dialect children
      let items ← sequencesOf dialect ts
      .ok (collapsed .sequence factors :: items)) := by
  have hseq : Tree.hasTag ⟨"seq", "", p, children⟩ "seq" = true := by
    simp [Tree.hasTag, Tree.components]
  rw [sequencesOf, if_pos hseq, sequenceOf_node]
  cases factorsOf dialect children <;> rfl

theorem alternativesOf_node (tag contents : String) (p : Position) (children : List Tree) :
    alternativesOf dialect ⟨tag, contents, p, children⟩ =
      (do let items ← sequencesOf dialect children; .ok (collapsed .alternation items)) := by
  rw [alternativesOf]
  rcases sequencesOf dialect children with e | items
  · rfl
  · rcases items with _ | ⟨first, _ | ⟨second, rest⟩⟩ <;> rfl

theorem part_eq_ok {t child : Tree} {name : String} (h : t.find? name = some child) :
    part t name = .ok child := by
  rw [part, h]

/-- The name of a reference in angles is its second part. -/
theorem find?_angled (name : Name) (p q inner : Position) (ts : List Tree) :
    Tree.find? ⟨"ref", "", p, symbolTree '<' q :: name.tree inner :: ts⟩ "ident" =
      some (name.tree inner) := by
  rw [Tree.find?, List.find?_cons_of_neg, List.find?_cons_of_pos]
  · simp
  · simp

theorem referenceOf_angled (name : Name) (p q inner : Position) (ts : List Tree) :
    referenceOf ⟨"ref", "", p, symbolTree '<' q :: name.tree inner :: ts⟩ =
      .ok (.reference (String.ofList name.text) inner) := by
  have hpart : part ⟨"ref", "", p, symbolTree '<' q :: name.tree inner :: ts⟩ "ident" =
      .ok (name.tree inner) := part_eq_ok (find?_angled ..)
  rw [referenceOf, if_neg (by simp [Tree.isLeaf]), hpart]
  rfl

theorem baseOf_ref (contents : String) (p : Position) (children : List Tree) :
    baseOf dialect ⟨"ref", contents, p, children⟩ = referenceOf ⟨"ref", contents, p, children⟩ := by
  simp [baseOf, Tree.hasTag, Tree.components]

theorem baseOf_group (contents : String) (p : Position) (children : List Tree) :
    baseOf dialect ⟨"group", contents, p, children⟩ =
      groupOf dialect ⟨"group", contents, p, children⟩ children := by
  simp [baseOf, Tree.hasTag, Tree.components]

mutual

theorem baseOf_tree :
    ∀ (b : Base) (p : Position), baseOf dialect (b.tree p) = b.meaning dialect p
  | .string q _, p => by
    simp [Base.tree, Quoted.tree, Base.meaning, baseOf, Tree.hasTag, Tree.components,
      undelimited_quoted, unescape_piecesText, ← Quoted.ofText_value, Quoted.value]
  | .char q _, p => by
    simp [Base.tree, Quoted.tree, Base.meaning, baseOf, Tree.hasTag, Tree.components,
      undelimited_quoted, unescape_piecesText, ← Quoted.ofText_value, Quoted.value]
  | .regex q after, p => by
    rw [Base.tree, ← patternOf_quoted dialect "regex", Quoted.tree, baseOf]
    simp [Tree.hasTag, Tree.components]
  | .angled opening name _ _, p => by
    rw [Base.tree, Base.meaning, baseOf_ref, referenceOf_angled]
  | .bare name _, p => by
    simp [Base.tree, Base.meaning, baseOf, Tree.hasTag, Tree.components, referenceOf, Tree.isLeaf]
    rfl
  | .group opening a _, p => by
    rw [Base.tree, Base.meaning, baseOf_group, groupOf, if_neg (by simp),
      groupOf, if_pos (by simp), alternativesOf_tree a]

theorem factorOf_tree :
    ∀ (f : Factor) (p : Position), factorOf dialect (f.tree p) = f.meaning dialect p
  | .mk base suffix, p => by
    rw [Factor.tree, factorOf, baseOf_tree base p, Factor.meaning]
    cases suffix with
    | none => simp
    | some s => simp [suffixed_tree]

theorem factorsOf_trees :
    ∀ (s : Sequence) (p : Position), factorsOf dialect (s.trees p) = s.meanings dialect p
  | .nil, p => by rw [Sequence.trees, factorsOf, Sequence.meanings]
  | .cons first rest, p => by
    rw [Sequence.trees, factorsOf, if_pos (by simp), factorOf_tree first p,
      factorsOf_trees rest, Sequence.meanings]

theorem sequencesOf_trees :
    ∀ (b : Branches) (p : Position), sequencesOf dialect (b.trees p) = b.meanings dialect p
  | .nil, p => by rw [Branches.trees, sequencesOf, Branches.meanings]
  | .cons bar first rest, p => by
    rw [Branches.trees, sequencesOf, if_neg (by simp), sequencesOf_cons_seq,
      factorsOf_trees first, sequencesOf_trees rest, Branches.meanings]

theorem alternativesOf_tree :
    ∀ (a : Alternatives) (p : Position), alternativesOf dialect (a.tree p) = a.meaning dialect p
  | .mk first others, p => by
    rw [Alternatives.tree, alternativesOf_node, Alternatives.meaning, sequencesOf_cons_seq,
      factorsOf_trees first, sequencesOf_trees others]
    cases first.meanings dialect p with
    | error e => rfl
    | ok factors => cases others.meanings dialect (p.after first.text) <;> rfl

end

theorem Quoted.unescape_contents {mark : Char} (tag : String) (q : Quoted mark) (p : Position) :
    unescape (undelimited (q.tree tag p).contents) = q.value := by
  rw [Quoted.tree, undelimited_quoted, unescape_piecesText, Quoted.value]

/-- **A statement is read as what it defines.** -/
theorem Statement.ofTree_tree (s : Statement) (p : Position) :
    Definition.ofTree dialect (s.tree p) = s.definition dialect p := by
  have hname : part (s.tree p) "ident" = .ok (s.name.tree p) := by
    simp [part, Tree.find?, Statement.tree]
  have hlabel : ((s.tree p).find? "label").map (fun label =>
      String.ofList (unescape (undelimited label.contents))) =
        s.label.map fun l => String.ofList l.quoted.value := by
    cases hl : s.label <;> simp [Tree.find?, Statement.tree, hl, Quoted.unescape_contents]
  have hbody : part (s.tree p) "alt" = .ok (s.body.tree
      (((p.after (s.name.text ++ s.afterName.text)).after (s.label.elim [] Label.text)).after
        (':' :: s.colon.text))) := by
    cases hl : s.label <;> simp [part, Tree.find?, Statement.tree, hl]
  rw [Definition.ofTree, hname, hlabel, hbody, Statement.definition, ← alternativesOf_tree]
  rfl

theorem mapM_ofTree_statementsTrees (l : List Statement) (p : Position) :
    ((statementsTrees l p).filter (·.hasTag "stmt")).mapM (Definition.ofTree dialect) =
      statementsDefinitions dialect l p := by
  induction l generalizing p with
  | nil => rfl
  | cons s l ih =>
    rw [statementsTrees, List.filter_cons_of_pos (by simp), List.mapM_cons, ih,
      s.ofTree_tree, statementsDefinitions]
    rfl

/-- **A grammar is read as what it states.** -/
theorem Source.definitions_tree (s : Source) :
    ((s.tree .start).children.filter (·.hasTag "stmt")).mapM (Definition.ofTree dialect) =
      s.definitions dialect :=
  mapM_ofTree_statementsTrees ..

end Written

end Grammar

end ParserGraph
