import ParserGraph.Proofs.Grammar.Realization
import ParserGraph.Proofs.Graph.Likeness

/-!
# Twins — parsers of two graphs that were built for the same

Twins are parsers of two graphs that have the same shape down to the rules,
and rules are twins when they have the same name. Whatever ids an expression
was built under, the parsers that realize it in two graphs are twins
(`Realizes.twins`), so two graphs in which the same definitions were built
are alike (`alike_of_twins`). Where in a text the references of an expression
stand plays no part in what is built for it (`Realizes.unplaced`).
-/

namespace ParserGraph.Grammar

/-! ## Definitions apart from where they stand -/

mutual

/-- An expression whose references tell no place of their own. -/
def Expr.unplaced : Expr → Expr
  | .char c => .char c
  | .literal text => .literal text
  | .pattern p => .pattern p
  | .reference name _ => .reference name .start
  | .sequence items => .sequence (Expr.unplacedAll items)
  | .alternation items => .alternation (Expr.unplacedAll items)
  | .repetition item min max => .repetition item.unplaced min max
  | .optional item => .optional item.unplaced
  | .absent item => .absent item.unplaced

/-- Expressions whose references tell no place of their own. -/
def Expr.unplacedAll : List Expr → List Expr
  | [] => []
  | item :: items => item.unplaced :: Expr.unplacedAll items

end

/-- A definition that tells no place. -/
def Definition.unplaced (d : Definition) : Definition :=
  { d with body := d.body.unplaced, position := .start }

mutual

/-- What an expression refers to does not depend on where it stands. -/
theorem Expr.references_unplaced :
    ∀ e : Expr, e.unplaced.references.map Prod.fst = e.references.map Prod.fst
  | .char _ => rfl
  | .literal _ => rfl
  | .pattern _ => rfl
  | .reference _ _ => rfl
  | .sequence items => Expr.referencesAll_unplacedAll items
  | .alternation items => Expr.referencesAll_unplacedAll items
  | .repetition item _ _ => item.references_unplaced
  | .optional item => item.references_unplaced
  | .absent item => item.references_unplaced

theorem Expr.referencesAll_unplacedAll : ∀ es : List Expr,
    (Expr.referencesAll (Expr.unplacedAll es)).map Prod.fst = (Expr.referencesAll es).map Prod.fst
  | [] => rfl
  | e :: es => by
    rw [Expr.unplacedAll, Expr.referencesAll, Expr.referencesAll, List.map_append, List.map_append,
      e.references_unplaced, Expr.referencesAll_unplacedAll es]

end

section

variable {g : Graph} {sensitive : Bool} {rules : RuleTable}

mutual

/-- **What realizes an expression realizes it wherever it stands.** -/
theorem Realizes.unplaced {id : ParserId} {e : Expr} (h : Realizes g sensitive rules id e) :
    Realizes g sensitive rules id e.unplaced := by
  cases h with
  | char ht => exact .char ht
  | literal ht => exact .literal ht
  | pattern ht => exact .pattern ht
  | reference hname => exact .reference hname
  | sequence hall hwhole hid => exact .sequence hall.unplaced hwhole hid
  | alternation hall hid => exact .alternation hall.unplaced hid
  | repetition hpart hwhole hid => exact .repetition hpart.unplaced hwhole hid
  | optional hpart hid => exact .optional hpart.unplaced hid
  | absent hpart hid => exact .absent hpart.unplaced hid

theorem RealizesAll.unplaced {ids : List ParserId} {es : List Expr}
    (h : RealizesAll g sensitive rules ids es) :
    RealizesAll g sensitive rules ids (Expr.unplacedAll es) := by
  cases h with
  | nil => exact .nil
  | cons hid hids => exact .cons hid.unplaced hids.unplaced

end

theorem RealizesBody.unplaced {id : ParserId} {d : Definition}
    (h : RealizesBody g sensitive rules id d) : RealizesBody g sensitive rules id d.unplaced := by
  obtain ⟨name, label, body, position⟩ := d
  cases label with
  | none => exact Realizes.unplaced h
  | some label =>
    obtain ⟨part, hpart, hnode⟩ := h
    exact ⟨part, hpart.unplaced, hnode⟩

end

/-! ## Twins -/

/-- Parsers of two graphs that have the same shape down to the rules, which go by their names. -/
inductive Twins (g g' : Graph) (rules rules' : RuleTable) : ParserId → ParserId → Prop
  | rule {name : String} {p q : ParserId} :
      rules.get? name = some p → rules'.get? name = some q → Twins g g' rules rules' p q
  | node {p q : ParserId} {kind kind' : Kind} :
      g.node? p = some ⟨none, kind⟩ → g'.node? q = some ⟨none, kind'⟩ →
      kind.Alike (Twins g g' rules rules') kind' → Twins g g' rules rules' p q

section

variable {g g' : Graph} {sensitive : Bool} {rules rules' : RuleTable} {p q : ParserId}

theorem Skips.twins (hp : Skips g p) (hq : Skips g' q) : Twins g g' rules rules' p q := by
  obtain ⟨run, space, hp, hrun, hspace⟩ := hp
  obtain ⟨run', space', hq, hrun', hspace'⟩ := hq
  exact .node hp hq (.transform (.node hrun hrun' (.repetition (.node hspace hspace' .terminal))))

theorem RealizesTerminal.twins {t : Terminal} (hp : RealizesTerminal g sensitive p t)
    (hq : RealizesTerminal g' sensitive q t) : Twins g g' rules rules' p q := by
  cases sensitive with
  | true => exact .node hp hq .terminal
  | false =>
    obtain ⟨both, bare, spaces, hp, hboth, hbare, hspaces⟩ := hp
    obtain ⟨both', bare', spaces', hq, hboth', hbare', hspaces'⟩ := hq
    have hparts : List.Forall₂ (Twins g g' rules rules') [bare, spaces] [bare', spaces'] :=
      .cons (.node hbare hbare' .terminal) (.cons (hspaces.twins hspaces') .nil)
    exact .node hp hq (.transform (.node hboth hboth' (.sequence hparts)))

mutual

/-- **Parsers that realize the same expression are twins.** -/
theorem Realizes.twins {p q : ParserId} {e : Expr} (hp : Realizes g sensitive rules p e)
    (hq : Realizes g' sensitive rules' q e) : Twins g g' rules rules' p q := by
  cases hp with
  | char hp =>
    cases hq with
    | char hq => exact hp.twins hq
  | literal hp =>
    cases hq with
    | literal hq => exact hp.twins hq
  | pattern hp =>
    cases hq with
    | pattern hq => exact hp.twins hq
  | reference hp =>
    cases hq with
    | reference hq => exact .rule hp hq
  | sequence hall hwhole hp =>
    cases hq with
    | sequence hall' hwhole' hq =>
      exact .node hp hq (.transform (.node hwhole hwhole' (.sequence (hall.twins hall'))))
  | alternation hall hp =>
    cases hq with
    | alternation hall' hq => exact .node hp hq (.alternation (hall.twins hall'))
  | repetition hpart hwhole hp =>
    cases hq with
    | repetition hpart' hwhole' hq =>
      exact .node hp hq (.transform (.node hwhole hwhole' (.repetition (hpart.twins hpart'))))
  | optional hpart hp =>
    cases hq with
    | optional hpart' hq => exact .node hp hq (.optional (hpart.twins hpart'))
  | absent hpart hp =>
    cases hq with
    | absent hpart' hq => exact .node hp hq (.lookahead (hpart.twins hpart'))

theorem RealizesAll.twins {ids ids' : List ParserId} {es : List Expr}
    (h : RealizesAll g sensitive rules ids es) (h' : RealizesAll g' sensitive rules' ids' es) :
    List.Forall₂ (Twins g g' rules rules') ids ids' := by
  cases h with
  | nil =>
    cases h' with
    | nil => exact .nil
  | cons hid hids =>
    cases h' with
    | cons hid' hids' => exact .cons (hid.twins hid') (hids.twins hids')

end

/-- So are those that realize the right-hand side of the same definition. -/
theorem RealizesBody.twins {d : Definition} (hp : RealizesBody g sensitive rules p d)
    (hq : RealizesBody g' sensitive rules' q d) : Twins g g' rules rules' p q := by
  obtain ⟨name, label, body, position⟩ := d
  cases label with
  | none => exact Realizes.twins hp hq
  | some label =>
    obtain ⟨part, hpart, hp⟩ := hp
    obtain ⟨part', hpart', hq⟩ := hq
    exact .node hp hq (.expect (hpart.twins hpart'))

/-- **Two graphs are alike where rules of one name have bodies that are twins.** -/
theorem alike_of_twins
    (hrules : ∀ name p q, rules.get? name = some p → rules'.get? name = some q →
      ∃ body body', g.node? p = some ⟨some name, .rule (some body)⟩ ∧
        g'.node? q = some ⟨some name, .rule (some body')⟩ ∧ Twins g g' rules rules' body body') :
    g.Alike (Twins g g' rules rules') g' := by
  intro p q hpq
  cases hpq with
  | @rule name _ _ hp hq =>
    obtain ⟨body, body', hpnode, hqnode, hbody⟩ := hrules name p q hp hq
    exact ⟨some name, _, _, hpnode, hqnode, .rule hbody⟩
  | node hp hq hkind => exact ⟨none, _, _, hp, hq, hkind⟩

end

end ParserGraph.Grammar
