import ParserGraph.Grammar.Compile
import ParserGraph.Proofs.Graph.Arena
import ParserGraph.Proofs.Graph.Reach

/-!
# Realization — which nodes of a graph stand for an expression

A parser realizes an expression when it is the root of the nodes that the
expression is built as (`Realizes`): one shape for each form of expression,
references being the parsers of the rules they name. Nodes only ever change
by being given a body where they had none (`Graph.Refines`), and no node of a
realization is one of those, so that realizations last.
-/

namespace ParserGraph

namespace Graph

variable {g g' g'' : Graph}

/-- Every node of a graph is a node of another, unchanged. -/
def Extends (g g' : Graph) : Prop := ∀ id node, g.node? id = some node → g'.node? id = some node

theorem Extends.refl (g : Graph) : g.Extends g := fun _ _ h => h

theorem Extends.trans (h : g.Extends g') (h' : g'.Extends g'') : g.Extends g'' :=
  fun id node hnode => h' id node (h id node hnode)

theorem Extends.contains (h : g.Extends g') {id : ParserId} (hid : g.contains id) :
    g'.contains id := by
  obtain ⟨node, hnode⟩ := Option.isSome_iff_exists.1 hid
  exact Option.isSome_iff_exists.2 ⟨node, h id node hnode⟩

/-- A graph with one more node extends the graph without it. -/
theorem Added.extends {id : ParserId} {node : Node} (h : g.Added id node g') : g.Extends g' := by
  intro id' node' hnode
  have hne : id' ≠ id := by
    rintro rfl
    rw [h.fresh] at hnode
    exact nomatch hnode
  rw [h.node?_eq, if_neg hne]
  exact hnode

/-- Every node of a graph is a node of another, unchanged except that a placeholder may have been
given a body. -/
def Refines (g g' : Graph) : Prop :=
  ∀ id node, g.node? id = some node → g'.node? id = some node ∨
    ∃ name body, node = ⟨name, .rule none⟩ ∧ g'.node? id = some ⟨name, .rule (some body)⟩

theorem Extends.refines (h : g.Extends g') : g.Refines g' :=
  fun id node hnode => Or.inl (h id node hnode)

theorem Refines.trans (h : g.Refines g') (h' : g'.Refines g'') : g.Refines g'' := by
  intro id node hnode
  rcases h id node hnode with hkept | ⟨name, body, hopen, hbody⟩
  · exact h' id node hkept
  · rcases h' id _ hbody with hkept | ⟨name', body', hopen', -⟩
    · exact Or.inr ⟨name, body, hopen, hkept⟩
    · cases hopen'

/-- A node that is no open placeholder is kept. -/
theorem Refines.kept (h : g.Refines g') {id : ParserId} {name : Option String} {kind : Kind}
    (hnode : g.node? id = some ⟨name, kind⟩) (hkind : kind ≠ .rule none) :
    g'.node? id = some ⟨name, kind⟩ := by
  rcases h id _ hnode with hkept | ⟨name', body, hopen, -⟩
  · exact hkept
  · cases hopen
    exact absurd rfl hkind

/-- A node keeps its name. -/
theorem Refines.named (h : g.Refines g') {id : ParserId} {name : Option String} {kind : Kind}
    (hnode : g.node? id = some ⟨name, kind⟩) : ∃ kind', g'.node? id = some ⟨name, kind'⟩ := by
  rcases h id _ hnode with hkept | ⟨name', body, hopen, hbody⟩
  · exact ⟨kind, hkept⟩
  · cases hopen
    exact ⟨.rule (some body), hbody⟩

/-- Giving an open placeholder a body refines the graph. -/
theorem refines_replace {rule body : ParserId} {name : Option String}
    (hrule : g.node? rule = some ⟨name, .rule none⟩) :
    g.Refines (g.replace rule ⟨name, .rule (some body)⟩) := by
  intro id node hid
  rw [node?_replace hrule]
  by_cases he : id = rule
  · subst he
    cases hrule.symm.trans hid
    exact Or.inr ⟨name, body, rfl, if_pos rfl⟩
  · exact Or.inl (by rw [if_neg he]; exact hid)

end Graph

namespace Grammar

/-- A parser skips white space, and its tree is empty. -/
def Skips (g : Graph) (id : ParserId) : Prop :=
  ∃ run space, g.node? id = some ⟨none, .transform run Tree.skip⟩ ∧
    g.node? run = some ⟨none, .repetition space 0 none⟩ ∧
    g.node? space = some ⟨none, .terminal (.satisfy "whitespace" CharSet.whiteSpace.contains)⟩

/-- A parser is a terminal; unless white space counts, with the white space after it. -/
def RealizesTerminal (g : Graph) (sensitive : Bool) (id : ParserId) (t : Terminal) : Prop :=
  if sensitive then g.node? id = some ⟨none, .terminal t⟩
  else ∃ both bare spaces, g.node? id = some ⟨none, .transform both Tree.first⟩ ∧
    g.node? both = some ⟨none, .sequence [bare, spaces]⟩ ∧
    g.node? bare = some ⟨none, .terminal t⟩ ∧ Skips g spaces

mutual

/-- **A parser realizes an expression**, the rules being known by name. -/
inductive Realizes (g : Graph) (sensitive : Bool) (rules : RuleTable) : ParserId → Expr → Prop
  | char {id : ParserId} {c : Char} :
      RealizesTerminal g sensitive id (.char c) → Realizes g sensitive rules id (.char c)
  | literal {id : ParserId} {text : String} :
      RealizesTerminal g sensitive id (.literal text) →
      Realizes g sensitive rules id (.literal text)
  | pattern {id : ParserId} {p : Pattern} :
      RealizesTerminal g sensitive id (.pattern p) → Realizes g sensitive rules id (.pattern p)
  /-- A reference is the parser of the rule it names. -/
  | reference {id : ParserId} {name : String} {position : Position} :
      rules.get? name = some id → Realizes g sensitive rules id (.reference name position)
  /-- The tree of a sequence is folded. -/
  | sequence {id whole : ParserId} {parts : List ParserId} {items : List Expr} :
      RealizesAll g sensitive rules parts items → g.node? whole = some ⟨none, .sequence parts⟩ →
      g.node? id = some ⟨none, .transform whole Tree.fold⟩ →
      Realizes g sensitive rules id (.sequence items)
  | alternation {id : ParserId} {branches : List ParserId} {items : List Expr} :
      RealizesAll g sensitive rules branches items →
      g.node? id = some ⟨none, .alternation branches⟩ →
      Realizes g sensitive rules id (.alternation items)
  /-- And so is the tree of a repetition. -/
  | repetition {id whole part : ParserId} {item : Expr} {min : Nat} {max : Option Nat} :
      Realizes g sensitive rules part item → g.node? whole = some ⟨none, .repetition part min max⟩ →
      g.node? id = some ⟨none, .transform whole Tree.fold⟩ →
      Realizes g sensitive rules id (.repetition item min max)
  | optional {id part : ParserId} {item : Expr} :
      Realizes g sensitive rules part item → g.node? id = some ⟨none, .optional part⟩ →
      Realizes g sensitive rules id (.optional item)
  | absent {id part : ParserId} {item : Expr} :
      Realizes g sensitive rules part item → g.node? id = some ⟨none, .lookahead part true⟩ →
      Realizes g sensitive rules id (.absent item)

/-- Parsers realize expressions one by one. -/
inductive RealizesAll (g : Graph) (sensitive : Bool) (rules : RuleTable) :
    List ParserId → List Expr → Prop
  | nil : RealizesAll g sensitive rules [] []
  | cons {id : ParserId} {ids : List ParserId} {item : Expr} {items : List Expr} :
      Realizes g sensitive rules id item → RealizesAll g sensitive rules ids items →
      RealizesAll g sensitive rules (id :: ids) (item :: items)

end

/-- A parser realizes the right-hand side of a definition: its body, under its label if it has
one. -/
def RealizesBody (g : Graph) (sensitive : Bool) (rules : RuleTable) (id : ParserId)
    (d : Definition) : Prop :=
  match d.label with
  | none => Realizes g sensitive rules id d.body
  | some label => ∃ part, Realizes g sensitive rules part d.body ∧
      g.node? id = some ⟨none, .expect part label⟩

/-- A realization of an expression lives, if the rules do. -/
theorem Realizes.contains {g : Graph} {sensitive : Bool} {rules : RuleTable} {id : ParserId}
    {e : Expr}
    (hrules : ∀ name id, rules.get? name = some id → g.contains id)
    (h : Realizes g sensitive rules id e) : g.contains id := by
  have hterminal : ∀ {t : Terminal}, RealizesTerminal g sensitive id t → g.contains id := by
    intro t ht
    cases sensitive with
    | true => exact Graph.contains_iff.2 ⟨_, ht⟩
    | false =>
      obtain ⟨both, bare, spaces, hid, -⟩ := ht
      exact Graph.contains_iff.2 ⟨_, hid⟩
  cases h with
  | char ht => exact hterminal ht
  | literal ht => exact hterminal ht
  | pattern ht => exact hterminal ht
  | reference hget => exact hrules _ _ hget
  | sequence _ _ hid => exact Graph.contains_iff.2 ⟨_, hid⟩
  | alternation _ hid => exact Graph.contains_iff.2 ⟨_, hid⟩
  | repetition _ _ hid => exact Graph.contains_iff.2 ⟨_, hid⟩
  | optional _ hid => exact Graph.contains_iff.2 ⟨_, hid⟩
  | absent _ hid => exact Graph.contains_iff.2 ⟨_, hid⟩

/-- So do those of several expressions. -/
theorem RealizesAll.contains {g : Graph} {sensitive : Bool} {rules : RuleTable}
    {ids : List ParserId} {es : List Expr}
    (hrules : ∀ name id, rules.get? name = some id → g.contains id)
    (h : RealizesAll g sensitive rules ids es) : ∀ id ∈ ids, g.contains id := by
  induction es generalizing ids with
  | nil =>
    cases h
    exact fun _ hid => absurd hid List.not_mem_nil
  | cons e es ih =>
    cases h with
    | cons hid hids => exact List.forall_mem_cons.2 ⟨hid.contains hrules, ih hids⟩

/-! ## Realizations last -/

section

variable {g g' : Graph} (h : g.Refines g')
include h

theorem Skips.mono {id : ParserId} (hid : Skips g id) : Skips g' id := by
  obtain ⟨run, space, hid, hrun, hspace⟩ := hid
  exact ⟨run, space, h.kept hid Kind.noConfusion, h.kept hrun Kind.noConfusion,
    h.kept hspace Kind.noConfusion⟩

theorem RealizesTerminal.mono {sensitive : Bool} {id : ParserId} {t : Terminal}
    (hid : RealizesTerminal g sensitive id t) : RealizesTerminal g' sensitive id t := by
  cases sensitive with
  | true => exact h.kept hid Kind.noConfusion
  | false =>
    obtain ⟨both, bare, spaces, hid, hboth, hbare, hspaces⟩ := hid
    exact ⟨both, bare, spaces, h.kept hid Kind.noConfusion, h.kept hboth Kind.noConfusion,
      h.kept hbare Kind.noConfusion, hspaces.mono h⟩

end

mutual

theorem Realizes.mono {g g' : Graph} (h : g.Refines g') {sensitive : Bool} {rules : RuleTable}
    {id : ParserId} {e : Expr} (hid : Realizes g sensitive rules id e) :
    Realizes g' sensitive rules id e := by
  cases hid with
  | char ht => exact .char (ht.mono h)
  | literal ht => exact .literal (ht.mono h)
  | pattern ht => exact .pattern (ht.mono h)
  | reference hname => exact .reference hname
  | sequence hall hwhole hid =>
    exact .sequence (hall.mono h) (h.kept hwhole Kind.noConfusion) (h.kept hid Kind.noConfusion)
  | alternation hall hid => exact .alternation (hall.mono h) (h.kept hid Kind.noConfusion)
  | repetition hpart hwhole hid =>
    exact .repetition (hpart.mono h) (h.kept hwhole Kind.noConfusion) (h.kept hid Kind.noConfusion)
  | optional hpart hid => exact .optional (hpart.mono h) (h.kept hid Kind.noConfusion)
  | absent hpart hid => exact .absent (hpart.mono h) (h.kept hid Kind.noConfusion)

theorem RealizesAll.mono {g g' : Graph} (h : g.Refines g') {sensitive : Bool} {rules : RuleTable}
    {ids : List ParserId} {es : List Expr} (hids : RealizesAll g sensitive rules ids es) :
    RealizesAll g' sensitive rules ids es := by
  cases hids with
  | nil => exact .nil
  | cons hid hids => exact .cons (hid.mono h) (hids.mono h)

end

/-- The right-hand side of a definition stays realized. -/
theorem RealizesBody.mono {g g' : Graph} (h : g.Refines g') {sensitive : Bool} {rules : RuleTable}
    {id : ParserId} {d : Definition} (hid : RealizesBody g sensitive rules id d) :
    RealizesBody g' sensitive rules id d := by
  unfold RealizesBody at hid ⊢
  cases hlabel : d.label with
  | none =>
    rw [hlabel] at hid
    exact hid.mono h
  | some label =>
    rw [hlabel] at hid
    obtain ⟨part, hpart, hid⟩ := hid
    exact ⟨part, hpart.mono h, h.kept hid Kind.noConfusion⟩

end Grammar

end ParserGraph
