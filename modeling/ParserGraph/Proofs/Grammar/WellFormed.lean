import ParserGraph.Proofs.Grammar.Order
import ParserGraph.Proofs.Validation.Decision

/-!
# Well-formed grammars — what is accepted, told by how it is written

Definitions are well-formed when they can be told to be so without a graph
(`WellFormed`): names do not repeat, references are to rules that are defined,
nothing that may match the empty text is repeated without bound, and no rule
may call itself before anything is taken. Where white space counts, each
expression is a node of its own (`Stands`), perhaps under nodes that only pass
on what it does. So expressions are nullable where their nodes are
(`Draft.Filled.nullable_iff`), rules call each other where their nodes do, and
the graph is valid where nothing in the definitions stands against it
(`Draft.Filled.validate_iff`): just the well-formed ones are accepted
(`assemble_accepts_iff`).
-/

namespace ParserGraph

namespace Grammar

variable {ds : List Definition} {e item : Expr} {name : String}

/-! ## Expressions and rules -/

/-- The expressions that may match without taking anything, as far as their form tells, and no
others. -/
inductive Expr.Nullable (ds : List Definition) : Expr → Prop
  | literal {text : String} : text.isEmpty → Nullable ds (.literal text)
  | pattern {p : Pattern} : p.isNullable → Nullable ds (.pattern p)
  | reference {d : Definition} {name : String} {position : Position} :
      d ∈ ds → d.name = name → Nullable ds d.body → Nullable ds (.reference name position)
  | sequence {items : List Expr} : (∀ e ∈ items, Nullable ds e) → Nullable ds (.sequence items)
  | alternation {e : Expr} {items : List Expr} :
      e ∈ items → Nullable ds e → Nullable ds (.alternation items)
  | noRound {item : Expr} {max : Option Nat} : Nullable ds (.repetition item 0 max)
  | repetition {item : Expr} {min : Nat} {max : Option Nat} :
      Nullable ds item → Nullable ds (.repetition item min max)
  | optional {item : Expr} : Nullable ds (.optional item)
  | absent {item : Expr} : Nullable ds (.absent item)

/-- What an expression is made of. -/
def Expr.items : Expr → List Expr
  | .char _ => []
  | .literal _ => []
  | .pattern _ => []
  | .reference _ _ => []
  | .sequence items => items
  | .alternation items => items
  | .repetition item _ _ => [item]
  | .optional item => [item]
  | .absent item => [item]

/-- The rules that an expression may call before anything is taken: of a sequence, those of the
items up to the first that is not nullable; of anything else, those of every item. -/
inductive Expr.MayCall (ds : List Definition) : Expr → String → Prop
  | reference {name : String} {position : Position} : MayCall ds (.reference name position) name
  | sequence {front back : List Expr} {e : Expr} {name : String} :
      (∀ e' ∈ front, e'.Nullable ds) → MayCall ds e name →
      MayCall ds (.sequence (front ++ e :: back)) name
  | other {e item : Expr} {name : String} :
      (∀ items, e ≠ .sequence items) → item ∈ e.items → MayCall ds item name → MayCall ds e name

/-- A rule may call another before anything is taken. -/
def RuleCalls (ds : List Definition) (name other : String) : Prop :=
  ∃ d ∈ ds, d.name = name ∧ d.body.MayCall ds other

/-- The expressions that occur in definitions. -/
inductive Occurs (ds : List Definition) : Expr → Prop
  | body {d : Definition} : d ∈ ds → Occurs ds d.body
  | item {e item : Expr} : Occurs ds e → item ∈ e.items → Occurs ds item

/-- Definitions that make up a grammar. -/
structure WellFormed (ds : List Definition) : Prop where
  /-- No rule is defined twice. -/
  nodup : (ds.map Definition.name).Nodup
  /-- Every reference is to a rule that is defined. -/
  defined : ∀ d ∈ ds, ∀ r ∈ d.body.references, r.1 ∈ ds.map Definition.name
  /-- What is repeated without bound takes something. -/
  advances : ∀ item min, Occurs ds (.repetition item min none) → ¬ item.Nullable ds
  /-- No rule may call itself before anything is taken, be it through others. -/
  descends : ∀ name, ¬ Relation.TransGen (RuleCalls ds) name name

theorem not_dangling_iff :
    ¬ Dangling ds ↔ ∀ d ∈ ds, ∀ r ∈ d.body.references, r.1 ∈ ds.map Definition.name := by
  constructor
  · intro h d hd r hr
    exact by_contra fun hnone => h ⟨d, hd, r.1, List.mem_map_of_mem hr, hnone⟩
  · rintro h ⟨d, hd, name, hname, hnone⟩
    obtain ⟨r, hr, rfl⟩ := List.mem_map.1 hname
    exact hnone (h d hd r hr)

/-- What holds of every expression of whose items it holds holds of all expressions. -/
@[elab_as_elim]
theorem Expr.induct {P : Expr → Prop} (step : ∀ e : Expr, (∀ item ∈ e.items, P item) → P e)
    (e : Expr) : P e :=
  @Expr.rec P (fun items => ∀ item ∈ items, P item) (fun _ => step _ nofun) (fun _ => step _ nofun)
    (fun _ => step _ nofun) (fun _ _ => step _ nofun) (fun _ ih => step _ ih) (fun _ ih => step _ ih)
    (fun _ _ _ ih => step _ (List.forall_mem_singleton.2 ih))
    (fun _ ih => step _ (List.forall_mem_singleton.2 ih))
    (fun _ ih => step _ (List.forall_mem_singleton.2 ih)) nofun
    (fun _ _ he hes => List.forall_mem_cons.2 ⟨he, hes⟩) e

/-- What corresponds to some parts, one of them, and others is made up likewise. -/
theorem exists_append_of_forall₂ {α β : Type} {R : α → β → Prop} {front back : List α} {x : α}
    {ys : List β} (h : List.Forall₂ R (front ++ x :: back) ys) :
    ∃ front' y back', ys = front' ++ y :: back' ∧ List.Forall₂ R front front' ∧ R x y := by
  induction front generalizing ys with
  | nil =>
    cases h with
    | cons hxy _ => exact ⟨[], _, _, rfl, .nil, hxy⟩
  | cons z front ih =>
    cases h with
    | cons hz hrest =>
      obtain ⟨front', y, back', rfl, hfront, hxy⟩ := ih hrest
      exact ⟨_ :: front', y, back', rfl, .cons hz hfront, hxy⟩

theorem RealizesAll.forall₂ {g : Graph} {sensitive : Bool} {rules : RuleTable}
    {ids : List ParserId} {es : List Expr} (h : RealizesAll g sensitive rules ids es) :
    List.Forall₂ (Realizes g sensitive rules) ids es := by
  induction es generalizing ids with
  | nil =>
    cases h
    exact .nil
  | cons e es ih =>
    cases h with
    | cons hid hids => exact .cons hid (ih hids)

end Grammar

/-! ## Nodes that pass on what others do -/

namespace Graph

variable {g : Graph} {roots : List ParserId} {p o core id : ParserId}

/-- A node that passes on what another does, with another tree or another message. -/
def Wraps (g : Graph) (p o : ParserId) : Prop :=
  (∃ mapping, g.kind? p = some (.transform o mapping)) ∨
    ∃ label, g.kind? p = some (.expect o label)

theorem Wraps.operands_eq (h : g.Wraps p o) : g.operands p = [o] := by
  rcases h with ⟨mapping, hkind⟩ | ⟨label, hkind⟩ <;> exact operands_of_kind? hkind

theorem Wraps.contains (h : g.Wraps p o) : g.contains p := by
  rcases h with ⟨mapping, hkind⟩ | ⟨label, hkind⟩ <;> exact contains_of_kind? hkind

open Classical in
theorem Wraps.nullable_iff (h : g.Wraps p o) : g.Nullable p ↔ g.Nullable o := by
  rcases h with ⟨mapping, hkind⟩ | ⟨label, hkind⟩ <;>
    exact (nullable_iff_of_kind? hkind).trans (decide_eq_true_iff)

theorem Wraps.mayCall (h : g.Wraps p o) : g.MayCall p o := by
  rcases h with ⟨mapping, hkind⟩ | ⟨label, hkind⟩ <;>
    exact ⟨_, hkind, .other (fun _ => Kind.noConfusion) (List.mem_singleton_self o)⟩

/-- What wraps something is nullable where that is. -/
theorem nullable_iff_of_wraps (h : Relation.ReflTransGen g.Wraps p core) :
    g.Nullable p ↔ g.Nullable core := by
  induction h using Relation.ReflTransGen.head_induction_on with
  | refl => rfl
  | head hwraps _ ih => exact hwraps.nullable_iff.trans ih

/-- What is under wraps in reach is in reach, and called before anything is taken. -/
theorem calls_of_wraps (h : Relation.ReflTransGen g.Wraps p core) (hcore : g.contains core)
    (hp : g.InReach roots p) :
    g.InReach roots core ∧ Relation.ReflTransGen (g.CallsInReach roots) p core := by
  induction h using Relation.ReflTransGen.head_induction_on with
  | refl => exact ⟨hp, .refl⟩
  | @head p o hwraps hrest ih =>
    have hlive : g.contains o := by
      rcases Relation.ReflTransGen.cases_head hrest with rfl | ⟨o', hwraps', -⟩
      · exact hcore
      · exact hwraps'.contains
    have ho : g.InReach roots o := hp.operand (hwraps.operands_eq ▸ List.mem_singleton_self o) hlive
    obtain ⟨hreach, hpath⟩ := ih ho
    exact ⟨hreach, .head ⟨hp, ho, hwraps.mayCall⟩ hpath⟩

/-- What is under wraps on a cycle is on it too. -/
theorem OnCycle.of_wraps (h : Relation.ReflTransGen g.Wraps p core) (hp : g.OnCycle roots p) :
    g.OnCycle roots core := by
  induction h using Relation.ReflTransGen.head_induction_on with
  | refl => exact hp
  | head hwraps _ ih =>
    rcases hwraps with ⟨mapping, hkind⟩ | ⟨label, hkind⟩
    · exact ih (hp.of_singleton hkind rfl)
    · exact ih (hp.of_singleton hkind rfl)

end Graph

namespace Grammar

/-! ## Nodes that stand for expressions -/

/-- A node that does what an expression says, over parsers that realize its items. -/
inductive Form (g : Graph) (rules : RuleTable) (ds : List Definition) : ParserId → Expr → Prop
  | char {id : ParserId} {c : Char} :
      g.kind? id = some (.terminal (.char c)) → Form g rules ds id (.char c)
  | literal {id : ParserId} {text : String} :
      g.kind? id = some (.terminal (.literal text)) → Form g rules ds id (.literal text)
  | pattern {id : ParserId} {p : Pattern} :
      g.kind? id = some (.terminal (.pattern p)) → Form g rules ds id (.pattern p)
  | reference {id body : ParserId} {d : Definition} {name : String} {position : Position} :
      rules.get? name = some id → g.kind? id = some (.rule (some body)) → d ∈ ds →
      d.name = name → RealizesBody g true rules body d →
      Form g rules ds id (.reference name position)
  | sequence {id : ParserId} {parts : List ParserId} {items : List Expr} :
      g.kind? id = some (.sequence parts) → List.Forall₂ (Realizes g true rules) parts items →
      Form g rules ds id (.sequence items)
  | alternation {id : ParserId} {branches : List ParserId} {items : List Expr} :
      g.kind? id = some (.alternation branches) →
      List.Forall₂ (Realizes g true rules) branches items → Form g rules ds id (.alternation items)
  | repetition {id part : ParserId} {item : Expr} {min : Nat} {max : Option Nat} :
      g.kind? id = some (.repetition part min max) → Realizes g true rules part item →
      Form g rules ds id (.repetition item min max)
  | optional {id part : ParserId} {item : Expr} :
      g.kind? id = some (.optional part) → Realizes g true rules part item →
      Form g rules ds id (.optional item)
  | absent {id part : ParserId} {item : Expr} :
      g.kind? id = some (.lookahead part true) → Realizes g true rules part item →
      Form g rules ds id (.absent item)

/-- A node that stands for an expression, perhaps under others that pass on what it does. -/
def Stands (g : Graph) (rules : RuleTable) (ds : List Definition) (id : ParserId) (e : Expr) :
    Prop :=
  ∃ core, Relation.ReflTransGen g.Wraps id core ∧ Form g rules ds core e

variable {g : Graph} {rules : RuleTable} {roots : List ParserId} {d : Draft} {id : ParserId}

theorem Form.contains (h : Form g rules ds id e) : g.contains id := by
  cases h <;> exact Graph.contains_of_kind? ‹_›

/-- The operands of a node that does what an expression says realize the items of that, but where it
says to call a rule: then the operand is the body of the rule. -/
theorem Form.operands (h : Form g rules ds id e) :
    List.Forall₂ (Realizes g true rules) (g.operands id) e.items ∨
      ∃ name position body, e = .reference name position ∧ g.operands id = [body] ∧
        ∃ c ∈ ds, RealizesBody g true rules body c := by
  cases h with
  | char hkind => exact Or.inl (Graph.operands_of_kind? hkind ▸ .nil)
  | literal hkind => exact Or.inl (Graph.operands_of_kind? hkind ▸ .nil)
  | pattern hkind => exact Or.inl (Graph.operands_of_kind? hkind ▸ .nil)
  | reference _ hkind hc _ hbody =>
    exact Or.inr ⟨_, _, _, rfl, Graph.operands_of_kind? hkind, _, hc, hbody⟩
  | sequence hkind hall => exact Or.inl (Graph.operands_of_kind? hkind ▸ hall)
  | alternation hkind hall => exact Or.inl (Graph.operands_of_kind? hkind ▸ hall)
  | repetition hkind hreal => exact Or.inl (Graph.operands_of_kind? hkind ▸ .cons hreal .nil)
  | optional hkind hreal => exact Or.inl (Graph.operands_of_kind? hkind ▸ .cons hreal .nil)
  | absent hkind hreal => exact Or.inl (Graph.operands_of_kind? hkind ▸ .cons hreal .nil)

/-- Every item is realized by an operand. -/
theorem Form.exists_operand (h : Form g rules ds id e) (hitem : item ∈ e.items) :
    ∃ o ∈ g.operands id, Realizes g true rules o item := by
  rcases h.operands with hall | ⟨_, _, _, rfl, -, -⟩
  · exact exists_mem_of_forall₂ hall.flip hitem
  · exact absurd hitem List.not_mem_nil

/-- A node that does not stand for a sequence may call all its operands. -/
theorem Form.mayCall (h : Form g rules ds id e) (hno : ∀ items, e ≠ .sequence items)
    {o : ParserId} (ho : o ∈ g.operands id) : g.MayCall id o := by
  have hother : ∀ {kind : Kind}, g.kind? id = some kind → (∀ parts, kind ≠ .sequence parts) →
      g.MayCall id o :=
    fun hkind hparts => ⟨_, hkind, .other hparts (Graph.operands_of_kind? hkind ▸ ho)⟩
  cases h with
  | sequence _ _ => exact absurd rfl (hno _)
  | char hkind => exact hother hkind fun _ => Kind.noConfusion
  | literal hkind => exact hother hkind fun _ => Kind.noConfusion
  | pattern hkind => exact hother hkind fun _ => Kind.noConfusion
  | reference _ hkind _ _ _ => exact hother hkind fun _ => Kind.noConfusion
  | alternation hkind _ => exact hother hkind fun _ => Kind.noConfusion
  | repetition hkind _ => exact hother hkind fun _ => Kind.noConfusion
  | optional hkind _ => exact hother hkind fun _ => Kind.noConfusion
  | absent hkind _ => exact hother hkind fun _ => Kind.noConfusion

/-- A node is nullable if whatever does what it stands for is. -/
theorem Stands.nullable (h : Stands g rules ds id e)
    (hforms : ∀ core, Form g rules ds core e → g.Nullable core) : g.Nullable id := by
  obtain ⟨core, hwraps, hform⟩ := h
  exact (Graph.nullable_iff_of_wraps hwraps).2 (hforms core hform)

theorem Stands.contains (h : Stands g rules ds id e) : g.contains id := by
  obtain ⟨core, hwraps, hform⟩ := h
  rcases Relation.ReflTransGen.cases_head hwraps with rfl | ⟨o, hwrap, -⟩
  · exact hform.contains
  · exact hwrap.contains

/-- What a node in reach stands for is done by a node in reach, which it may call. -/
theorem Stands.form_inReach (h : Stands g rules ds id e) (hid : g.InReach roots id) :
    ∃ core, Form g rules ds core e ∧ g.InReach roots core ∧
      Relation.ReflTransGen (g.CallsInReach roots) id core := by
  obtain ⟨core, hwraps, hform⟩ := h
  obtain ⟨hcore, hpath⟩ := Graph.calls_of_wraps hwraps hform.contains hid
  exact ⟨core, hform, hcore, hpath⟩

namespace Draft.Filled

variable (h : d.Filled true .empty ds rules roots)
include h

/-- **What realizes an expression stands for it.** -/
theorem stands (hreal : Realizes d.graph true rules id e) : Stands d.graph rules ds id e := by
  cases hreal with
  | char ht => exact ⟨id, .refl, .char (Graph.kind?_of_node? ht)⟩
  | literal ht => exact ⟨id, .refl, .literal (Graph.kind?_of_node? ht)⟩
  | pattern ht => exact ⟨id, .refl, .pattern (Graph.kind?_of_node? ht)⟩
  | reference hget =>
    obtain ⟨c, hc, hname, body, hnode, hbody⟩ := h.body hget
    exact ⟨id, .refl, .reference hget (Graph.kind?_of_node? hnode) hc hname hbody⟩
  | @sequence _ whole _ _ hall hwhole hid =>
    exact ⟨whole, .single (Or.inl ⟨_, Graph.kind?_of_node? hid⟩),
      .sequence (Graph.kind?_of_node? hwhole) hall.forall₂⟩
  | alternation hall hid => exact ⟨id, .refl, .alternation (Graph.kind?_of_node? hid) hall.forall₂⟩
  | @repetition _ whole _ _ _ _ hpart hwhole hid =>
    exact ⟨whole, .single (Or.inl ⟨_, Graph.kind?_of_node? hid⟩),
      .repetition (Graph.kind?_of_node? hwhole) hpart⟩
  | optional hpart hid => exact ⟨id, .refl, .optional (Graph.kind?_of_node? hid) hpart⟩
  | absent hpart hid => exact ⟨id, .refl, .absent (Graph.kind?_of_node? hid) hpart⟩

/-- And so does the body of a rule. -/
theorem stands_body {c : Definition} (hbody : RealizesBody d.graph true rules id c) :
    Stands d.graph rules ds id c.body := by
  unfold RealizesBody at hbody
  split at hbody
  · exact h.stands hbody
  · obtain ⟨part, hpart, hnode⟩ := hbody
    obtain ⟨core, hwraps, hform⟩ := h.stands hpart
    exact ⟨core, .head (Or.inr ⟨_, Graph.kind?_of_node? hnode⟩) hwraps, hform⟩

/-- A definition is the one that its rule was given a body for. -/
theorem body_of_mem {c : Definition} (hc : c ∈ ds) : ∃ id body, rules.get? c.name = some id ∧
    d.graph.kind? id = some (.rule (some body)) ∧ RealizesBody d.graph true rules body c := by
  obtain ⟨id, body, hget, hnode, hbody⟩ := h.defined c hc
  exact ⟨id, body, hget, Graph.kind?_of_node? hnode, hbody⟩

/-! ## What is nullable -/

theorem nullable_of_form (he : e.Nullable ds) :
    ∀ core, Form d.graph rules ds core e → d.graph.Nullable core := by
  induction he with
  | literal ht =>
    rintro core (_ | hkind)
    exact .terminal hkind ht
  | pattern hp =>
    intro core hform
    cases hform with
    | pattern hkind => exact .terminal hkind hp
  | reference hc hname _ ih =>
    intro core hform
    cases hform with
    | reference hget hkind _ _ _ =>
      -- the rule was given the body of the definition
      subst hname
      obtain ⟨id, body, hget', hkind', hbody⟩ := h.body_of_mem hc
      cases hget.symm.trans hget'
      exact .rule hkind' ((h.stands_body hbody).nullable ih)
  | sequence _ ih =>
    intro core hform
    cases hform with
    | sequence hkind hall =>
      refine .sequence hkind fun o ho => ?_
      obtain ⟨item, hitem, hreal⟩ := exists_mem_of_forall₂ hall ho
      exact (h.stands hreal).nullable (ih item hitem)
  | alternation hitem _ ih =>
    intro core hform
    cases hform with
    | alternation hkind hall =>
      obtain ⟨o, ho, hreal⟩ := exists_mem_of_forall₂ hall.flip hitem
      exact .alternation hkind ho ((h.stands hreal).nullable ih)
  | noRound =>
    intro core hform
    cases hform with
    | repetition hkind _ => exact .noRound hkind
  | repetition _ ih =>
    intro core hform
    cases hform with
    | repetition hkind hreal =>
      exact .repetition hkind ((h.stands hreal).nullable ih)
  | optional =>
    intro core hform
    cases hform with
    | optional hkind _ => exact .optional hkind
  | absent =>
    intro core hform
    cases hform with
    | absent hkind _ => exact .lookahead hkind

theorem nullable_of_stands (hnull : d.graph.Nullable id) :
    ∀ e, Stands d.graph rules ds id e → e.Nullable ds := by
  -- the expressions of nodes that are nullable are closed under the rules of nullability
  refine hnull.least (S := fun id => ∀ e, Stands d.graph rules ds id e → e.Nullable ds) ?_
  rintro id known hknown hany e ⟨core, hwraps, hform⟩
  obtain ⟨kind, hkind, hnull⟩ := (Option.any_eq_true _ _).1 hany
  rcases Relation.ReflTransGen.cases_head hwraps with rfl | ⟨o, hwrap, hrest⟩
  · cases hform with
    | char hkind' =>
      cases hkind.symm.trans hkind'
      exact absurd hnull Bool.false_ne_true
    | literal hkind' =>
      cases hkind.symm.trans hkind'
      exact .literal hnull
    | pattern hkind' =>
      cases hkind.symm.trans hkind'
      exact .pattern hnull
    | reference _ hkind' hc hname hbody =>
      cases hkind.symm.trans hkind'
      exact .reference hc hname
        (hknown _ (List.contains_iff_mem.1 hnull) _ (h.stands_body hbody))
    | sequence hkind' hall =>
      cases hkind.symm.trans hkind'
      refine .sequence fun item hitem => ?_
      obtain ⟨o, ho, hreal⟩ := exists_mem_of_forall₂ hall.flip hitem
      have hmem : o ∈ known := List.contains_iff_mem.1 (List.all_eq_true.1 hnull o ho)
      exact hknown o hmem item (h.stands hreal)
    | alternation hkind' hall =>
      cases hkind.symm.trans hkind'
      obtain ⟨o, ho, hmem⟩ := List.any_eq_true.1 hnull
      obtain ⟨item, hitem, hreal⟩ := exists_mem_of_forall₂ hall ho
      exact .alternation hitem (hknown o (List.contains_iff_mem.1 hmem) item (h.stands hreal))
    | repetition hkind' hreal =>
      cases hkind.symm.trans hkind'
      rw [Kind.isNullable, Bool.or_eq_true, decide_eq_true_eq] at hnull
      rcases hnull with rfl | hmem
      · exact .noRound
      · exact .repetition (hknown _ (List.contains_iff_mem.1 hmem) _ (h.stands hreal))
    | optional _ _ => exact .optional
    | absent _ _ => exact .absent
  · have hmem : o ∈ known := by
      rcases hwrap with ⟨mapping, hkind'⟩ | ⟨label, hkind'⟩ <;>
        cases hkind.symm.trans hkind' <;> exact List.contains_iff_mem.1 hnull
    exact hknown o hmem e ⟨core, hrest, hform⟩

/-- **A node is nullable where the expression is that it stands for.** -/
theorem nullable_iff (hid : Stands d.graph rules ds id e) :
    d.graph.Nullable id ↔ e.Nullable ds :=
  ⟨fun hnull => h.nullable_of_stands hnull e hid, fun he => hid.nullable (h.nullable_of_form he)⟩

/-! ## What is in reach -/

/-- The rules that are defined are roots, and live. -/
theorem root_inReach {name : String} (hget : rules.get? name = some id) :
    d.graph.InReach roots id := by
  obtain ⟨c, hc, rfl, body, hnode, -⟩ := h.body hget
  exact ⟨id, (h.mem_roots id).2 ⟨c.name, List.mem_map_of_mem hc, hget⟩,
    .refl (Graph.contains_iff.2 ⟨_, hnode⟩)⟩

/-- What is in reach stands for something: for an expression that occurs in the definitions, or for
a rule. -/
theorem stands_of_inReach (hid : d.graph.InReach roots id) : ∃ e, Stands d.graph rules ds id e ∧
    (Occurs ds e ∨ ∃ name position, e = .reference name position) := by
  obtain ⟨r, hr, hleads⟩ := hid
  induction hleads with
  | refl _ =>
    obtain ⟨name, -, hget⟩ := (h.mem_roots r).1 hr
    exact ⟨.reference name .start, h.stands (.reference hget), Or.inr ⟨name, .start, rfl⟩⟩
  | @step p o _ ho _ ih =>
    obtain ⟨e, ⟨core, hwraps, hform⟩, hoccurs⟩ := ih
    rcases Relation.ReflTransGen.cases_head hwraps with rfl | ⟨o', hwrap, hrest⟩
    · rcases hform.operands with hall | ⟨_, _, body, rfl, hops, c, hc, hbody⟩
      · obtain ⟨item, hitem, hreal⟩ := exists_mem_of_forall₂ hall ho
        refine ⟨item, h.stands hreal, Or.inl (.item (hoccurs.resolve_right ?_) hitem)⟩
        rintro ⟨_, _, rfl⟩
        exact absurd hitem List.not_mem_nil
      · rw [hops, List.mem_singleton] at ho
        exact ⟨c.body, ho ▸ h.stands_body hbody, Or.inl (.body hc)⟩
    · rw [hwrap.operands_eq, List.mem_singleton] at ho
      exact ⟨e, ⟨core, ho ▸ hrest, hform⟩, hoccurs⟩

/-- Every expression that occurs in the definitions has a node in reach that does what it says. -/
theorem exists_form_of_occurs (hoccurs : Occurs ds e) :
    ∃ core, Form d.graph rules ds core e ∧ d.graph.InReach roots core := by
  have hitem : ∀ {p part : ParserId} {e : Expr}, d.graph.InReach roots p →
      part ∈ d.graph.operands p → Stands d.graph rules ds part e →
      ∃ core, Form d.graph rules ds core e ∧ d.graph.InReach roots core := by
    intro p part e hp hmem hpart
    obtain ⟨core, hform, hcore, -⟩ := hpart.form_inReach (hp.operand hmem hpart.contains)
    exact ⟨core, hform, hcore⟩
  induction hoccurs with
  | body hc =>
    obtain ⟨id, body, hget, hkind, hbody⟩ := h.body_of_mem hc
    refine hitem (h.root_inReach hget) ?_ (h.stands_body hbody)
    rw [Graph.operands_of_kind? hkind]
    exact List.mem_singleton_self body
  | item _ hmem ih =>
    obtain ⟨core, hform, hcore⟩ := ih
    obtain ⟨o, ho, hreal⟩ := hform.exists_operand hmem
    exact hitem hcore ho (h.stands hreal)

/-! ## Calls made before anything is taken -/

/-- **The calls of an expression lead to the rule it may call.** -/
theorem exists_path_of_mayCall (hcall : e.MayCall ds name) :
    ∀ core, Form d.graph rules ds core e → d.graph.InReach roots core →
      ∃ target, rules.get? name = some target ∧
        Relation.ReflTransGen (d.graph.CallsInReach roots) core target := by
  -- what a part may call is called by way of the part
  have hitem : ∀ {p part : ParserId} {e : Expr} {name : String}, d.graph.InReach roots p →
      d.graph.MayCall p part → Stands d.graph rules ds part e →
      (∀ core, Form d.graph rules ds core e → d.graph.InReach roots core →
        ∃ target, rules.get? name = some target ∧
          Relation.ReflTransGen (d.graph.CallsInReach roots) core target) →
      ∃ target, rules.get? name = some target ∧
        Relation.ReflTransGen (d.graph.CallsInReach roots) p target := by
    intro p part e name hp hmay hpart ih
    have hreach := hp.operand hmay.mem_operands hpart.contains
    obtain ⟨core, hform, hcore, hpath⟩ := hpart.form_inReach hreach
    obtain ⟨target, hget, hrest⟩ := ih core hform hcore
    exact ⟨target, hget, .head ⟨hp, hreach, hmay⟩ (hpath.trans hrest)⟩
  induction hcall with
  | reference =>
    intro core hform _
    cases hform with
    | reference hget _ _ _ _ => exact ⟨core, hget, .refl⟩
  | sequence hfront _ ih =>
    intro core hform hcore
    cases hform with
    | sequence hkind hall =>
      obtain ⟨front, part, back, rfl, hfronts, hreal⟩ := exists_append_of_forall₂ hall.flip
      refine hitem hcore ⟨_, hkind, .sequence fun q hq => ?_⟩ (h.stands hreal) ih
      obtain ⟨e', he', hreal'⟩ := exists_mem_of_forall₂ hfronts.flip hq
      exact (h.nullable_iff (h.stands hreal')).2 (hfront e' he')
  | other hno hmem _ ih =>
    intro core hform hcore
    obtain ⟨o, ho, hreal⟩ := hform.exists_operand hmem
    exact hitem hcore (hform.mayCall hno ho) (h.stands hreal) ih

/-- Rules that call each other have parsers that do. -/
theorem exists_path_of_ruleCalls {name other : String}
    (hcalls : Relation.TransGen (RuleCalls ds) name other) (hget : rules.get? name = some id) :
    ∃ target, rules.get? other = some target ∧
      Relation.TransGen (d.graph.CallsInReach roots) id target := by
  have hstep : ∀ {name other : String} {id : ParserId}, RuleCalls ds name other →
      rules.get? name = some id → ∃ target, rules.get? other = some target ∧
        Relation.TransGen (d.graph.CallsInReach roots) id target := by
    rintro name other id ⟨c, hc, rfl, hcall⟩ hget
    obtain ⟨id', body, hget', hkind, hbody⟩ := h.body_of_mem hc
    cases hget.symm.trans hget'
    have hmay : d.graph.MayCall id body :=
      ⟨_, hkind, .other (fun _ => Kind.noConfusion) (List.mem_singleton_self _)⟩
    have hid := h.root_inReach hget
    have hstands := h.stands_body hbody
    have hreach := hid.operand hmay.mem_operands hstands.contains
    obtain ⟨core, hform, hcore, hpath⟩ := hstands.form_inReach hreach
    obtain ⟨target, htarget, hrest⟩ := h.exists_path_of_mayCall hcall core hform hcore
    exact ⟨target, htarget, .head' ⟨hid, hreach, hmay⟩ (hpath.trans hrest)⟩
  induction hcalls with
  | single hcall => exact hstep hcall hget
  | tail _ hcall ih =>
    obtain ⟨target, htarget, hpath⟩ := ih
    obtain ⟨target', htarget', hpath'⟩ := hstep hcall htarget
    exact ⟨target', htarget', hpath.trans hpath'⟩

/-- **An expression whose node is on a cycle of calls may call a rule on the cycle.** -/
theorem exists_rule_of_onCycle (e : Expr) : ∀ core, Form d.graph rules ds core e →
    d.graph.OnCycle roots core → ∃ name target, e.MayCall ds name ∧
      rules.get? name = some target ∧ d.graph.OnCycle roots target := by
  -- a cycle through a node goes on through one of its operands, and so down to a rule
  have hdown : ∀ {part : ParserId} {item : Expr}, Realizes d.graph true rules part item →
      d.graph.OnCycle roots part →
      (∀ core, Form d.graph rules ds core item → d.graph.OnCycle roots core →
        ∃ name target, item.MayCall ds name ∧
          rules.get? name = some target ∧ d.graph.OnCycle roots target) →
      ∃ name target, item.MayCall ds name ∧
        rules.get? name = some target ∧ d.graph.OnCycle roots target := by
    intro part item hreal hcycle ih
    obtain ⟨core, hwraps, hform⟩ := h.stands hreal
    exact ih core hform (hcycle.of_wraps hwraps)
  induction e using Expr.induct with
  | step e ih =>
    intro core hform hcycle
    obtain ⟨-, o, hmay, ho⟩ := hcycle.exists_call
    rcases hform.operands with hall | ⟨_, _, _, rfl, -, -⟩
    · by_cases hsequence : ∃ items, e = .sequence items
      · obtain ⟨items, rfl⟩ := hsequence
        cases hform with
        | sequence hkind hall =>
          obtain ⟨kind, hkind', hmay⟩ := hmay
          cases hkind.symm.trans hkind'
          cases hmay with
          | sequence hfront =>
            obtain ⟨front, item, back, rfl, hfronts, hreal⟩ := exists_append_of_forall₂ hall
            obtain ⟨name, target, hcall, hget, htarget⟩ :=
              hdown hreal ho (ih item (List.mem_append_right _ List.mem_cons_self))
            refine ⟨name, target, .sequence (fun e' he' => ?_) hcall, hget, htarget⟩
            obtain ⟨q, hq, hreal'⟩ := exists_mem_of_forall₂ hfronts.flip he'
            exact (h.nullable_iff (h.stands hreal')).1 (hfront q hq)
          | other hno _ => exact absurd rfl (hno _)
      · obtain ⟨item, hitem, hreal⟩ := exists_mem_of_forall₂ hall hmay.mem_operands
        obtain ⟨name, target, hcall, hget, htarget⟩ := hdown hreal ho (ih item hitem)
        exact ⟨name, target, .other (fun items he => hsequence ⟨items, he⟩) hitem hcall, hget,
          htarget⟩
    · cases hform with
      | reference hget _ _ _ _ => exact ⟨_, core, .reference, hget, hcycle⟩

/-! ## The three conditions -/

/-- Where all rules are defined, no body is lacking. -/
theorem not_lacksBody : ¬ d.graph.LacksBody roots := by
  rintro ⟨id, hid, hkind⟩
  obtain ⟨e, ⟨core, hwraps, hform⟩, -⟩ := h.stands_of_inReach hid
  rcases Relation.ReflTransGen.cases_head hwraps with rfl | ⟨o, hwrap, -⟩
  · cases hform <;> simp_all
  · rcases hwrap with ⟨mapping, hkind'⟩ | ⟨label, hkind'⟩ <;> cases hkind.symm.trans hkind'

/-- **Something nullable is repeated without bound in the graph where it is in the definitions.** -/
theorem repeatsNullable_iff : d.graph.RepeatsNullable roots ↔
    ∃ item min, Occurs ds (.repetition item min none) ∧ item.Nullable ds := by
  constructor
  · rintro ⟨id, part, min, hid, hkind, hnull⟩
    obtain ⟨e, ⟨core, hwraps, hform⟩, hoccurs⟩ := h.stands_of_inReach hid
    rcases Relation.ReflTransGen.cases_head hwraps with rfl | ⟨o, hwrap, -⟩
    · cases hform with
      | repetition hkind' hreal =>
        cases hkind.symm.trans hkind'
        exact ⟨_, min, hoccurs.resolve_right (by simp),
          (h.nullable_iff (h.stands hreal)).1 hnull⟩
      | _ => simp_all
    · rcases hwrap with ⟨mapping, hkind'⟩ | ⟨label, hkind'⟩ <;> cases hkind.symm.trans hkind'
  · rintro ⟨item, min, hoccurs, hnull⟩
    obtain ⟨core, hform, hcore⟩ := h.exists_form_of_occurs hoccurs
    cases hform with
    | repetition hkind hreal =>
      exact ⟨core, _, min, hcore, hkind, (h.nullable_iff (h.stands hreal)).2 hnull⟩

/-- **Calls lead a parser back to itself where they lead a rule back to itself.** -/
theorem recurs_iff :
    d.graph.Recurs roots ↔ ∃ name, Relation.TransGen (RuleCalls ds) name name := by
  constructor
  · rintro ⟨p, hcycle⟩
    have hcycle : d.graph.OnCycle roots p := hcycle
    -- every rule on a cycle may call a rule on a cycle, and there are only so many rules
    have hnext : ∀ {p : ParserId} {e : Expr}, Stands d.graph rules ds p e →
        d.graph.OnCycle roots p → ∃ name target, e.MayCall ds name ∧
          rules.get? name = some target ∧ d.graph.OnCycle roots target := by
      rintro p e ⟨core, hwraps, hform⟩ hcycle
      exact h.exists_rule_of_onCycle e core hform (hcycle.of_wraps hwraps)
    obtain ⟨hreach, -⟩ := hcycle.exists_call
    obtain ⟨e, hstands, -⟩ := h.stands_of_inReach hreach
    obtain ⟨name, id, -, hget, hid⟩ := hnext hstands hcycle
    refine Graph.exists_transGen_self (ds.map Definition.name)
      (S := fun name => ∃ id, rules.get? name = some id ∧ d.graph.OnCycle roots id)
      ⟨id, hget, hid⟩ ?_
    rintro name ⟨id, hget, hid⟩
    obtain ⟨c, hc, rfl⟩ := List.mem_map.1 ((h.contains_iff name).1 ⟨id, hget⟩)
    obtain ⟨id', body, hget', hkind, hbody⟩ := h.body_of_mem hc
    cases hget.symm.trans hget'
    obtain ⟨other, target, hcall, htarget, hround⟩ :=
      hnext (h.stands_body hbody) (hid.of_singleton hkind rfl)
    exact ⟨List.mem_map_of_mem hc, other, ⟨target, htarget, hround⟩, c, hc, rfl, hcall⟩
  · rintro ⟨name, hcalls⟩
    obtain ⟨other, hcall, -⟩ := Relation.TransGen.head'_iff.1 hcalls
    obtain ⟨c, hc, rfl, -⟩ := hcall
    obtain ⟨id, body, hget, -, -⟩ := h.body_of_mem hc
    obtain ⟨target, htarget, hpath⟩ := h.exists_path_of_ruleCalls hcalls hget
    cases hget.symm.trans htarget
    exact ⟨id, hpath⟩

/-- **The graph is valid where the definitions are in order.** -/
theorem validate_iff : d.graph.validateExcept [] roots = .ok () ↔
    (∀ item min, Occurs ds (.repetition item min none) → ¬ item.Nullable ds) ∧
      ∀ name, ¬ Relation.TransGen (RuleCalls ds) name name := by
  have hvalid : d.graph.validateExcept [] roots = d.graph.validate roots := rfl
  rw [hvalid, Graph.validate_eq_ok_iff, h.repeatsNullable_iff, h.recurs_iff]
  constructor
  · rintro ⟨-, hrepeats, hrecurs⟩
    exact ⟨fun item min hoccurs hnull => hrepeats ⟨item, min, hoccurs, hnull⟩,
      fun name hcalls => hrecurs ⟨name, hcalls⟩⟩
  · rintro ⟨hrepeats, hrecurs⟩
    exact ⟨h.not_lacksBody, fun ⟨item, min, hoccurs, hnull⟩ => hrepeats item min hoccurs hnull,
      fun ⟨name, hcalls⟩ => hrecurs name hcalls⟩

end Draft.Filled

/-- **Where white space counts, definitions are accepted if they are well-formed, and no others.** -/
theorem assemble_accepts_iff (hg : g.Sound) (hordered : ∀ d ∈ ds, d.body.Ordered) :
    (∃ c g₁, assemble ds [] true g = .ok (.ok c) g₁) ↔ WellFormed ds := by
  have hfault := check_nil_fault g ds
  cases hcheck : check g ds [] with
  | error e =>
    rw [hcheck] at hfault
    rw [assemble_of_check_error hcheck]
    refine ⟨fun ⟨_, _, haccepted⟩ => (nomatch haccepted), fun hds => ?_⟩
    rw [if_neg (not_not.2 hds.nodup), if_neg (not_dangling_iff.2 hds.defined)] at hfault
    exact nomatch hfault
  | ok bound =>
    rw [hcheck] at hfault
    cases check_nil_eq_ok hcheck
    have hnodup : (ds.map Definition.name).Nodup := by
      by_contra hrepeats
      rw [if_pos hrepeats] at hfault
      exact nomatch hfault
    have hdefined : ¬ Dangling ds := by
      intro hdangling
      rw [if_neg (not_not.2 hnodup), if_pos hdangling] at hfault
      exact nomatch hfault
    -- what is left to be seen is whether the graph is valid
    obtain ⟨d, rules, roots, -, hfilled, hassemble⟩ := assemble_of_check true hg hcheck hordered
    rw [hassemble, Draft.verdict_empty]
    cases hvalid : d.graph.validateExcept [] roots with
    | error e =>
      refine ⟨fun ⟨_, _, haccepted⟩ => (nomatch haccepted), fun hds => ?_⟩
      exact nomatch hvalid.symm.trans (hfilled.validate_iff.2 ⟨hds.advances, hds.descends⟩)
    | ok u =>
      obtain ⟨hadvances, hdescends⟩ := hfilled.validate_iff.1 hvalid
      exact ⟨fun _ => ⟨hnodup, not_dangling_iff.1 hdefined, hadvances, hdescends⟩,
        fun _ => ⟨_, _, rfl⟩⟩

end Grammar

end ParserGraph
