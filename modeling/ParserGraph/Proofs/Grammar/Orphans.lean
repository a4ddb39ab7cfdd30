import ParserGraph.Proofs.Graph.Release
import ParserGraph.Proofs.Grammar.Frame

/-!
# Orphans — compiling adds no node that is out of reach

Whatever a draft adds for an expression hangs on the parser of that expression
(`Draft.Hangs`): each node is added over those added before it, and the parser
of skipped white space, which all terminals share, hangs on the terminal that
needed it first. A body hangs on the placeholder that it is given to, and
every placeholder is in the table. So the rules of a compiled grammar lead to
every node that it added, and cleaning them up takes the grammar away again
(`compile_adds_no_orphan`).
-/

namespace ParserGraph

namespace Graph

variable {g g' : Graph} {p q : ParserId}

theorem Refines.contains (h : g.Refines g') (hp : g.contains p) : g'.contains p := by
  obtain ⟨node, hnode⟩ := contains_iff.1 hp
  rcases h p node hnode with hkept | ⟨name, body, -, hbody⟩
  · exact contains_iff.2 ⟨_, hkept⟩
  · exact contains_iff.2 ⟨_, hbody⟩

/-- A node keeps its operands when others are given bodies. -/
theorem Refines.operands_subset (h : g.Refines g') (p : ParserId) :
    g.operands p ⊆ g'.operands p := by
  intro o ho
  obtain ⟨node, hnode⟩ := contains_iff.1 (contains_of_mem_operands ho)
  rw [operands_of_node? hnode] at ho
  rcases h p node hnode with hkept | ⟨name, body, hopen, -⟩
  · rw [operands_of_node? hkept]
    exact ho
  · -- an open placeholder has no operands
    rw [hopen] at ho
    exact absurd ho List.not_mem_nil

/-- What a node leads to it leads to still. -/
theorem Refines.leads (h : g.Refines g') (hl : g.Leads p q) : g'.Leads p q := by
  induction hl with
  | refl hp => exact .refl (h.contains hp)
  | step _ ho hlive ih => exact ih.step (h.operands_subset _ ho) (h.contains hlive)

/-- Where a graph is valid, the placeholders in reach that lack a body are those that may. -/
theorem mem_pending_of_validateExcept {pending roots : List ParserId} {id : ParserId}
    (hvalid : g.validateExcept pending roots = .ok ()) (hid : id ∈ g.reachable roots)
    (hopen : g.isUndefinedRule id) : id ∈ pending := by
  unfold validateExcept at hvalid
  dsimp only at hvalid
  split at hvalid
  · exact nomatch hvalid
  · next hnone =>
    have hfound := List.find?_eq_none.1 hnone id hid
    rw [hopen, Bool.true_and, Bool.not_eq_true', Bool.not_eq_false] at hfound
    exact List.contains_iff_mem.1 hfound

end Graph

namespace Grammar

/-! ## What is bound -/

section

variable {g : Graph} {bound bound' : RuleTable} {ds : List Definition}

/-- Every parser that is bound is bound under its name, beside those bound before. -/
theorem bind_spec {ids : List ParserId} (h : bind g bound ids = .ok bound') :
    (∀ name id, bound.get? name = some id → bound'.get? name = some id) ∧
      ∀ id ∈ ids, ∃ name, g.name? id = some name ∧ bound'.get? name = some id := by
  induction ids generalizing bound with
  | nil =>
    cases h
    exact ⟨fun _ _ hget => hget, fun _ hid => absurd hid List.not_mem_nil⟩
  | cons id ids ih =>
    rw [bind] at h
    split at h
    · cases h
    · cases h
    · next name kind hnode =>
      split at h
      · cases h
      · next hsame =>
        obtain ⟨hkeep, hall⟩ := ih h
        have hname : g.name? id = some name := by rw [Graph.name?, hnode]; rfl
        have hself : bound'.get? name = some id :=
          hkeep _ _ (by rw [RuleTable.get?_insert, if_pos rfl])
        refine ⟨fun name' id' hget => ?_, List.forall_mem_cons.2 ⟨⟨name, hname, hself⟩, hall⟩⟩
        by_cases he : name' = name
        · -- what was bound under this name is the same parser
          subst he
          rw [hget] at hsame
          have hid : id' = id := by simpa using hsame
          exact hid ▸ hself
        · exact hkeep _ _ (by rw [RuleTable.get?_insert, if_neg he]; exact hget)

/-- **The table of what is bound holds the bindings under their names, and nothing else.** -/
theorem bound_of_check {bindings : List ParserId} (h : check g ds bindings = .ok bound) :
    (∀ id ∈ bindings, ∃ name, g.name? id = some name ∧ bound.get? name = some id) ∧
      ∀ name id, bound.get? name = some id → id ∈ bindings ∧ g.name? id = some name := by
  refine ⟨?_, fun name id hget => ⟨?_, ?_⟩⟩
  · obtain ⟨found, hbind, h⟩ := except_bind_eq_ok h
    obtain ⟨u, -, h⟩ := except_bind_eq_ok h
    obtain ⟨u', -, h⟩ := except_bind_eq_ok h
    cases h
    exact (bind_spec hbind).2
  · exact mem_bindings_of_check h (RuleTable.mem_roots_of_get? hget)
  · obtain ⟨kind, hnode⟩ := (check_spec h).1 name id hget
    rw [Graph.name?, hnode]
    rfl

end

namespace Draft

variable {base : Graph} {bound : List ParserId} {sensitive : Bool} {rules rules' : RuleTable}
  {ds : List Definition} {d d₁ d₂ d' : Draft} {id : ParserId} {ids ids' : List ParserId}

/-- What lives in a draft was added or lived in the base. -/
theorem Over.contains_iff (h : d.Over base bound) :
    d.graph.contains id ↔ id ∈ d.created ∨ base.contains id := by
  by_cases hcreated : id ∈ d.created
  · exact iff_of_true (h.created_live id hcreated) (Or.inl hcreated)
  rw [or_iff_right hcreated]
  by_cases hpatched : id ∈ d.patched
  · obtain ⟨name, body, hopen, hbody⟩ := h.patched_open id hpatched hcreated
    exact iff_of_true (Graph.contains_iff.2 ⟨_, hbody⟩) (Graph.contains_iff.2 ⟨_, hopen⟩)
  · rw [Graph.contains, Graph.contains, h.node?_eq id hcreated hpatched]

/-- What a draft added is what lives in it and did not in the base. -/
theorem Over.mem_created_iff (h : d.Over base bound) :
    id ∈ d.created ↔ d.graph.contains id ∧ ¬ base.contains id := by
  rw [h.contains_iff, or_and_right, and_not_self_iff, or_false, iff_self_and]
  intro hmem hlive
  rw [Graph.contains, h.created_fresh id hmem] at hlive
  exact absurd hlive Bool.false_ne_true

/-- A draft without bindings leads from what it added to nothing else. -/
theorem Over.mem_created_of_leads {x : ParserId} (h : d.Over base []) (hid : id ∈ d.created)
    (hleads : d.graph.Leads id x) : x ∈ d.created := by
  induction hleads with
  | refl _ => exact hid
  | step _ ho _ ih => exact (h.operands_known _ ih _ ho).resolve_right List.not_mem_nil

/-! ## What hangs on what -/

/-- Whatever a draft added since another, some of its parsers lead to. -/
def Hangs (d d' : Draft) (ids : List ParserId) : Prop :=
  ∀ x ∈ d'.created, x ∈ d.created ∨ ∃ id ∈ ids, d'.graph.Leads id x

theorem Hangs.refl (d : Draft) (ids : List ParserId) : d.Hangs d ids := fun _ hx => Or.inl hx

/-- What is added in two steps hangs on the parsers of both. -/
theorem Hangs.trans (h : d.Hangs d₁ ids) (h' : d₁.Hangs d₂ ids')
    (hrefines : d₁.graph.Refines d₂.graph) : d.Hangs d₂ (ids ++ ids') := by
  intro x hx
  rcases h' x hx with hx | ⟨id, hid, hleads⟩
  · rcases h x hx with hx | ⟨id, hid, hleads⟩
    · exact Or.inl hx
    · exact Or.inr ⟨id, List.mem_append_left _ hid, hrefines.leads hleads⟩
  · exact Or.inr ⟨id, List.mem_append_right _ hid, hleads⟩

/-- **A node that is added takes on what hangs on its operands.** -/
theorem Hangs.insert {kind : Kind} (h : d.Hangs d₁ ids) (hover : d₁.Over base bound)
    (hx : Draft.add (Build.insert kind) d₁ = .ok id d₂) (hids : ids ⊆ kind.operands) :
    d.Hangs d₂ [id] := by
  obtain ⟨g, hstep, rfl⟩ := add_eq_ok hx
  obtain ⟨hadd, hops⟩ := Build.insert_eq_ok hover.sound hstep
  have hself : g.contains id := Graph.contains_iff.2 ⟨_, hadd.node?_self⟩
  intro x hx
  rcases List.mem_cons.1 hx with rfl | hx
  · exact Or.inr ⟨x, List.mem_singleton_self x, .refl hself⟩
  rcases h x hx with hx | ⟨o, ho, hleads⟩
  · exact Or.inl hx
  · refine Or.inr ⟨id, List.mem_singleton_self id, .head hself ?_ (hadd.extends.refines.leads hleads)⟩
    rw [Graph.operands_of_node? hadd.node?_self]
    exact hids ho

/-! ## Expressions -/

theorem skipper_hangs (h : d.Over base bound) (hx : skipper d = .ok id d') : d.Hangs d' [id] := by
  obtain ⟨d₀, d₁, hget, hx⟩ := Drafting.bind_eq_ok.1 hx
  cases hget
  cases hspaces : d.spaces with
  | some spaces =>
    rw [hspaces] at hx
    cases hx
    exact .refl d _
  | none =>
    rw [hspaces] at hx
    obtain ⟨space, d₁, hspace, hx⟩ := Drafting.bind_eq_ok.1 hx
    obtain ⟨run, d₂, hrun, hx⟩ := Drafting.bind_eq_ok.1 hx
    obtain ⟨skipped, d₃, hskip, hx⟩ := Drafting.bind_eq_ok.1 hx
    obtain ⟨u, d₄, hset, hx⟩ := Drafting.bind_eq_ok.1 hx
    cases hset
    obtain ⟨rfl, rfl⟩ := Drafting.pure_eq_ok hx
    have hspace : Draft.add (Build.insert
        (.terminal (.satisfy "whitespace" CharSet.whiteSpace.contains))) d = .ok space d₁ := hspace
    obtain ⟨hgo₁, -, hmem₁⟩ := insert_goes h hspace fun o ho => absurd ho List.not_mem_nil
    obtain ⟨hgo₂, -, -⟩ := insert_goes hgo₁.kept hrun
      fun o ho => List.mem_singleton.1 ho ▸ Or.inl hmem₁
    have hhang₁ : d.Hangs d₁ [space] := (Hangs.refl d []).insert h hspace (List.nil_subset _)
    have hhang₂ : d.Hangs d₂ [run] := hhang₁.insert hgo₁.kept hrun (List.Subset.refl _)
    have hhang₃ : d.Hangs d₃ [skipped] := hhang₂.insert hgo₂.kept hskip (List.Subset.refl _)
    exact hhang₃

theorem terminal_hangs {t : Terminal} (h : d.Over base bound)
    (hx : Draft.terminal sensitive t d = .ok id d') : d.Hangs d' [id] := by
  obtain ⟨bare, d₁, hbare, hx⟩ := Drafting.bind_eq_ok.1 hx
  obtain ⟨hgo₁, -, hmem₁⟩ := insert_goes h hbare fun o ho => absurd ho List.not_mem_nil
  have hhang₁ : d.Hangs d₁ [bare] := (Hangs.refl d []).insert h hbare (List.nil_subset _)
  cases sensitive with
  | true =>
    obtain ⟨rfl, rfl⟩ := Drafting.pure_eq_ok hx
    exact hhang₁
  | false =>
    obtain ⟨spaces, d₂, hspaces, hx⟩ := Drafting.bind_eq_ok.1 hx
    obtain ⟨both, d₃, hboth, hx⟩ := Drafting.bind_eq_ok.1 hx
    obtain ⟨hgo₂, -, hmem₂⟩ := skipper_goes hgo₁.kept hspaces
    obtain ⟨hgo₃, -, -⟩ := insert_goes hgo₂.kept hboth
      (List.forall_mem_cons.2 ⟨Or.inl (hgo₂.created_subset hmem₁),
        fun o ho => List.mem_singleton.1 ho ▸ Or.inl hmem₂⟩)
    have hhang₂ : d.Hangs d₂ ([bare] ++ [spaces]) :=
      hhang₁.trans (skipper_hangs hgo₁.kept hspaces) hgo₂.extends_graph.refines
    have hhang₃ : d.Hangs d₃ [both] := hhang₂.insert hgo₂.kept hboth (List.Subset.refl _)
    exact hhang₃.insert hgo₃.kept hx (List.Subset.refl _)

theorem folded_hangs {step : Build ParserId} (kind : Kind) (h : d₁.Over base bound)
    (hhang : d.Hangs d₁ kind.operands) (hx : folded step d₁ = .ok id d')
    (hstep : ∀ g id g', step g = .ok id g' → Build.insert kind g = .ok id g')
    (hops : ∀ o ∈ kind.operands, d₁.Knows bound o) : d.Hangs d' [id] := by
  obtain ⟨whole, d₂, hwhole, hx⟩ := Drafting.bind_eq_ok.1 hx
  have hinsert : Draft.add (Build.insert kind) d₁ = .ok whole d₂ := by
    obtain ⟨g, hg, rfl⟩ := add_eq_ok hwhole
    rw [Draft.add, hstep _ _ _ hg]
  obtain ⟨hgo, -, -⟩ := insert_goes h hinsert hops
  have hhang' : d.Hangs d₂ [whole] := hhang.insert h hinsert (List.Subset.refl _)
  exact hhang'.insert hgo.kept hx (List.Subset.refl _)

mutual

/-- **What is added for an expression hangs on its parser.** -/
theorem expression_hangs (e : Expr) {d d' : Draft} {id : ParserId} (h : d.Over base bound)
    (hrules : ∀ name id, rules.get? name = some id → d.Knows bound id)
    (hx : expression sensitive rules e d = .ok id d') : d.Hangs d' [id] := by
  cases e with
  | char c => exact terminal_hangs h hx
  | literal text => exact terminal_hangs h hx
  | pattern p => exact terminal_hangs h hx
  | reference name position =>
    obtain ⟨-, rfl⟩ := resolve_eq_ok hx
    exact .refl d _
  | sequence items =>
    obtain ⟨parts, d₁, hparts, hx⟩ := Drafting.bind_eq_ok.1 hx
    obtain ⟨hgo, -, hknows⟩ := expressions_goes items h hrules hparts
    exact folded_hangs (.sequence parts) hgo.kept (expressions_hang items h hrules hparts) hx
      (fun _ _ _ h => h) hknows
  | alternation items =>
    obtain ⟨branches, d₁, hbranches, hx⟩ := Drafting.bind_eq_ok.1 hx
    obtain ⟨hgo, -, -⟩ := expressions_goes items h hrules hbranches
    exact (expressions_hang items h hrules hbranches).insert hgo.kept hx (List.Subset.refl _)
  | repetition item min max =>
    obtain ⟨part, d₁, hpart, hx⟩ := Drafting.bind_eq_ok.1 hx
    obtain ⟨hgo, -, hknows⟩ := expression_goes item h hrules hpart
    exact folded_hangs (.repetition part min max) hgo.kept (expression_hangs item h hrules hpart)
      hx (fun _ _ _ h => Build.repetition_eq_ok h) (fun o ho => List.mem_singleton.1 ho ▸ hknows)
  | optional item =>
    obtain ⟨part, d₁, hpart, hx⟩ := Drafting.bind_eq_ok.1 hx
    obtain ⟨hgo, -, -⟩ := expression_goes item h hrules hpart
    exact (expression_hangs item h hrules hpart).insert hgo.kept hx (List.Subset.refl _)
  | absent item =>
    obtain ⟨part, d₁, hpart, hx⟩ := Drafting.bind_eq_ok.1 hx
    obtain ⟨hgo, -, -⟩ := expression_goes item h hrules hpart
    exact (expression_hangs item h hrules hpart).insert hgo.kept hx (List.Subset.refl _)

theorem expressions_hang (es : List Expr) {d d' : Draft} {ids : List ParserId}
    (h : d.Over base bound) (hrules : ∀ name id, rules.get? name = some id → d.Knows bound id)
    (hx : expressions sensitive rules es d = .ok ids d') : d.Hangs d' ids := by
  cases es with
  | nil =>
    obtain ⟨rfl, rfl⟩ := Drafting.pure_eq_ok hx
    exact .refl d _
  | cons e es =>
    obtain ⟨id, d₁, hid, hx⟩ := Drafting.bind_eq_ok.1 hx
    obtain ⟨ids', d₂, hids, hx⟩ := Drafting.bind_eq_ok.1 hx
    obtain ⟨rfl, rfl⟩ := Drafting.pure_eq_ok hx
    obtain ⟨hgo₁, -, -⟩ := expression_goes e h hrules hid
    have hrules₁ : ∀ name id, rules.get? name = some id → d₁.Knows bound id :=
      fun name id hget => hgo₁.knows (hrules name id hget)
    obtain ⟨hgo₂, -, -⟩ := expressions_goes es hgo₁.kept hrules₁ hids
    exact (expression_hangs e h hrules hid).trans (expressions_hang es hgo₁.kept hrules₁ hids)
      hgo₂.extends_graph.refines

end

/-! ## Rules -/

/-- A placeholder that is added goes into the table. -/
theorem placeholders_hang (h : d.Over base bound) (hnames : d.Names bound rules)
    (hx : placeholders rules ds d = .ok rules' d') :
    ∀ x ∈ d'.created, x ∈ d.created ∨ ∃ e ∈ ds, rules'.get? e.name = some x := by
  induction ds generalizing rules d with
  | nil =>
    obtain ⟨-, rfl⟩ := Drafting.pure_eq_ok hx
    exact fun _ hx => Or.inl hx
  | cons e ds ih =>
    rw [placeholders] at hx
    split at hx
    · refine fun x hmem => (ih h hnames hx x hmem).imp_right fun hnew => ?_
      obtain ⟨e', he', hget⟩ := hnew
      exact ⟨e', List.mem_cons_of_mem _ he', hget⟩
    · obtain ⟨id, d₁, hrule, hx⟩ := Drafting.bind_eq_ok.1 hx
      obtain ⟨hgo, hnode, hid⟩ := rule_goes h hrule
      have hnames₁ := hnames.insert hgo hid hnode
      obtain ⟨-, -, hkeep, -, -⟩ := placeholders_goes hgo.kept hnames₁ hx
      intro x hmem
      rcases ih hgo.kept hnames₁ hx x hmem with hold | ⟨e', he', hget⟩
      · obtain ⟨g, -, rfl⟩ := add_eq_ok hrule
        rcases List.mem_cons.1 hold with rfl | hold
        · refine Or.inr ⟨e, List.mem_cons_self, hkeep _ _ ?_⟩
          rw [RuleTable.get?_insert, if_pos rfl]
        · exact Or.inl hold
      · exact Or.inr ⟨e', List.mem_cons_of_mem _ he', hget⟩

theorem labelled_hangs {label : Option String} {part body : ParserId} (h : d₁.Over base bound)
    (hhang : d.Hangs d₁ [part]) (hx : labelled label part d₁ = .ok body d₂) :
    d.Hangs d₂ [body] := by
  cases label with
  | none =>
    obtain ⟨rfl, rfl⟩ := Drafting.pure_eq_ok hx
    exact hhang
  | some label => exact hhang.insert h hx (List.Subset.refl _)

/-- A body that was not refused hangs on its placeholder. -/
theorem define_leads {rule body : ParserId} (hx : Draft.define rule body d = .ok (.ok ()) d') :
    d.graph.Refines d'.graph ∧ d'.created = d.created ∧ d'.graph.Leads rule body := by
  obtain ⟨hbody, name, hrule, rfl⟩ := define_done hx
  have hrefines : d.graph.Refines (d.graph.replace rule ⟨name, .rule (some body)⟩) :=
    Graph.refines_replace hrule
  have hnode : (d.graph.replace rule ⟨name, .rule (some body)⟩).node? rule =
      some ⟨name, .rule (some body)⟩ := by rw [Graph.node?_replace hrule, if_pos rfl]
  have hself : (d.graph.replace rule ⟨name, .rule (some body)⟩).Leads rule rule :=
    .refl (Graph.contains_iff.2 ⟨_, hnode⟩)
  refine ⟨hrefines, rfl, hself.step ?_ (hrefines.contains hbody)⟩
  rw [Graph.operands_of_node? hnode]
  exact List.mem_singleton_self body

/-- **What is added for definitions hangs on their rules**, if no body is refused. -/
theorem bodies_hang (h : d.Over base bound) (hnames : d.Names bound rules)
    (hx : bodies sensitive rules ds d = .ok (.ok ()) d') :
    d.graph.Refines d'.graph ∧ ∀ x ∈ d'.created, x ∈ d.created ∨
      ∃ e ∈ ds, ∃ id, rules.get? e.name = some id ∧ d'.graph.Leads id x := by
  induction ds generalizing d with
  | nil =>
    obtain ⟨-, rfl⟩ := Drafting.pure_eq_ok hx
    exact ⟨(Graph.Extends.refl _).refines, fun _ hx => Or.inl hx⟩
  | cons e ds ih =>
    obtain ⟨part, d₁, body, d₂, rule, d₃, hpart, hbody, hget, hdefine, hx⟩ := bodies_cons_done hx
    have hrules : ∀ name id, rules.get? name = some id → d.Knows bound id :=
      fun name id hid => (hnames name id hid).1
    obtain ⟨hgo₁, hreal, hknows⟩ := expression_goes e.body h hrules hpart
    have hlive : d₁.graph.contains part := hreal.contains (hnames.mono hgo₁).live
    obtain ⟨hgo₂, -, -, hknown⟩ := labelled_goes hgo₁.kept hreal hknows hlive hbody
    have hgo := hgo₁.trans hgo₂
    have hhang : d.Hangs d₂ [body] :=
      labelled_hangs hgo₁.kept (expression_hangs e.body h hrules hpart) hbody
    obtain ⟨hover₃, hnames₃⟩ := define_names hgo.kept (hnames.mono hgo) hknown hdefine
    obtain ⟨hrefines₃, hcreated₃, hleads₃⟩ := define_leads hdefine
    obtain ⟨hrefines, hall⟩ := ih hover₃ hnames₃ hx
    refine ⟨(hgo.extends_graph.refines.trans hrefines₃).trans hrefines, fun x hmem => ?_⟩
    rcases hall x hmem with hold | ⟨e', he', id', hget', hleads⟩
    · rw [hcreated₃] at hold
      rcases hhang x hold with hold | ⟨id, hid, hleads⟩
      · exact Or.inl hold
      · -- the body leads on to it, and the rule to the body
        cases List.mem_singleton.1 hid
        exact Or.inr ⟨e, List.mem_cons_self, rule, hget,
          hrefines.leads (hleads₃.trans (hrefines₃.leads hleads))⟩
    · exact Or.inr ⟨e', List.mem_cons_of_mem _ he', id', hget', hleads⟩

/-- **A build that goes through keeps what is bound in its table, and the table leads to all that
was added.** -/
theorem table_of_build {bound : RuleTable} {bindings : List ParserId} {c : Compilation}
    (hsound : base.Sound) (hcheck : check base ds bindings = .ok bound)
    (hx : build sensitive bound ds ⟨base, none, [], []⟩ = .ok (.ok c) d) :
    (∀ name id, bound.get? name = some id → c.table.get? name = some id) ∧
      ∀ x ∈ d.created, ∃ r ∈ c.table.roots, d.graph.Leads r x := by
  obtain ⟨rules, d₁, done, hrules, hbodies, hok⟩ := bodies_of_build hx
  obtain ⟨rfl, rfl⟩ := hok c rfl
  obtain ⟨hgo, hnames, hkeep, -, -⟩ :=
    placeholders_goes (over_start hsound) (names_start hcheck) hrules
  obtain ⟨hrefines, hall⟩ := bodies_hang hgo.kept hnames hbodies
  refine ⟨hkeep, fun x hmem => ?_⟩
  rcases hall x hmem with hold | ⟨e, -, id, hget, hleads⟩
  · -- a placeholder is in the table itself
    obtain ⟨e, -, hget⟩ := (placeholders_hang (over_start hsound) (names_start hcheck) hrules x
      hold).resolve_left List.not_mem_nil
    exact ⟨x, RuleTable.mem_roots_of_get? hget,
      .refl (hrefines.contains (hgo.kept.created_live x hold))⟩
  · exact ⟨id, RuleTable.mem_roots_of_get? hget, hleads⟩

/-! ## What a build that went through comes to -/

section

variable {bound : RuleTable} {bindings : List ParserId} {c : Compilation}
  (hsound : base.Sound) (hcheck : check base ds bindings = .ok bound)
  (hbuild : build sensitive bound ds ⟨base, none, [], []⟩ = .ok (.ok c) d)
include hsound hcheck hbuild

/-- The names of the table are those defined and those bound. -/
theorem mem_names_of_build {name : String} :
    name ∈ c.table.names ↔
      (∃ e ∈ ds, e.name = name) ∨ ∃ id ∈ bindings, base.name? id = some name := by
  obtain ⟨-, -, hcomplete⟩ := build_spec hsound hcheck hbuild
  obtain ⟨hbound, hbound'⟩ := bound_of_check hcheck
  have hcomplete := hcomplete c rfl
  rw [RuleTable.mem_names]
  constructor
  · rintro ⟨id, hget⟩
    exact (hcomplete.bound_or_defined name id hget).symm.imp_right
      fun hget => ⟨id, hbound' name id hget⟩
  · rintro (⟨e, he, rfl⟩ | ⟨id, hid, hname⟩)
    · obtain ⟨id, body, hget, -, -⟩ := hcomplete.defined e he
      exact ⟨id, hget⟩
    · obtain ⟨name', hname', hget⟩ := hbound id hid
      cases hname.symm.trans hname'
      exact ⟨id, (table_of_build hsound hcheck hbuild).1 name id hget⟩

/-- **A bound parser that bears the name of a definition had no body and is given one.** -/
theorem body_of_bound {e : Definition} (he : e ∈ ds) (hid : id ∈ bindings)
    (hname : base.name? id = some e.name) : ∃ body,
    base.node? id = some ⟨some e.name, .rule none⟩ ∧
      d.graph.node? id = some ⟨some e.name, .rule (some body)⟩ := by
  obtain ⟨-, -, hcomplete⟩ := build_spec hsound hcheck hbuild
  obtain ⟨hnamed, -, hopen⟩ := check_spec hcheck
  obtain ⟨name, hname', hget⟩ := (bound_of_check hcheck).1 id hid
  cases hname.symm.trans hname'
  obtain ⟨kind, hnode⟩ := hnamed e.name id hget
  cases node?_of_isUndefinedRule (hopen e he id hget) hnode
  -- the placeholder is the one that its definition has in the table
  obtain ⟨id', body, hget', hnode', -⟩ := (hcomplete c rfl).defined e he
  cases ((table_of_build hsound hcheck hbuild).1 _ _ hget).symm.trans hget'
  exact ⟨body, hnode, hnode'⟩

/-- A placeholder without a body that a defined rule leads to is one of the bindings. -/
theorem mem_bindings_of_leads {e : Definition} (he : e ∈ ds) {rule : ParserId}
    (hget : c.table.get? e.name = some rule) (hleads : d.graph.Leads rule id)
    (hopen : d.graph.isUndefinedRule id) : id ∈ bindings := by
  obtain ⟨-, -, hcomplete⟩ := build_spec hsound hcheck hbuild
  obtain ⟨roots, hvalid, hroots⟩ := (hcomplete c rfl).valid
  have hpending := Graph.mem_pending_of_validateExcept hvalid
    (Graph.mem_reachable.2 ⟨rule, hroots e he rule hget, hleads⟩) hopen
  obtain ⟨r, hr, rfl⟩ := List.mem_map.1 hpending
  exact mem_bindings_of_check hcheck (List.mem_map_of_mem (List.mem_filter.1 hr).1)

end

section

variable {c : Compilation} (hsound : base.Sound) (hcheck : check base ds [] = .ok .empty)
  (hbuild : build sensitive .empty ds ⟨base, none, [], []⟩ = .ok (.ok c) d)
include hsound hcheck hbuild

/-- **Without bindings the table leads to what was added, and to nothing else.** -/
theorem mem_reachable_iff_mem_created : id ∈ d.graph.reachable c.table.roots ↔ id ∈ d.created := by
  obtain ⟨hover, -, hcomplete⟩ := build_spec hsound hcheck hbuild
  rw [Graph.mem_reachable]
  constructor
  · rintro ⟨r, hr, hleads⟩
    obtain ⟨name, hget⟩ := RuleTable.exists_get?_of_mem_roots hr
    exact hover.mem_created_of_leads ((hcomplete c rfl).mem_created hget) hleads
  · exact (table_of_build hsound hcheck hbuild).2 id

/-- **Cleaning up the table takes away what was added**, and leaves the base. -/
theorem cleanup_undoes_build :
    (∀ id, id ∈ (d.graph.cleanup c.table.roots).1.map Prod.fst ↔ id ∈ d.created) ∧
      ∀ id, (d.graph.cleanup c.table.roots).2.node? id = base.node? id := by
  obtain ⟨hover, -, -⟩ := build_spec hsound hcheck hbuild
  have hreach : ∀ id, id ∈ d.graph.reachable c.table.roots ↔ id ∈ d.created :=
    fun _ => mem_reachable_iff_mem_created hsound hcheck hbuild
  refine ⟨fun id => Graph.mem_map_fst_cleanup.trans (hreach id), fun id => ?_⟩
  rw [Graph.node?_cleanup]
  split
  · next hmem => exact (hover.created_fresh id ((hreach id).1 hmem)).symm
  · next hmem =>
    have hcreated : id ∉ d.created := mt (hreach id).2 hmem
    refine hover.node?_eq id hcreated fun hpatched => ?_
    -- a placeholder of the base would have to be bound
    obtain ⟨name, body, hopen, -⟩ := hover.patched_open id hpatched hcreated
    have hlive : base.contains id := Graph.contains_iff.2 ⟨_, hopen⟩
    exact absurd (bound_of_patched hsound hcheck hbuild hlive hpatched).1 List.not_mem_nil

end

end Draft

/-! ## What a compiled grammar adds and changes -/

/-- What is added and changed where definitions become a table in a graph, with these bindings. -/
structure Adds (g : Graph) (ds : List Definition) (bindings : List ParserId) (c : Compilation)
    (g' : Graph) : Prop where
  /-- The names of the table are those defined and those bound. -/
  names : ∀ name, name ∈ c.table.names ↔
    (∃ d ∈ ds, d.name = name) ∨ ∃ id ∈ bindings, g.name? id = some name
  /-- What is bound keeps its id. -/
  bound : ∀ id ∈ bindings, ∃ name, g.name? id = some name ∧ c.table.get? name = some id
  /-- The limit stays. -/
  depth : g'.maxDepth = g.maxDepth
  /-- Every node that lived is as it was, but for the bound placeholders that are defined. -/
  frame : ∀ id, g.contains id → ¬ (id ∈ bindings ∧ ∃ d ∈ ds, g.name? id = some d.name) →
    g'.node? id = g.node? id
  /-- These had no body and have one. -/
  bodies : ∀ id ∈ bindings, ∀ d ∈ ds, g.name? id = some d.name → ∃ body,
    g.node? id = some ⟨some d.name, .rule none⟩ ∧
      g'.node? id = some ⟨some d.name, .rule (some body)⟩
  /-- Every node that came to live is in reach of the table. -/
  reach : ∀ id, g'.contains id → ¬ g.contains id → id ∈ g'.reachable c.table.roots
  /-- A placeholder without a body that the defined rules lead to is one of the bindings. -/
  pending : ∀ d ∈ ds, ∃ rule, c.table.get? d.name = some rule ∧
    ∀ id, g'.Leads rule id → g'.isUndefinedRule id → id ∈ bindings
  /-- Without bindings, what is in reach of the table is just what came to live, so that cleaning up
  the table releases it and leaves what was there before, as it was. -/
  alone : bindings = [] →
    (∀ id, id ∈ g'.reachable c.table.roots ↔ g'.contains id ∧ ¬ g.contains id) ∧
    (∀ id, id ∈ (g'.cleanup c.table.roots).1.map Prod.fst ↔ g'.contains id ∧ ¬ g.contains id) ∧
    ∀ id, (g'.cleanup c.table.roots).2.node? id = g.node? id

theorem assemble_adds {g g' : Graph} {ds : List Definition} {bindings : List ParserId}
    {sensitive : Bool} {c : Compilation} (hsound : g.Sound)
    (h : assemble ds bindings sensitive g = .ok (.ok c) g') : Adds g ds bindings c g' := by
  rcases assemble_eq_ok h with ⟨_, -, hr, -⟩ | ⟨bound, d, hcheck, hbuild, hresult⟩
  · exact nomatch hr
  rcases hresult with ⟨_, hr, -⟩ | ⟨c', hc, rfl⟩
  · exact nomatch hr
  cases hc
  obtain ⟨hover, -, hcomplete⟩ := Draft.build_spec hsound hcheck hbuild
  obtain ⟨hkeep, htable⟩ := Draft.table_of_build hsound hcheck hbuild
  refine ⟨fun name => Draft.mem_names_of_build hsound hcheck hbuild, fun id hid => ?_,
    hover.maxDepth_eq, fun id hlive hspared => ?_,
    fun id hid e he hname => Draft.body_of_bound hsound hcheck hbuild he hid hname,
    fun id hlive hdead => ?_, fun e he => ?_, ?_⟩
  · obtain ⟨name, hname, hget⟩ := (bound_of_check hcheck).1 id hid
    exact ⟨name, hname, hkeep name id hget⟩
  · refine hover.node?_eq id (fun hmem => (hover.mem_created_iff.1 hmem).2 hlive) fun hpatched => ?_
    exact hspared (Draft.bound_of_patched hsound hcheck hbuild hlive hpatched)
  · exact Graph.mem_reachable.2 (htable id (hover.mem_created_iff.2 ⟨hlive, hdead⟩))
  · obtain ⟨rule, body, hget, -, -⟩ := (hcomplete c rfl).defined e he
    exact ⟨rule, hget, fun id hleads hopen =>
      Draft.mem_bindings_of_leads hsound hcheck hbuild he hget hleads hopen⟩
  · rintro rfl
    cases check_nil_eq_ok hcheck
    obtain ⟨hout, hrestored⟩ := Draft.cleanup_undoes_build hsound hcheck hbuild
    refine ⟨fun id => ?_, fun id => (hout id).trans hover.mem_created_iff, hrestored⟩
    rw [Draft.mem_reachable_iff_mem_created hsound hcheck hbuild, hover.mem_created_iff]

/-- **A grammar adds what its rules lead to, and changes nothing else** (`Adds`): the table has the
names defined and bound, the nodes that lived are as they were but for placeholders that were given
a body, those that came to live are in reach of the table, and without bindings cleaning up the
table takes all of it away again. This is so of every list of definitions, and of every text in any
dialect, which states such a list. -/
theorem compile_adds_no_orphan {g g' : Graph} {bindings : List ParserId} {sensitive : Bool}
    {c : Compilation} (hg : g.Built) :
    (∀ ds, assemble ds bindings sensitive g = .ok (.ok c) g' → Adds g ds bindings c g') ∧
    ∀ dialect text, compile dialect text bindings sensitive g = .ok (.ok c) g' →
      ∃ ds, definitions dialect text = .ok (.ok ds) ∧ Adds g ds bindings c g' := by
  refine ⟨fun ds hassemble => assemble_adds hg.sound hassemble, fun dialect text hcompile => ?_⟩
  obtain ⟨ds, hdefs, hassemble⟩ := assemble_of_compile hcompile
  exact ⟨ds, hdefs, assemble_adds hg.sound hassemble⟩

/-- What a recursive rule becomes whose placeholder was there before, where white space counts. -/
def boundRecursiveGraph : Graph :=
  { openRule with
    slots := #[.live 0 ⟨some "a", .rule (some ⟨5, 0⟩)⟩,
      .live 0 ⟨none, .terminal (.char 'x')⟩,
      .live 0 ⟨none, .sequence [⟨1, 0⟩, ⟨0, 0⟩]⟩,
      .live 0 ⟨none, .transform ⟨2, 0⟩ Tree.fold⟩,
      .live 0 ⟨none, .terminal (.char 'y')⟩,
      .live 0 ⟨none, .alternation [⟨3, 0⟩, ⟨4, 0⟩]⟩]
    live := 6 }

/-- A bound placeholder is given its body, and the node that was added for the character hangs on
it; without bindings, nothing is left behind once the rule is cleaned up. -/
theorem compile_adds_no_orphan_recursive :
    openRule.Built ∧
      compile .plain "a:'x'a|'y';" [⟨0, 0⟩] true openRule =
        .ok (.ok ⟨RuleTable.empty.insert "a" ⟨0, 0⟩, []⟩) boundRecursiveGraph ∧
      (∃ body, boundRecursiveGraph.node? ⟨0, 0⟩ = some ⟨some "a", .rule (some body)⟩) ∧
      ⟨1, 0⟩ ∈ boundRecursiveGraph.reachable [⟨0, 0⟩] ∧
      compile .plain "a:'x'a|'y';" [] false Graph.empty =
        .ok (.ok ⟨RuleTable.empty.insert "a" ⟨0, 0⟩, []⟩) recursiveGraph ∧
      ∀ id, (recursiveGraph.cleanup [⟨0, 0⟩]).2.node? id = none := by
  have hbuilt : openRule.Built :=
    .named (.insert .empty (rfl : Build.insert (.rule none) Graph.empty = .ok ⟨0, 0⟩
      ⟨#[.live 0 ⟨none, .rule none⟩], [], 1, 256⟩)) (rfl : Build.named ⟨0, 0⟩ "a" _ = _)
  have hcompile : compile .plain "a:'x'a|'y';" [⟨0, 0⟩] true openRule =
      .ok (.ok ⟨RuleTable.empty.insert "a" ⟨0, 0⟩, []⟩) boundRecursiveGraph := by
    rw [compile_of_definitions definitions_recursive]
    cbv
  obtain ⟨ds, hdefs, hadds⟩ := (compile_adds_no_orphan hbuilt).2 _ _ hcompile
  cases hdefs.symm.trans definitions_recursive
  obtain ⟨body, -, hbody⟩ := hadds.bodies ⟨0, 0⟩ (List.mem_singleton_self _) _
    (List.mem_singleton_self _) rfl
  obtain ⟨_, -, halone⟩ := (compile_adds_no_orphan .empty).2 _ _ compile_recursive
  exact ⟨hbuilt, hcompile, ⟨body, hbody⟩, hadds.reach ⟨1, 0⟩ rfl (by decide), compile_recursive,
    (halone.alone rfl).2.2⟩

end Grammar

end ParserGraph
