import Mathlib
import ParserGraph.Proofs.Grammar.Comparison
import ParserGraph.Proofs.Grammar.Draft
import ParserGraph.Proofs.Run.Finish

/-!
# Building — what becomes of definitions that pass the checks

The checks make sure that every rule to be defined has a placeholder of its
own that is open: bound ones bear the names they are bound under, and no rule
is defined twice. So no body is ever refused (`bodies_spec`); what a build can
still fail for is the validity of the graph it leads to. Where it succeeds,
every rule has a body that realizes its definition (`Draft.Complete`), and
either way the draft's record is complete (`build_spec`).
-/

namespace ParserGraph

namespace RuleTable

/-- What a table holds under a name is among its parsers. -/
theorem mem_roots_of_get? {t : RuleTable} {name : String} {id : ParserId}
    (h : t.get? name = some id) : id ∈ t.roots := by
  obtain ⟨rules, ascending⟩ := t
  change rules.lookup name = some id at h
  change id ∈ rules.map Prod.snd
  clear ascending
  induction rules with
  | nil => exact nomatch h
  | cons rule rules ih =>
    rw [lookup_cons_eq] at h
    split at h
    · cases h
      exact List.mem_cons_self
    · exact List.mem_cons_of_mem _ (ih h)

/-- The names of a table are those with a parser. -/
theorem mem_names {t : RuleTable} {name : String} :
    name ∈ t.names ↔ ∃ id, t.get? name = some id := by
  obtain ⟨rules, ascending⟩ := t
  change name ∈ rules.map Prod.fst ↔ ∃ id, rules.lookup name = some id
  clear ascending
  induction rules with
  | nil => simp
  | cons rule rules ih =>
    rw [List.map_cons, List.mem_cons, ih, lookup_cons_eq]
    split
    · next he => exact ⟨fun _ => ⟨rule.2, rfl⟩, fun _ => Or.inl he⟩
    · next hne => exact or_iff_right hne

/-- What is among the parsers of a table it holds under some name. -/
theorem exists_get?_of_mem_roots {t : RuleTable} {id : ParserId} (h : id ∈ t.roots) :
    ∃ name, t.get? name = some id := by
  obtain ⟨rules, ascending⟩ := t
  change id ∈ rules.map Prod.snd at h
  change ∃ name, rules.lookup name = some id
  induction rules with
  | nil => exact absurd h List.not_mem_nil
  | cons rule rules ih =>
    obtain ⟨hfirst, ascending⟩ := List.pairwise_cons.1 ascending
    rcases List.mem_cons.1 h with rfl | h
    · exact ⟨rule.1, by rw [lookup_cons_eq, if_pos rfl]⟩
    · obtain ⟨name, hget⟩ := ih ascending h
      -- the names ascend, so that this one is not the first
      have hmem : name ∈ (⟨rules, ascending⟩ : RuleTable).names := mem_names.2 ⟨id, hget⟩
      have hlt : rule.1 < name := hfirst name hmem
      have hne : name ≠ rule.1 := fun he => String.lt_irrefl _ (he ▸ hlt)
      exact ⟨name, by rw [lookup_cons_eq, if_neg hne, hget]⟩

end RuleTable

namespace Grammar

/-! ## What the checks make sure of -/

section

variable {g : Graph} {bound bound' : RuleTable} {ds : List Definition}

/-- Bound parsers bear the names they are bound under. -/
theorem bind_named {ids : List ParserId}
    (hbound : ∀ name id, bound.get? name = some id → ∃ kind, g.node? id = some ⟨some name, kind⟩)
    (h : bind g bound ids = .ok bound') :
    ∀ name id, bound'.get? name = some id → ∃ kind, g.node? id = some ⟨some name, kind⟩ := by
  induction ids generalizing bound with
  | nil =>
    cases h
    exact hbound
  | cons id ids ih =>
    rw [bind] at h
    split at h
    · exact nomatch h
    · exact nomatch h
    · next name kind hnode =>
      split at h
      · exact nomatch h
      · refine ih (fun name' id' hget => ?_) h
        rw [RuleTable.get?_insert] at hget
        split at hget
        · next he =>
          cases hget
          exact ⟨kind, he ▸ hnode⟩
        · exact hbound name' id' hget

/-- No rule is defined twice, and what is bound is defined only where it is open. -/
theorem checkDefinitions_spec {seen : List String} (h : checkDefinitions g bound seen ds = .ok ()) :
    (ds.map Definition.name).Nodup ∧ (∀ d ∈ ds, d.name ∉ seen) ∧
      ∀ d ∈ ds, ∀ id, bound.get? d.name = some id → g.isUndefinedRule id := by
  induction ds generalizing seen with
  | nil => exact ⟨List.nodup_nil, fun _ hd => absurd hd List.not_mem_nil,
      fun _ hd => absurd hd List.not_mem_nil⟩
  | cons d ds ih =>
    rw [checkDefinitions] at h
    split at h
    · exact nomatch h
    · next hok =>
      rw [Bool.or_eq_true, not_or, List.contains_iff_mem] at hok
      obtain ⟨hseen, hopen⟩ := hok
      obtain ⟨hnodup, hnew, hbound⟩ := ih h
      refine ⟨List.nodup_cons.2 ⟨fun hmem => ?_, hnodup⟩, fun d' hd' => ?_, fun d' hd' id hid => ?_⟩
      · obtain ⟨d', hd', he⟩ := List.mem_map.1 hmem
        exact hnew d' hd' (he ▸ List.mem_cons_self)
      · rcases List.mem_cons.1 hd' with rfl | hd'
        · exact hseen
        · exact fun hmem => hnew d' hd' (List.mem_cons_of_mem _ hmem)
      · rcases List.mem_cons.1 hd' with rfl | hd'
        · rw [hid] at hopen
          simpa using hopen
        · exact hbound d' hd' id hid

/-- **What passes the checks**: bound parsers under their names, each rule defined once, and defined
only where it is open. -/
theorem check_spec {bindings : List ParserId} (h : check g ds bindings = .ok bound) :
    (∀ name id, bound.get? name = some id → ∃ kind, g.node? id = some ⟨some name, kind⟩) ∧
      (ds.map Definition.name).Nodup ∧
      ∀ d ∈ ds, ∀ id, bound.get? d.name = some id → g.isUndefinedRule id := by
  unfold check at h
  obtain ⟨found, hbind, h⟩ := except_bind_eq_ok h
  obtain ⟨u, hdefs, h⟩ := except_bind_eq_ok h
  obtain ⟨u', -, h⟩ := except_bind_eq_ok h
  cases h
  obtain ⟨hnodup, -, hopen⟩ := checkDefinitions_spec hdefs
  refine ⟨bind_named (fun name id hget => ?_) hbind, hnodup, hopen⟩
  rw [RuleTable.get?_empty] at hget
  exact nomatch hget

/-- An open placeholder is one. -/
theorem node?_of_isUndefinedRule {id : ParserId} {name : Option String} {kind : Kind}
    (h : g.isUndefinedRule id) (hnode : g.node? id = some ⟨name, kind⟩) : kind = .rule none := by
  unfold Graph.isUndefinedRule at h
  rw [Graph.kind?, hnode, Option.map_some] at h
  split at h
  · next hkind => exact Option.some.inj hkind
  · exact absurd h Bool.false_ne_true

end

namespace Draft

variable {base : Graph} {bound : List ParserId} {sensitive : Bool} {rules rules' : RuleTable}
  {ds : List Definition} {d d' : Draft}

/-! ## Placeholders -/

/-- The parsers of a table are known and bear the names they are under. -/
def Names (d : Draft) (bound : List ParserId) (rules : RuleTable) : Prop :=
  ∀ name id, rules.get? name = some id →
    d.Knows bound id ∧ ∃ kind, d.graph.node? id = some ⟨some name, kind⟩

theorem Names.mono (h : d.Names bound rules) (hgo : Goes base bound d d') :
    d'.Names bound rules := by
  intro name id hget
  obtain ⟨hknows, kind, hnode⟩ := h name id hget
  exact ⟨hgo.knows hknows, kind, hgo.extends_graph _ _ hnode⟩

/-- The parsers of a table live. -/
theorem Names.live (h : d.Names bound rules) (name : String) (id : ParserId)
    (hget : rules.get? name = some id) : d.graph.contains id := by
  obtain ⟨-, kind, hnode⟩ := h name id hget
  exact Graph.contains_iff.2 ⟨_, hnode⟩

/-- A draft starts with what is bound, each parser under its name. -/
theorem names_start {bound : RuleTable} {bindings : List ParserId}
    (h : check base ds bindings = .ok bound) :
    Names ⟨base, none, [], []⟩ bound.roots bound :=
  fun name id hget => ⟨Or.inr (RuleTable.mem_roots_of_get? hget), (check_spec h).1 name id hget⟩

/-- A placeholder that was added may go into the table under its name. -/
theorem Names.insert (h : d.Names bound rules) (hgo : Goes base bound d d') {name : String}
    {id : ParserId} (hid : id ∈ d'.created)
    (hnode : d'.graph.node? id = some ⟨some name, .rule none⟩) :
    d'.Names bound (rules.insert name id) := by
  intro name' id' hget
  rw [RuleTable.get?_insert] at hget
  split at hget
  · next he =>
    cases hget
    exact ⟨Or.inl hid, .rule none, he ▸ hnode⟩
  · exact h.mono hgo name' id' hget

/-- **Every rule without a parser gets an open placeholder.** -/
theorem placeholders_goes (h : d.Over base bound) (hnames : d.Names bound rules)
    (hx : placeholders rules ds d = .ok rules' d') :
    Goes base bound d d' ∧ d'.Names bound rules' ∧
      (∀ name id, rules.get? name = some id → rules'.get? name = some id) ∧
      (∀ name id, rules'.get? name = some id → rules.get? name = some id ∨
        (∃ e ∈ ds, e.name = name) ∧ d'.graph.node? id = some ⟨some name, .rule none⟩) ∧
      ∀ e ∈ ds, ∃ id, rules'.get? e.name = some id := by
  induction ds generalizing rules d with
  | nil =>
    obtain ⟨rfl, rfl⟩ := Drafting.pure_eq_ok hx
    exact ⟨.refl h, hnames, fun _ _ hget => hget, fun _ _ hget => Or.inl hget,
      fun _ he => absurd he List.not_mem_nil⟩
  | cons e ds ih =>
    rw [placeholders] at hx
    split at hx
    · next hold =>
      obtain ⟨hgo, hnames', hkeep, horigin, hall⟩ := ih h hnames hx
      refine ⟨hgo, hnames', hkeep, fun name id hget => ?_, fun e' he' => ?_⟩
      · refine (horigin name id hget).imp_right fun hnew => ?_
        obtain ⟨⟨e', he', hname⟩, hnode⟩ := hnew
        exact ⟨⟨e', List.mem_cons_of_mem _ he', hname⟩, hnode⟩
      · rcases List.mem_cons.1 he' with rfl | he'
        · obtain ⟨id, hid⟩ := Option.isSome_iff_exists.1 hold
          exact ⟨id, hkeep _ id hid⟩
        · exact hall e' he'
    · next hnew =>
      -- a new placeholder goes into the table, where nothing was under its name
      have hnone : rules.get? e.name = none := by
        rw [RuleTable.contains, Bool.not_eq_true, Option.isSome_eq_false_iff] at hnew
        exact Option.isNone_iff_eq_none.1 hnew
      obtain ⟨id, d₁, hrule, hx⟩ := Drafting.bind_eq_ok.1 hx
      obtain ⟨hgo₁, hnode₁, hmem₁⟩ := rule_goes h hrule
      have hnames₁ : d₁.Names bound (rules.insert e.name id) := hnames.insert hgo₁ hmem₁ hnode₁
      obtain ⟨hgo, hnames', hkeep, horigin, hall⟩ := ih hgo₁.kept hnames₁ hx
      have hname : rules'.get? e.name = some id :=
        hkeep _ _ (by rw [RuleTable.get?_insert, if_pos rfl])
      refine ⟨hgo₁.trans hgo, hnames', fun name id' hget => ?_, fun name id' hget => ?_,
        fun e' he' => ?_⟩
      · refine hkeep name id' ?_
        rw [RuleTable.get?_insert, if_neg]
        · exact hget
        · rintro rfl
          rw [hnone] at hget
          exact nomatch hget
      · rcases horigin name id' hget with hins | ⟨⟨e', he', hname'⟩, hnode'⟩
        · rw [RuleTable.get?_insert] at hins
          split at hins
          · next he =>
            cases hins
            exact Or.inr ⟨⟨e, List.mem_cons_self, he.symm⟩, he ▸ hgo.extends_graph _ _ hnode₁⟩
          · exact Or.inl hins
        · exact Or.inr ⟨⟨e', List.mem_cons_of_mem _ he', hname'⟩, hnode'⟩
      · rcases List.mem_cons.1 he' with rfl | he'
        · exact ⟨id, hname⟩
        · exact hall e' he'

/-! ## Bodies -/

/-- **Giving an open placeholder a body keeps the record complete.** -/
theorem Over.define (h : d.Over base bound) {rule body : ParserId} {name : Option String}
    (hrule : d.graph.node? rule = some ⟨name, .rule none⟩) (hbody : d.Knows bound body) :
    Over base bound
      { d with
        graph := d.graph.replace rule ⟨name, .rule (some body)⟩
        patched := rule :: d.patched } ∧
      d.graph.Refines (d.graph.replace rule ⟨name, .rule (some body)⟩) := by
  have hnode : ∀ id, (d.graph.replace rule ⟨name, .rule (some body)⟩).node? id =
      if id = rule then some ⟨name, .rule (some body)⟩ else d.graph.node? id :=
    Graph.node?_replace hrule _
  have hrefines : d.graph.Refines (d.graph.replace rule ⟨name, .rule (some body)⟩) :=
    Graph.refines_replace hrule
  refine ⟨?_, hrefines⟩
  refine
    { h with
      sound := Graph.sound_replace h.sound hrule _
      created_live := fun id hid => ?_
      node?_eq := fun id hcreated hpatched => ?_
      patched_open := fun id hpatched hcreated => ?_
      operands_known := fun id hid o ho => ?_
      spaces_skip := fun id hs => ?_ }
  · dsimp only
    rw [Graph.contains, hnode]
    split
    · rfl
    · exact h.created_live id hid
  · obtain ⟨hne, hpatched⟩ := not_or.1 (mt List.mem_cons.2 hpatched)
    dsimp only
    rw [hnode, if_neg hne]
    exact h.node?_eq id hcreated hpatched
  · dsimp only
    rw [hnode]
    by_cases he : id = rule
    · subst he
      -- an open placeholder was given no body before, so it is as it was in the base
      have hfirst : id ∉ d.patched := by
        intro hmem
        obtain ⟨name', body', -, hbody'⟩ := h.patched_open id hmem hcreated
        rw [hrule] at hbody'
        simp at hbody'
      exact ⟨name, body, (h.node?_eq id hcreated hfirst).symm.trans hrule, if_pos rfl⟩
    · rw [if_neg he]
      exact h.patched_open id ((List.mem_cons.1 hpatched).resolve_left he) hcreated
  · dsimp only at ho
    by_cases he : id = rule
    · subst he
      have hself : (d.graph.replace id ⟨name, .rule (some body)⟩).node? id =
          some ⟨name, .rule (some body)⟩ := by rw [hnode, if_pos rfl]
      rw [Graph.operands_of_node? hself] at ho
      cases List.mem_singleton.1 ho
      exact hbody
    · have hsame : (d.graph.replace rule ⟨name, .rule (some body)⟩).operands id =
          d.graph.operands id := by
        rw [Graph.operands, Graph.kind?, hnode, if_neg he]
        rfl
      exact h.operands_known id hid o (hsame ▸ ho)
  · obtain ⟨hid, hskips⟩ := h.spaces_skip id hs
    exact ⟨hid, hskips.mono hrefines⟩

/-- Puts a body under a label, if there is one. -/
def labelled (label : Option String) (body : ParserId) : Drafting ParserId :=
  match label with
  | some label => Draft.add (Build.expect body label)
  | none => pure body

/-- A body that is added, under its label if it has one, realizes the definition. -/
theorem labelled_goes {e : Definition} {part body : ParserId} (h : d.Over base bound)
    (hpart : Realizes d.graph sensitive rules part e.body) (hknows : d.Knows bound part)
    (hlive : d.graph.contains part) (hx : labelled e.label part d = .ok body d') :
    Goes base bound d d' ∧ d'.graph.contains body ∧
      RealizesBody d'.graph sensitive rules body e ∧ d'.Knows bound body := by
  unfold RealizesBody
  cases hlabel : e.label with
  | none =>
    rw [hlabel] at hx
    obtain ⟨rfl, rfl⟩ := Drafting.pure_eq_ok hx
    exact ⟨.refl h, hlive, hpart, hknows⟩
  | some label =>
    rw [hlabel] at hx
    obtain ⟨hgo, hnode, hmem⟩ := insert_goes h hx fun o ho => List.mem_singleton.1 ho ▸ hknows
    have hrealizes : ∃ part, Realizes d'.graph sensitive rules part e.body ∧
        d'.graph.node? body = some ⟨none, .expect part label⟩ :=
      ⟨part, hpart.mono hgo.extends_graph.refines, hnode⟩
    exact ⟨hgo, Graph.contains_iff.2 ⟨_, hnode⟩, hrealizes, Or.inl hmem⟩

/-- Bodies are added, labelled and given to their placeholders one after another. -/
theorem bodies_cons (e : Definition) (ds : List Definition) :
    bodies sensitive rules (e :: ds) =
      expression sensitive rules e.body >>= fun part => labelled e.label part >>= fun body =>
        resolve rules e.name >>= fun rule => Draft.define rule body >>= fun done =>
          match done with
          | .error error => pure (.error error)
          | .ok () => bodies sensitive rules ds := by
  rw [bodies]
  cases e.label with
  | none => rfl
  | some label => rfl

/-- A body that was not refused lives, and was given to a placeholder that was open. -/
theorem define_done {rule body : ParserId} (hx : Draft.define rule body d = .ok (.ok ()) d') :
    d.graph.contains body ∧ ∃ name, d.graph.node? rule = some ⟨name, .rule none⟩ ∧
      d' = { d with
        graph := d.graph.replace rule ⟨name, .rule (some body)⟩
        patched := rule :: d.patched } := by
  unfold Draft.define at hx
  split at hx
  · next g hdefine =>
    cases hx
    obtain ⟨hbody, name, hrule, rfl⟩ := Graph.define_eq_ok hdefine
    exact ⟨hbody, name, hrule, rfl⟩
  · exact nomatch hx

/-- Where no body is refused, each definition is built before the next. -/
theorem bodies_cons_done {e : Definition}
    (hx : bodies sensitive rules (e :: ds) d = .ok (.ok ()) d') :
    ∃ part d₁ body d₂ rule d₃, expression sensitive rules e.body d = .ok part d₁ ∧
      labelled e.label part d₁ = .ok body d₂ ∧ rules.get? e.name = some rule ∧
      Draft.define rule body d₂ = .ok (.ok ()) d₃ ∧
      bodies sensitive rules ds d₃ = .ok (.ok ()) d' := by
  rw [bodies_cons] at hx
  obtain ⟨part, d₁, hpart, hx⟩ := Drafting.bind_eq_ok.1 hx
  obtain ⟨body, d₂, hbody, hx⟩ := Drafting.bind_eq_ok.1 hx
  obtain ⟨rule, d₂', hrule, hx⟩ := Drafting.bind_eq_ok.1 hx
  obtain ⟨hget, rfl⟩ := resolve_eq_ok hrule
  obtain ⟨done, d₃, hdefine, hx⟩ := Drafting.bind_eq_ok.1 hx
  cases done with
  | error error => exact nomatch (Drafting.pure_eq_ok hx).1
  | ok u => exact ⟨part, d₁, body, d₂, rule, d₃, hpart, hbody, hget, hdefine, hx⟩

/-- **The first definition is built before the others**: its body is added, and then given to its
rule. -/
theorem bodies_cons_eq_ok {e : Definition} {r : Except GraphError Unit} (h : d.Over base bound)
    (hnames : d.Names bound rules) (hx : bodies sensitive rules (e :: ds) d = .ok r d') :
    ∃ d₁ rule body done d₂, Goes base bound d d₁ ∧ d₁.graph.contains body ∧
      RealizesBody d₁.graph sensitive rules body e ∧ d₁.Knows bound body ∧
      rules.get? e.name = some rule ∧ Draft.define rule body d₁ = .ok done d₂ ∧
      (match done with
        | .error error => pure (.error error)
        | .ok () => bodies sensitive rules ds : Drafting (Except GraphError Unit)) d₂ =
          .ok r d' := by
  rw [bodies_cons] at hx
  obtain ⟨part, d₁, hpart, hx⟩ := Drafting.bind_eq_ok.1 hx
  obtain ⟨body, d₂, hbody, hx⟩ := Drafting.bind_eq_ok.1 hx
  obtain ⟨rule, d₂', hrule, hx⟩ := Drafting.bind_eq_ok.1 hx
  obtain ⟨hget, rfl⟩ := resolve_eq_ok hrule
  obtain ⟨done, d₃, hdefine, hx⟩ := Drafting.bind_eq_ok.1 hx
  obtain ⟨hgo₁, hreal, hknows⟩ :=
    expression_goes e.body h (fun name id hid => (hnames name id hid).1) hpart
  have hlive₁ : d₁.graph.contains part := hreal.contains (hnames.mono hgo₁).live
  obtain ⟨hgo₂, hlive, hrealizes, hknown⟩ := labelled_goes hgo₁.kept hreal hknows hlive₁ hbody
  exact ⟨d₂, rule, body, done, d₃, hgo₁.trans hgo₂, hlive, hrealizes, hknown, hget, hdefine, hx⟩

/-- A rule whose placeholder has a body that realizes its definition. -/
def Defined (g : Graph) (sensitive : Bool) (rules : RuleTable) (e : Definition) : Prop :=
  ∃ id body, rules.get? e.name = some id ∧ g.node? id = some ⟨some e.name, .rule (some body)⟩ ∧
    RealizesBody g sensitive rules body e

theorem Defined.mono {g g' : Graph} {e : Definition} (h : g.Refines g')
    (he : Defined g sensitive rules e) : Defined g' sensitive rules e := by
  obtain ⟨id, body, hget, hid, hbody⟩ := he
  exact ⟨id, body, hget, h.kept hid (by simp), hbody.mono h⟩

/-- **No body is refused, and each realizes its definition**, if every rule has an open placeholder
of its own. -/
theorem bodies_spec {r : Except GraphError Unit} (h : d.Over base bound)
    (hnames : d.Names bound rules) (hnodup : (ds.map Definition.name).Nodup)
    (hopen : ∀ e ∈ ds, ∃ id, rules.get? e.name = some id ∧
      d.graph.node? id = some ⟨some e.name, .rule none⟩)
    (hx : bodies sensitive rules ds d = .ok r d') :
    d'.Over base bound ∧ d.graph.Refines d'.graph ∧ d.created ⊆ d'.created ∧ r = .ok () ∧
      ∀ e ∈ ds, Defined d'.graph sensitive rules e := by
  induction ds generalizing d with
  | nil =>
    obtain ⟨rfl, rfl⟩ := Drafting.pure_eq_ok hx
    exact ⟨h, (Graph.Extends.refl _).refines, List.Subset.refl _, rfl,
      fun _ he => absurd he List.not_mem_nil⟩
  | cons e ds ih =>
    obtain ⟨d₂, rule, body, done, d₃, hgo, hlive, hrealizes, hknown, hget, hdefine, hx⟩ :=
      bodies_cons_eq_ok h hnames hx
    obtain ⟨id, hid, hnode⟩ := hopen e List.mem_cons_self
    cases hget.symm.trans hid
    -- the placeholder is open and the body lives, so that it is not refused
    have hnode₂ := hgo.extends_graph _ _ hnode
    rw [Draft.define, Graph.define_of_undefined hlive hnode₂] at hdefine
    cases hdefine
    obtain ⟨hover₃, hrefines₃⟩ := hgo.kept.define hnode₂ hknown
    have hrefines : d.graph.Refines (d₂.graph.replace rule ⟨some e.name, .rule (some body)⟩) :=
      hgo.extends_graph.refines.trans hrefines₃
    obtain ⟨hnew, hnodup⟩ := List.nodup_cons.1 hnodup
    -- the other placeholders bear other names, so they stay open
    have hopen₃ : ∀ e' ∈ ds, ∃ id, rules.get? e'.name = some id ∧
        (d₂.graph.replace rule ⟨some e.name, .rule (some body)⟩).node? id =
          some ⟨some e'.name, .rule none⟩ := by
      intro e' he'
      obtain ⟨id', hid', hnode'⟩ := hopen e' (List.mem_cons_of_mem _ he')
      have hname : some e'.name ≠ some e.name := by
        intro h
        exact hnew (Option.some.inj h ▸ List.mem_map_of_mem he')
      have hkept := hgo.extends_graph _ _ hnode'
      exact ⟨id', hid', Graph.node?_replace_of_name_ne hnode₂ hkept hname _⟩
    have hnames₃ : Names { d₂ with
        graph := d₂.graph.replace rule ⟨some e.name, .rule (some body)⟩
        patched := rule :: d₂.patched } bound rules := by
      intro name id hid
      obtain ⟨hknows, kind, hnode⟩ := hnames.mono hgo name id hid
      exact ⟨hknows, hrefines₃.named hnode⟩
    obtain ⟨hover, hrefines', hcreated, hr, hall⟩ := ih hover₃ hnames₃ hnodup hopen₃ hx
    refine ⟨hover, hrefines.trans hrefines', List.Subset.trans hgo.created_subset hcreated, hr,
      fun e' he' => ?_⟩
    rcases List.mem_cons.1 he' with rfl | he'
    · refine Defined.mono hrefines' ⟨rule, body, hget, ?_, hrealizes.mono hrefines₃⟩
      rw [Graph.node?_replace hnode₂, if_pos rfl]
    · exact hall e' he'

/-! ## The whole build -/

/-- The parsers of several names are those in the table. -/
theorem resolveAll_eq_ok {names : List String} {ids : List ParserId}
    (hx : resolveAll rules names d = .ok ids d') :
    d = d' ∧ ∀ id, id ∈ ids ↔ ∃ name ∈ names, rules.get? name = some id := by
  induction names generalizing d ids with
  | nil =>
    obtain ⟨rfl, rfl⟩ := Drafting.pure_eq_ok hx
    exact ⟨rfl, fun _ => ⟨fun hid => absurd hid List.not_mem_nil,
      fun ⟨_, hname, _⟩ => absurd hname List.not_mem_nil⟩⟩
  | cons name names ih =>
    obtain ⟨found, d₁, hfound, hx⟩ := Drafting.bind_eq_ok.1 hx
    obtain ⟨ids', d₂, hids, hx⟩ := Drafting.bind_eq_ok.1 hx
    obtain ⟨rfl, rfl⟩ := Drafting.pure_eq_ok hx
    obtain ⟨hget, rfl⟩ := resolve_eq_ok hfound
    obtain ⟨rfl, hall⟩ := ih hids
    refine ⟨rfl, fun id => ⟨fun hid => ?_, ?_⟩⟩
    · rcases List.mem_cons.1 hid with rfl | hid
      · exact ⟨name, List.mem_cons_self, hget⟩
      · obtain ⟨name', hname', hget'⟩ := (hall id).1 hid
        exact ⟨name', List.mem_cons_of_mem _ hname', hget'⟩
    · rintro ⟨name', hname', hget'⟩
      rcases List.mem_cons.1 hname' with rfl | hname'
      · cases hget.symm.trans hget'
        exact List.mem_cons_self
      · exact List.mem_cons_of_mem _ ((hall id).2 ⟨name', hname', hget'⟩)

/-- A draft that added all definitions, whatever graph they lead to. -/
structure Filled (d : Draft) (sensitive : Bool) (bound : RuleTable) (ds : List Definition)
    (rules : RuleTable) (roots : List ParserId) : Prop where
  /-- Every definition has its rule. -/
  defined : ∀ e ∈ ds, Defined d.graph sensitive rules e
  /-- A rule of the table is bound or defined. -/
  bound_or_defined : ∀ name id, rules.get? name = some id →
    bound.get? name = some id ∨ ∃ e ∈ ds, e.name = name
  /-- Every rule of the table is known. -/
  known : ∀ name id, rules.get? name = some id → d.Knows bound.roots id
  /-- The roots are the rules that are defined. -/
  mem_roots : ∀ id, id ∈ roots ↔ ∃ name ∈ ds.map Definition.name, rules.get? name = some id

/-- A draft that built all definitions into a valid graph. -/
structure Complete (d : Draft) (sensitive : Bool) (bound : RuleTable) (ds : List Definition)
    (rules : RuleTable) : Prop where
  /-- Every definition has its rule. -/
  defined : ∀ e ∈ ds, Defined d.graph sensitive rules e
  /-- A rule of the table is bound or defined. -/
  bound_or_defined : ∀ name id, rules.get? name = some id →
    bound.get? name = some id ∨ ∃ e ∈ ds, e.name = name
  /-- Every rule of the table is known. -/
  known : ∀ name id, rules.get? name = some id → d.Knows bound.roots id
  /-- The graph is valid from the rules that are defined. -/
  valid : ∃ roots, d.graph.validateExcept ((d.pending bound).map Prod.snd) roots = .ok () ∧
    ∀ e ∈ ds, ∀ id, rules.get? e.name = some id → id ∈ roots

/-- Where nothing is bound, every rule of the table is defined. -/
theorem Complete.exists_definition (h : d.Complete sensitive .empty ds rules) {name : String}
    {id : ParserId} (hget : rules.get? name = some id) : ∃ e ∈ ds, e.name = name := by
  refine (h.bound_or_defined name id hget).resolve_left fun hbound => ?_
  rw [RuleTable.get?_empty] at hbound
  exact nomatch hbound

/-- And was added. -/
theorem Complete.mem_created (h : d.Complete sensitive .empty ds rules) {name : String}
    {id : ParserId} (hget : rules.get? name = some id) : id ∈ d.created :=
  (h.known name id hget).resolve_right List.not_mem_nil

/-- What comes of a draft: what its graph is found to be, from the rules that are defined. -/
def verdict (d : Draft) (bound rules : RuleTable) (roots : List ParserId) :
    Except GrammarError Compilation :=
  match d.graph.validateExcept ((d.pending bound).map Prod.snd) roots with
  | .error e => .error (.invalid e)
  | .ok () => .ok ⟨rules, (d.pending bound).map Prod.fst⟩

/-- Where nothing is bound, no placeholder may stay open. -/
theorem verdict_empty (d : Draft) (rules : RuleTable) (roots : List ParserId) :
    d.verdict .empty rules roots = match d.graph.validateExcept [] roots with
      | .error e => .error (.invalid e)
      | .ok () => .ok ⟨rules, []⟩ := rfl

/-- Before its bodies are built, every rule to be defined has an open placeholder. -/
theorem placeholders_open {bound : RuleTable} {bindings : List ParserId}
    (hsound : base.Sound) (hcheck : check base ds bindings = .ok bound)
    (hx : placeholders bound ds ⟨base, none, [], []⟩ = .ok rules d) :
    ∀ e ∈ ds, ∃ id, rules.get? e.name = some id ∧
      d.graph.node? id = some ⟨some e.name, .rule none⟩ := by
  obtain ⟨hnamed, -, hopen⟩ := check_spec hcheck
  obtain ⟨hgo, -, -, horigin, hall⟩ :=
    placeholders_goes (over_start hsound) (names_start hcheck) hx
  intro e he
  obtain ⟨id, hget⟩ := hall e he
  refine ⟨id, hget, ?_⟩
  -- a bound placeholder was checked to be open, and a new one is
  rcases horigin e.name id hget with hbound | ⟨-, hnew⟩
  · obtain ⟨kind, hnode⟩ := hnamed e.name id hbound
    cases node?_of_isUndefinedRule (hopen e he id hbound) hnode
    exact hgo.extends_graph _ _ hnode
  · exact hnew

/-- **The parts of a build**: placeholders for all rules, then their bodies, none of which is
refused, and then a look at the graph. -/
theorem parts_of_build {bound : RuleTable} {bindings : List ParserId} {d : Draft}
    {r : Except GrammarError Compilation} (hsound : base.Sound)
    (hcheck : check base ds bindings = .ok bound)
    (hx : build sensitive bound ds ⟨base, none, [], []⟩ = .ok r d) :
    ∃ rules d₁ roots, placeholders bound ds ⟨base, none, [], []⟩ = .ok rules d₁ ∧
      resolveAll rules (ds.map Definition.name) d₁ = .ok roots d₁ ∧
      bodies sensitive rules ds d₁ = .ok (.ok ()) d ∧ r = d.verdict bound rules roots := by
  obtain ⟨rules, d₁, hrules, hx⟩ := Drafting.bind_eq_ok.1 hx
  obtain ⟨roots, d₁', hroots, hx⟩ := Drafting.bind_eq_ok.1 hx
  obtain ⟨rfl, -⟩ := resolveAll_eq_ok hroots
  obtain ⟨done, d₂, hbodies, hx⟩ := Drafting.bind_eq_ok.1 hx
  obtain ⟨hgo, hnames, -, -, -⟩ :=
    placeholders_goes (over_start hsound) (names_start hcheck) hrules
  obtain ⟨-, -, -, rfl, -⟩ := bodies_spec hgo.kept hnames (check_spec hcheck).2.1
    (placeholders_open hsound hcheck hrules) hbodies
  obtain ⟨d₃, d₂', hget, hx⟩ := Drafting.bind_eq_ok.1 hx
  cases hget
  refine ⟨rules, d₁, roots, hrules, hroots, ?_⟩
  unfold verdict
  cases hvalid : d₂.graph.validateExcept ((d₂.pending bound).map Prod.snd) roots with
  | error v =>
    rw [hvalid] at hx
    obtain ⟨rfl, rfl⟩ := Drafting.pure_eq_ok hx
    exact ⟨hbodies, by rw [hvalid]⟩
  | ok u =>
    rw [hvalid] at hx
    obtain ⟨rfl, rfl⟩ := Drafting.pure_eq_ok hx
    exact ⟨hbodies, by rw [hvalid]⟩

/-- **A build adds all definitions and keeps its record complete**; what comes of it is then up to
the graph alone. -/
theorem build_eq_ok {bound : RuleTable} {bindings : List ParserId} {d : Draft}
    {r : Except GrammarError Compilation} (hsound : base.Sound)
    (hcheck : check base ds bindings = .ok bound)
    (hx : build sensitive bound ds ⟨base, none, [], []⟩ = .ok r d) :
    ∃ rules roots, d.Over base bound.roots ∧ d.Filled sensitive bound ds rules roots ∧
      r = d.verdict bound rules roots := by
  obtain ⟨rules, d₁, roots, hrules, hroots, hbodies, hr⟩ := parts_of_build hsound hcheck hx
  obtain ⟨hgo, hnames, -, horigin, -⟩ :=
    placeholders_goes (over_start hsound) (names_start hcheck) hrules
  obtain ⟨hover, -, hcreated, -, hdefined⟩ := bodies_spec hgo.kept hnames (check_spec hcheck).2.1
    (placeholders_open hsound hcheck hrules) hbodies
  have hfilled : d.Filled sensitive bound ds rules roots :=
    { defined := hdefined
      bound_or_defined := fun name id hget => (horigin name id hget).imp_right fun hnew => hnew.1
      known := fun name id hget => (hnames name id hget).1.imp_left fun hmem => hcreated hmem
      mem_roots := (resolveAll_eq_ok hroots).2 }
  exact ⟨rules, roots, hover, hfilled, hr⟩

/-- **A build fails only for a graph that is not valid, and where it succeeds, all definitions are
built.** -/
theorem build_spec {bound : RuleTable} {bindings : List ParserId} {d : Draft}
    {r : Except GrammarError Compilation} (hsound : base.Sound)
    (hcheck : check base ds bindings = .ok bound)
    (hx : build sensitive bound ds ⟨base, none, [], []⟩ = .ok r d) :
    d.Over base bound.roots ∧ (∀ error, r = .error error → ∃ v, error = .invalid v) ∧
      ∀ c, r = .ok c → d.Complete sensitive bound ds c.table := by
  obtain ⟨rules, roots, hover, hfilled, rfl⟩ := build_eq_ok hsound hcheck hx
  unfold verdict
  cases hvalid : d.graph.validateExcept ((d.pending bound).map Prod.snd) roots with
  | error v =>
    refine ⟨hover, fun error he => ?_, fun c hc => nomatch hc⟩
    cases he
    exact ⟨v, rfl⟩
  | ok u =>
    refine ⟨hover, fun error he => (nomatch he), fun c hc => ?_⟩
    cases hc
    exact ⟨hfilled.defined, hfilled.bound_or_defined, hfilled.known, roots, hvalid,
      fun e he id hget => (hfilled.mem_roots id).2 ⟨e.name, List.mem_map_of_mem he, hget⟩⟩

end Draft

/-! ## The whole compilation -/

section

variable {g g' : Graph} {dialect : Pattern.Dialect} {text : String} {bindings : List ParserId}
  {sensitive : Bool}
  {ds : List Definition} {r : Except GrammarError Compilation}

/-- Definitions are rejected by the checks, undone, or built. -/
theorem assemble_eq_ok (h : assemble ds bindings sensitive g = .ok r g') :
    (∃ error, check g ds bindings = .error error ∧ r = .error error ∧ g' = g) ∨
      ∃ bound d, check g ds bindings = .ok bound ∧
        Draft.build sensitive bound ds ⟨g, none, [], []⟩ = .ok r d ∧
        ((∃ error, r = .error error ∧ g' = d.undone) ∨ ∃ c, r = .ok c ∧ g' = d.graph) := by
  unfold assemble at h
  split at h
  · next error hcheck =>
    cases h
    exact Or.inl ⟨error, hcheck, rfl, rfl⟩
  · next bound hcheck =>
    refine Or.inr ⟨bound, ?_⟩
    split at h
    · exact nomatch h
    · next error d hbuild =>
      cases h
      exact ⟨d, hcheck, hbuild, Or.inl ⟨error, rfl, rfl⟩⟩
    · next c d hbuild =>
      cases h
      exact ⟨d, hcheck, hbuild, Or.inr ⟨c, rfl, rfl⟩⟩

/-- What a text states is assembled. -/
theorem compile_of_definitions (h : definitions dialect text = .ok (.ok ds)) :
    compile dialect text bindings sensitive g = assemble ds bindings sensitive g := by
  unfold compile
  rw [h]

/-- A text that does not come to definitions leaves the graph alone. -/
theorem compile_of_rejected {error : GrammarError}
    (h : definitions dialect text = .ok (.error error)) :
    compile dialect text bindings sensitive g = .ok (.error error) g := by
  unfold compile
  rw [h]

/-- A text is rejected, or its definitions are assembled. -/
theorem compile_eq_ok (h : compile dialect text bindings sensitive g = .ok r g') :
    (∃ error, definitions dialect text = .ok (.error error) ∧ r = .error error ∧ g' = g) ∨
      ∃ ds, definitions dialect text = .ok (.ok ds) ∧
        assemble ds bindings sensitive g = .ok r g' := by
  unfold compile at h
  split at h
  · exact nomatch h
  · next error hdefs =>
    cases h
    exact Or.inl ⟨error, hdefs, rfl, rfl⟩
  · next ds hdefs => exact Or.inr ⟨ds, hdefs, h⟩

/-- What a text is compiled to, its definitions are assembled to. -/
theorem assemble_of_compile {c : Compilation}
    (h : compile dialect text bindings sensitive g = .ok (.ok c) g') :
    ∃ ds, definitions dialect text = .ok (.ok ds) ∧
      assemble ds bindings sensitive g = .ok (.ok c) g' :=
  (compile_eq_ok h).resolve_left fun ⟨_, _, hr, _⟩ => nomatch hr

/-- Without bindings, nothing is bound. -/
theorem check_nil_eq_ok {bound : RuleTable} (h : check g ds [] = .ok bound) : bound = .empty := by
  unfold check at h
  obtain ⟨found, hbind, h⟩ := except_bind_eq_ok h
  obtain ⟨u, -, h⟩ := except_bind_eq_ok h
  obtain ⟨u', -, h⟩ := except_bind_eq_ok h
  cases hbind
  cases h
  rfl

/-- **What is assembled without bindings**: all definitions, by a draft that knows only what it
added. -/
theorem assemble_nil_eq_ok {c : Compilation} (hsound : g.Sound)
    (h : assemble ds [] sensitive g = .ok (.ok c) g') :
    ∃ d, d.graph = g' ∧ Draft.Over g [] d ∧ Draft.Complete d sensitive .empty ds c.table := by
  rcases assemble_eq_ok h with ⟨_, -, hr, -⟩ | ⟨bound, d, hcheck, hbuild, hresult⟩
  · exact nomatch hr
  rcases hresult with ⟨_, hr, -⟩ | ⟨c', hc, rfl⟩
  · exact nomatch hr
  cases hc
  cases check_nil_eq_ok hcheck
  obtain ⟨hover, -, hcomplete⟩ := Draft.build_spec hsound hcheck hbuild
  exact ⟨d, rfl, hover, hcomplete c rfl⟩

/-- What is compiled without bindings is all definitions of the text. -/
theorem compile_nil_eq_ok {c : Compilation} (hsound : g.Sound)
    (h : compile dialect text [] sensitive g = .ok (.ok c) g') :
    ∃ ds d, definitions dialect text = .ok (.ok ds) ∧ d.graph = g' ∧ Draft.Over g [] d ∧
      Draft.Complete d sensitive .empty ds c.table := by
  obtain ⟨ds, hdefs, hassemble⟩ := assemble_of_compile h
  obtain ⟨d, hd⟩ := assemble_nil_eq_ok hsound hassemble
  exact ⟨ds, d, hdefs, hd⟩

end

/-! ## A rule that goes on with itself -/

/-- A text with one recursive rule, and what it states. -/
theorem definitions_recursive : definitions .plain "a:'x'a|'y';" =
    .ok (.ok [⟨"a", none,
      .alternation [.sequence [.char 'x', .reference "a" ⟨5, 1, 6⟩], .char 'y'], ⟨0, 1, 1⟩⟩]) :=
  definitions_of_states (by decide +kernel)

/-- What it is compiled to: the placeholder, then its body from the inside out. -/
def recursiveGraph : Graph where
  slots := #[.live 0 ⟨some "a", .rule (some ⟨12, 0⟩)⟩,
    .live 0 ⟨none, .terminal (.char 'x')⟩,
    .live 0 ⟨none, .terminal (.satisfy "whitespace" CharSet.whiteSpace.contains)⟩,
    .live 0 ⟨none, .repetition ⟨2, 0⟩ 0 none⟩,
    .live 0 ⟨none, .transform ⟨3, 0⟩ Tree.skip⟩,
    .live 0 ⟨none, .sequence [⟨1, 0⟩, ⟨4, 0⟩]⟩,
    .live 0 ⟨none, .transform ⟨5, 0⟩ Tree.first⟩,
    .live 0 ⟨none, .sequence [⟨6, 0⟩, ⟨0, 0⟩]⟩,
    .live 0 ⟨none, .transform ⟨7, 0⟩ Tree.fold⟩,
    .live 0 ⟨none, .terminal (.char 'y')⟩,
    .live 0 ⟨none, .sequence [⟨9, 0⟩, ⟨4, 0⟩]⟩,
    .live 0 ⟨none, .transform ⟨10, 0⟩ Tree.first⟩,
    .live 0 ⟨none, .alternation [⟨8, 0⟩, ⟨11, 0⟩]⟩]
  free := []
  live := 13
  maxDepth := 256

theorem compile_recursive : compile .plain "a:'x'a|'y';" [] false Graph.empty =
    .ok (.ok ⟨RuleTable.empty.insert "a" ⟨0, 0⟩, []⟩) recursiveGraph := by
  rw [compile_of_definitions definitions_recursive]
  cbv

end Grammar

end ParserGraph
