import ParserGraph.Proofs.Grammar.Totality
import ParserGraph.Proofs.Validation.Padding

/-!
# Pairing — a grammar built where white space counts, and where it does not

The same definitions are built twice, in step: once where white space counts,
and once where every terminal skips the white space after it. What one build
adds is paired with what the other adds for the same, and what only the other
adds is padding around its terminals (`Draft.Beside`). Every step of the two
builds keeps to this, so that the graphs they lead to are the same but for
padding (`Draft.Beside.padded`), and validation cannot tell them apart. A
grammar is accepted or rejected alike, with the same error
(`assemble_insensitive`).
-/

namespace ParserGraph.Grammar

/-- Whatever was added under the first of two ids was added for the same under the second. -/
abbrev Pairs := List (ParserId × ParserId)

namespace Draft

/-! ## Padding -/

/-- What is added around a terminal to skip the white space after it: the terminal itself, what
skips white space, and both together. -/
inductive PadKind (g : Graph) (pads : List ParserId) : Kind → Prop
  | bare {t : Terminal} : PadKind g pads (.terminal t)
  | run {space : ParserId} : space ∈ pads →
      g.node? space =
        some ⟨none, .terminal (.satisfy "whitespace" CharSet.whiteSpace.contains)⟩ →
      PadKind g pads (.repetition space 0 none)
  | skip {run space : ParserId} : run ∈ pads →
      g.node? run = some ⟨none, .repetition space 0 none⟩ →
      PadKind g pads (.transform run Tree.skip)
  | both {bare spaces : ParserId} {t : Terminal} : bare ∈ pads → spaces ∈ pads →
      g.node? bare = some ⟨none, .terminal t⟩ → Skips g spaces →
      PadKind g pads (.sequence [bare, spaces])

/-- Kinds of nodes that were added for the same: a terminal may have been wrapped with the white
space after it. -/
inductive PairKind (g' : Graph) (pairs : Pairs) (pads : List ParserId) : Kind → Kind → Prop
  | alike {kind kind' : Kind} :
      kind.Alike (fun p q => (p, q) ∈ pairs) kind' → PairKind g' pairs pads kind kind'
  | wrapped {t : Terminal} {both bare spaces : ParserId} : both ∈ pads →
      g'.node? both = some ⟨none, .sequence [bare, spaces]⟩ →
      g'.node? bare = some ⟨none, .terminal t⟩ → Skips g' spaces →
      PairKind g' pairs pads (.terminal t) (.transform both Tree.first)

section

variable {g g' : Graph} {pads pads' : List ParserId} {pairs pairs' : Pairs} {kind kind' : Kind}

theorem PadKind.mono (h : PadKind g pads kind) (hg : g.Refines g') (hpads : pads ⊆ pads') :
    PadKind g' pads' kind := by
  cases h with
  | bare => exact .bare
  | run hmem hspace => exact .run (hpads hmem) (hg.kept hspace Kind.noConfusion)
  | skip hmem hrun => exact .skip (hpads hmem) (hg.kept hrun Kind.noConfusion)
  | both hmem hmem' hbare hspaces =>
    exact .both (hpads hmem) (hpads hmem') (hg.kept hbare Kind.noConfusion) (hspaces.mono hg)

theorem PairKind.mono (h : PairKind g pairs pads kind kind') (hg : g.Refines g')
    (hpairs : pairs ⊆ pairs') (hpads : pads ⊆ pads') : PairKind g' pairs' pads' kind kind' := by
  cases h with
  | alike h => exact .alike (h.mono_mem fun _ _ _ _ hpq => hpairs hpq)
  | wrapped hmem hboth hbare hspaces =>
    exact .wrapped (hpads hmem) (hg.kept hboth Kind.noConfusion) (hg.kept hbare Kind.noConfusion)
      (hspaces.mono hg)

end

/-! ## Drafts side by side -/

/-- A draft where white space counts, and beside it one where it does not: what both added, by
pairs, and what the second added as padding. -/
structure Beside (base base' : Graph) (pairs : Pairs) (pads : List ParserId) (d d' : Draft) :
    Prop where
  /-- Both records are complete. -/
  kept : d.Over base []
  kept' : d'.Over base' []
  /-- No node is paired twice, -/
  nodup : (pairs.map Prod.fst).Nodup
  /-- and none that is paired is padding. -/
  nodup' : (pairs.map Prod.snd ++ pads).Nodup
  created : ∀ {p q}, (p, q) ∈ pairs → p ∈ d.created ∧ q ∈ d'.created
  pads_created : pads ⊆ d'.created
  /-- Paired nodes bear the same name and were added for the same. -/
  nodes : ∀ {p q}, (p, q) ∈ pairs → ∃ name kind kind', d.graph.node? p = some ⟨name, kind⟩ ∧
    d'.graph.node? q = some ⟨name, kind'⟩ ∧ PairKind d'.graph pairs pads kind kind'
  pad_nodes : ∀ {q}, q ∈ pads →
    ∃ kind, d'.graph.node? q = some ⟨none, kind⟩ ∧ PadKind d'.graph pads kind
  /-- The parser of skipped white space is padding. -/
  spaces_pad : ∀ {s}, d'.spaces = some s → s ∈ pads

/-- Tables with the same names and paired parsers. -/
def TablesBeside (pairs : Pairs) (rules rules' : RuleTable) : Prop :=
  ∀ name, Option.Rel (fun p q => (p, q) ∈ pairs) (rules.get? name) (rules'.get? name)

variable {base base' : Graph} {pairs : Pairs} {pads : List ParserId} {d d' d₁ d₁' : Draft}
  {rules rules' : RuleTable} {id id' : ParserId}

theorem beside_start (h : base.Sound) (h' : base'.Sound) :
    Beside base base' [] [] ⟨base, none, [], []⟩ ⟨base', none, [], []⟩ where
  kept := over_start h
  kept' := over_start h'
  nodup := List.nodup_nil
  nodup' := List.nodup_nil
  created := nofun
  pads_created := List.nil_subset _
  nodes := nofun
  pad_nodes := nofun
  spaces_pad := nofun

theorem TablesBeside.mono (h : TablesBeside pairs rules rules') {pairs' : Pairs}
    (hpairs : pairs ⊆ pairs') : TablesBeside pairs' rules rules' := by
  intro name
  have hname := h name
  revert hname
  generalize rules.get? name = found
  generalize rules'.get? name = found'
  rintro (hpq | _)
  · exact .some (hpairs hpq)
  · exact .none

theorem TablesBeside.contains_eq (h : TablesBeside pairs rules rules') (name : String) :
    rules.contains name = rules'.contains name := by
  have hname := h name
  unfold RuleTable.contains
  revert hname
  generalize rules.get? name = found
  generalize rules'.get? name = found'
  rintro (_ | _) <;> rfl

theorem TablesBeside.insert (h : TablesBeside pairs rules rules') {name : String}
    (hpair : (id, id') ∈ pairs) :
    TablesBeside pairs (rules.insert name id) (rules'.insert name id') := by
  intro name'
  rw [RuleTable.get?_insert, RuleTable.get?_insert]
  split
  · exact .some hpair
  · exact h name'

namespace Beside

/-! ## Adding nodes -/

/-- What is new to the record was neither paired nor padding. -/
theorem not_mem_of_new (h : Beside base base' pairs pads d d') (hnew : id' ∉ d'.created) :
    id' ∉ pairs.map Prod.snd ++ pads := by
  intro hmem
  rcases List.mem_append.1 hmem with hmem | hmem
  · obtain ⟨pq, hpq, rfl⟩ := List.mem_map.1 hmem
    exact hnew (h.created hpq).2
  · exact hnew (h.pads_created hmem)

/-- A node that is added to both is paired. -/
theorem pair (h : Beside base base' pairs pads d d') {name : Option String} {kind kind' : Kind}
    (hgo : Goes base [] d d₁) (hgo' : Goes base' [] d' d₁') (hcreated : d₁.created = id :: d.created)
    (hcreated' : d₁'.created = id' :: d'.created) (hspaces : d₁'.spaces = d'.spaces)
    (hnode : d₁.graph.node? id = some ⟨name, kind⟩)
    (hnode' : d₁'.graph.node? id' = some ⟨name, kind'⟩)
    (hkind : PairKind d'.graph pairs pads kind kind') :
    Beside base base' ((id, id') :: pairs) pads d₁ d₁' := by
  have hext := hgo.extends_graph
  have hext' := hgo'.extends_graph
  have hpairs : pairs ⊆ (id, id') :: pairs := List.subset_cons_self _ _
  -- an id that was given out is new to the record
  have hnew : id ∉ d.created := by
    have hnodup := hgo.kept.nodup_created
    rw [hcreated] at hnodup
    exact (List.nodup_cons.1 hnodup).1
  have hnew' : id' ∉ d'.created := by
    have hnodup := hgo'.kept.nodup_created
    rw [hcreated'] at hnodup
    exact (List.nodup_cons.1 hnodup).1
  refine
    { kept := hgo.kept
      kept' := hgo'.kept
      nodup := List.nodup_cons.2 ⟨fun hmem => ?_, h.nodup⟩
      nodup' := List.nodup_cons.2 ⟨h.not_mem_of_new hnew', h.nodup'⟩
      created := fun hpq => ?_
      pads_created := List.Subset.trans h.pads_created hgo'.created_subset
      nodes := fun hpq => ?_
      pad_nodes := fun hq => ?_
      spaces_pad := fun hs => h.spaces_pad (hspaces ▸ hs) }
  · obtain ⟨pq, hpq, rfl⟩ := List.mem_map.1 hmem
    exact hnew (h.created hpq).1
  · rcases List.mem_cons.1 hpq with hpq | hpq
    · cases hpq
      rw [hcreated, hcreated']
      exact ⟨List.mem_cons_self, List.mem_cons_self⟩
    · exact ⟨hgo.created_subset (h.created hpq).1, hgo'.created_subset (h.created hpq).2⟩
  · rcases List.mem_cons.1 hpq with hpq | hpq
    · cases hpq
      exact ⟨name, kind, kind', hnode, hnode',
        hkind.mono hext'.refines hpairs (List.Subset.refl _)⟩
    · obtain ⟨name, kind, kind', hp, hq, hkind⟩ := h.nodes hpq
      exact ⟨name, kind, kind', hext _ _ hp, hext' _ _ hq,
        hkind.mono hext'.refines hpairs (List.Subset.refl _)⟩
  · obtain ⟨kind, hq, hkind⟩ := h.pad_nodes hq
    exact ⟨kind, hext' _ _ hq, hkind.mono hext'.refines (List.Subset.refl _)⟩

/-- Padding is added to the second only. -/
theorem pad (h : Beside base base' pairs pads d d') {kind : Kind}
    (hx : Draft.add (Build.insert kind) d' = .ok id d₁') (hkind : PadKind d'.graph pads kind) :
    Beside base base' pairs (id :: pads) d d₁' ∧ Goes base' [] d' d₁' ∧
      d₁'.graph.node? id = some ⟨none, kind⟩ := by
  have hops : ∀ o ∈ kind.operands, d'.Knows [] o := by
    intro o ho
    refine Or.inl (h.pads_created ?_)
    cases hkind with
    | bare => exact absurd ho List.not_mem_nil
    | run hmem _ => exact List.mem_singleton.1 ho ▸ hmem
    | skip hmem _ => exact List.mem_singleton.1 ho ▸ hmem
    | both hmem hmem' _ _ =>
      rcases List.mem_cons.1 ho with rfl | ho
      · exact hmem
      · exact List.mem_singleton.1 ho ▸ hmem'
  obtain ⟨hgo, hnode, -⟩ := insert_goes h.kept' hx hops
  obtain ⟨g, -, rfl⟩ := add_eq_ok hx
  have hext := hgo.extends_graph
  have hpads : pads ⊆ id :: pads := List.subset_cons_self _ _
  have hnew : id ∉ d'.created := (List.nodup_cons.1 hgo.kept.nodup_created).1
  refine ⟨?_, hgo, hnode⟩
  refine
    { kept := h.kept
      kept' := hgo.kept
      nodup := h.nodup
      nodup' := List.nodup_middle.2 (List.nodup_cons.2 ⟨h.not_mem_of_new hnew, h.nodup'⟩)
      created := fun hpq => ⟨(h.created hpq).1, hgo.created_subset (h.created hpq).2⟩
      pads_created := List.cons_subset_cons _ h.pads_created
      nodes := fun hpq => ?_
      pad_nodes := fun hq => ?_
      spaces_pad := fun hs => List.mem_cons_of_mem _ (h.spaces_pad hs) }
  · obtain ⟨name, kind, kind', hp, hq, hkind⟩ := h.nodes hpq
    exact ⟨name, kind, kind', hp, hext _ _ hq,
      hkind.mono hext.refines (List.Subset.refl _) hpads⟩
  · rcases List.mem_cons.1 hq with rfl | hq
    · exact ⟨kind, hnode, hkind.mono hext.refines hpads⟩
    · obtain ⟨kind, hq, hkind⟩ := h.pad_nodes hq
      exact ⟨kind, hext _ _ hq, hkind.mono hext.refines hpads⟩

/-- **Nodes that are added for the same are paired.** -/
theorem insert (h : Beside base base' pairs pads d d') {kind kind' : Kind}
    (hx : Draft.add (Build.insert kind) d = .ok id d₁)
    (hx' : Draft.add (Build.insert kind') d' = .ok id' d₁')
    (hkind : PairKind d'.graph pairs pads kind kind') :
    Beside base base' ((id, id') :: pairs) pads d₁ d₁' := by
  have hops : (∀ o ∈ kind.operands, d.Knows [] o) ∧ ∀ o ∈ kind'.operands, d'.Knows [] o := by
    cases hkind with
    | alike hkind =>
      refine ⟨fun o ho => ?_, fun o ho => ?_⟩
      · obtain ⟨o', -, hpair⟩ := exists_mem_of_forall₂ hkind.operands ho
        exact Or.inl (h.created hpair).1
      · obtain ⟨o', -, hpair⟩ := exists_mem_of_forall₂ hkind.operands.flip ho
        exact Or.inl (h.created hpair).2
    | wrapped hmem _ _ _ =>
      exact ⟨fun o ho => absurd ho List.not_mem_nil,
        fun o ho => List.mem_singleton.1 ho ▸ Or.inl (h.pads_created hmem)⟩
  obtain ⟨hgo, hnode, -⟩ := insert_goes h.kept hx hops.1
  obtain ⟨hgo', hnode', -⟩ := insert_goes h.kept' hx' hops.2
  obtain ⟨g, -, rfl⟩ := add_eq_ok hx
  obtain ⟨g', -, rfl⟩ := add_eq_ok hx'
  exact h.pair hgo hgo' rfl rfl rfl hnode hnode' hkind

theorem rule (h : Beside base base' pairs pads d d') {name : String}
    (hx : Draft.add (Build.rule name) d = .ok id d₁)
    (hx' : Draft.add (Build.rule name) d' = .ok id' d₁') :
    Beside base base' ((id, id') :: pairs) pads d₁ d₁' := by
  obtain ⟨hgo, hnode, -⟩ := rule_goes h.kept hx
  obtain ⟨hgo', hnode', -⟩ := rule_goes h.kept' hx'
  obtain ⟨g, -, rfl⟩ := add_eq_ok hx
  obtain ⟨g', -, rfl⟩ := add_eq_ok hx'
  exact h.pair hgo hgo' rfl rfl rfl hnode hnode' (.alike .undefined)

/-- What skips white space is padding, whether it was there or is added. -/
theorem skipper (h : Beside base base' pairs pads d d') (hx : skipper d' = .ok id d₁') :
    ∃ pads₁, Beside base base' pairs pads₁ d d₁' ∧ pads ⊆ pads₁ ∧ id ∈ pads₁ := by
  obtain ⟨hgo, -, -⟩ := skipper_goes h.kept' hx
  obtain ⟨d₀, d₁, hget, hx⟩ := Drafting.bind_eq_ok.1 hx
  cases hget
  cases hspaces : d'.spaces with
  | some spaces =>
    rw [hspaces] at hx
    cases hx
    exact ⟨pads, h, List.Subset.refl _, h.spaces_pad hspaces⟩
  | none =>
    rw [hspaces] at hx
    obtain ⟨space, d₁, hspace, hx⟩ := Drafting.bind_eq_ok.1 hx
    obtain ⟨run, d₂, hrun, hx⟩ := Drafting.bind_eq_ok.1 hx
    obtain ⟨skipped, d₃, hskip, hx⟩ := Drafting.bind_eq_ok.1 hx
    obtain ⟨u, d₄, hset, hx⟩ := Drafting.bind_eq_ok.1 hx
    cases hset
    obtain ⟨rfl, rfl⟩ := Drafting.pure_eq_ok hx
    have hspace : Draft.add (Build.insert
        (.terminal (.satisfy "whitespace" CharSet.whiteSpace.contains))) d' = .ok space d₁ := hspace
    obtain ⟨h₁, -, hnode₁⟩ := h.pad hspace .bare
    obtain ⟨h₂, -, hnode₂⟩ := h₁.pad hrun (.run List.mem_cons_self hnode₁)
    obtain ⟨h₃, -, -⟩ := h₂.pad hskip (.skip List.mem_cons_self hnode₂)
    refine ⟨_, { h₃ with kept' := hgo.kept, spaces_pad := fun hs => ?_ },
      fun _ hmem => List.mem_cons_of_mem _ (List.mem_cons_of_mem _ (List.mem_cons_of_mem _ hmem)),
      List.mem_cons_self⟩
    cases hs
    exact List.mem_cons_self

/-- **A terminal is paired with itself and the white space after it.** -/
theorem terminal (h : Beside base base' pairs pads d d') {t : Terminal}
    (hx : Draft.terminal true t d = .ok id d₁) (hx' : Draft.terminal false t d' = .ok id' d₁') :
    ∃ pads₁, Beside base base' ((id, id') :: pairs) pads₁ d₁ d₁' := by
  obtain ⟨id₀, d₀, hadd, hpure⟩ := Drafting.bind_eq_ok.1 hx
  obtain ⟨rfl, rfl⟩ := Drafting.pure_eq_ok hpure
  obtain ⟨bare, e₁, hbare, hx'⟩ := Drafting.bind_eq_ok.1 hx'
  obtain ⟨spaces, e₂, hspaces, hx'⟩ := Drafting.bind_eq_ok.1 hx'
  obtain ⟨both, e₃, hboth, hx'⟩ := Drafting.bind_eq_ok.1 hx'
  obtain ⟨h₁, -, hnode₁⟩ := h.pad hbare .bare
  obtain ⟨hgo₂, hskips, -⟩ := skipper_goes h₁.kept' hspaces
  obtain ⟨pads₂, h₂, hsub, hmem₂⟩ := h₁.skipper hspaces
  have hnode₂ := hgo₂.extends_graph _ _ hnode₁
  obtain ⟨h₃, hgo₃, hnode₃⟩ := h₂.pad hboth (.both (hsub List.mem_cons_self) hmem₂ hnode₂ hskips)
  exact ⟨_, h₃.insert hadd hx' (.wrapped List.mem_cons_self hnode₃
    (hgo₃.extends_graph _ _ hnode₂) (hskips.mono hgo₃.extends_graph.refines))⟩

theorem folded (h : Beside base base' pairs pads d d') {step step' : Build ParserId}
    {kind kind' : Kind} (hx : Draft.folded step d = .ok id d₁)
    (hx' : Draft.folded step' d' = .ok id' d₁')
    (hstep : ∀ g id g', step g = .ok id g' → Build.insert kind g = .ok id g')
    (hstep' : ∀ g id g', step' g = .ok id g' → Build.insert kind' g = .ok id g')
    (hkind : kind.Alike (fun p q => (p, q) ∈ pairs) kind') :
    ∃ pairs₁, Beside base base' pairs₁ pads d₁ d₁' ∧ pairs ⊆ pairs₁ ∧ (id, id') ∈ pairs₁ := by
  obtain ⟨whole, d₂, hwhole, hx⟩ := Drafting.bind_eq_ok.1 hx
  obtain ⟨whole', d₂', hwhole', hx'⟩ := Drafting.bind_eq_ok.1 hx'
  have hinsert : Draft.add (Build.insert kind) d = .ok whole d₂ := by
    obtain ⟨g, hg, rfl⟩ := add_eq_ok hwhole
    rw [Draft.add, hstep _ _ _ hg]
  have hinsert' : Draft.add (Build.insert kind') d' = .ok whole' d₂' := by
    obtain ⟨g, hg, rfl⟩ := add_eq_ok hwhole'
    rw [Draft.add, hstep' _ _ _ hg]
  have h₂ := h.insert hinsert hinsert' (.alike hkind)
  have h₁ := h₂.insert hx hx' (.alike (.transform List.mem_cons_self))
  exact ⟨_, h₁, fun _ hmem => List.mem_cons_of_mem _ (List.mem_cons_of_mem _ hmem),
    List.mem_cons_self⟩

/-! ## Expressions -/

mutual

/-- **What is added for an expression is paired.** -/
theorem expression (e : Expr) {pairs : Pairs} {pads : List ParserId} {d d' d₁ d₁' : Draft}
    {id id' : ParserId} (h : Beside base base' pairs pads d d')
    (hrules : TablesBeside pairs rules rules')
    (hx : Draft.expression true rules e d = .ok id d₁)
    (hx' : Draft.expression false rules' e d' = .ok id' d₁') :
    ∃ pairs₁ pads₁, Beside base base' pairs₁ pads₁ d₁ d₁' ∧ pairs ⊆ pairs₁ ∧
      (id, id') ∈ pairs₁ := by
  have hterminal : ∀ {t : Terminal}, Draft.terminal true t d = .ok id d₁ →
      Draft.terminal false t d' = .ok id' d₁' → ∃ pairs₁ pads₁,
        Beside base base' pairs₁ pads₁ d₁ d₁' ∧ pairs ⊆ pairs₁ ∧ (id, id') ∈ pairs₁ := by
    intro t hx hx'
    obtain ⟨pads₁, h₁⟩ := h.terminal hx hx'
    exact ⟨_, pads₁, h₁, List.subset_cons_self _ _, List.mem_cons_self⟩
  cases e with
  | char c => exact hterminal hx hx'
  | literal text => exact hterminal hx hx'
  | pattern p => exact hterminal hx hx'
  | reference name position =>
    obtain ⟨hname, rfl⟩ := resolve_eq_ok hx
    obtain ⟨hname', rfl⟩ := resolve_eq_ok hx'
    have hpair := hrules name
    rw [hname, hname', Option.rel_some_some] at hpair
    exact ⟨pairs, pads, h, List.Subset.refl _, hpair⟩
  | sequence items =>
    obtain ⟨parts, d₂, hparts, hx⟩ := Drafting.bind_eq_ok.1 hx
    obtain ⟨parts', d₂', hparts', hx'⟩ := Drafting.bind_eq_ok.1 hx'
    obtain ⟨pairs₂, pads₂, h₂, hsub₂, hall⟩ := h.expressions items hrules hparts hparts'
    obtain ⟨pairs₁, h₁, hsub₁, hpair⟩ := h₂.folded hx hx' (fun _ _ _ h => h) (fun _ _ _ h => h)
      (.sequence hall)
    exact ⟨pairs₁, pads₂, h₁, List.Subset.trans hsub₂ hsub₁, hpair⟩
  | alternation items =>
    obtain ⟨branches, d₂, hbranches, hx⟩ := Drafting.bind_eq_ok.1 hx
    obtain ⟨branches', d₂', hbranches', hx'⟩ := Drafting.bind_eq_ok.1 hx'
    obtain ⟨pairs₂, pads₂, h₂, hsub₂, hall⟩ := h.expressions items hrules hbranches hbranches'
    exact ⟨_, pads₂, h₂.insert hx hx' (.alike (.alternation hall)),
      List.subset_cons_of_subset _ hsub₂, List.mem_cons_self⟩
  | repetition item min max =>
    obtain ⟨part, d₂, hpart, hx⟩ := Drafting.bind_eq_ok.1 hx
    obtain ⟨part', d₂', hpart', hx'⟩ := Drafting.bind_eq_ok.1 hx'
    obtain ⟨pairs₂, pads₂, h₂, hsub₂, hone⟩ := h.expression item hrules hpart hpart'
    obtain ⟨pairs₁, h₁, hsub₁, hpair⟩ := h₂.folded hx hx'
      (fun _ _ _ h => Build.repetition_eq_ok h) (fun _ _ _ h => Build.repetition_eq_ok h)
      (.repetition hone)
    exact ⟨pairs₁, pads₂, h₁, List.Subset.trans hsub₂ hsub₁, hpair⟩
  | optional item =>
    obtain ⟨part, d₂, hpart, hx⟩ := Drafting.bind_eq_ok.1 hx
    obtain ⟨part', d₂', hpart', hx'⟩ := Drafting.bind_eq_ok.1 hx'
    obtain ⟨pairs₂, pads₂, h₂, hsub₂, hone⟩ := h.expression item hrules hpart hpart'
    exact ⟨_, pads₂, h₂.insert hx hx' (.alike (.optional hone)),
      List.subset_cons_of_subset _ hsub₂, List.mem_cons_self⟩
  | absent item =>
    obtain ⟨part, d₂, hpart, hx⟩ := Drafting.bind_eq_ok.1 hx
    obtain ⟨part', d₂', hpart', hx'⟩ := Drafting.bind_eq_ok.1 hx'
    obtain ⟨pairs₂, pads₂, h₂, hsub₂, hone⟩ := h.expression item hrules hpart hpart'
    exact ⟨_, pads₂, h₂.insert hx hx' (.alike (.lookahead hone)),
      List.subset_cons_of_subset _ hsub₂, List.mem_cons_self⟩

theorem expressions (es : List Expr) {pairs : Pairs} {pads : List ParserId}
    {d d' d₁ d₁' : Draft} {ids ids' : List ParserId} (h : Beside base base' pairs pads d d')
    (hrules : TablesBeside pairs rules rules')
    (hx : Draft.expressions true rules es d = .ok ids d₁)
    (hx' : Draft.expressions false rules' es d' = .ok ids' d₁') :
    ∃ pairs₁ pads₁, Beside base base' pairs₁ pads₁ d₁ d₁' ∧ pairs ⊆ pairs₁ ∧
      List.Forall₂ (fun p q => (p, q) ∈ pairs₁) ids ids' := by
  cases es with
  | nil =>
    obtain ⟨rfl, rfl⟩ := Drafting.pure_eq_ok hx
    obtain ⟨rfl, rfl⟩ := Drafting.pure_eq_ok hx'
    exact ⟨pairs, pads, h, List.Subset.refl _, .nil⟩
  | cons e es =>
    obtain ⟨id, d₂, hid, hx⟩ := Drafting.bind_eq_ok.1 hx
    obtain ⟨ids, d₃, hids, hx⟩ := Drafting.bind_eq_ok.1 hx
    obtain ⟨rfl, rfl⟩ := Drafting.pure_eq_ok hx
    obtain ⟨id', d₂', hid', hx'⟩ := Drafting.bind_eq_ok.1 hx'
    obtain ⟨ids', d₃', hids', hx'⟩ := Drafting.bind_eq_ok.1 hx'
    obtain ⟨rfl, rfl⟩ := Drafting.pure_eq_ok hx'
    obtain ⟨pairs₂, pads₂, h₂, hsub₂, hone⟩ := h.expression e hrules hid hid'
    obtain ⟨pairs₁, pads₁, h₁, hsub₁, hall⟩ := h₂.expressions es (hrules.mono hsub₂) hids hids'
    exact ⟨pairs₁, pads₁, h₁, List.Subset.trans hsub₂ hsub₁, .cons (hsub₁ hone) hall⟩

end

/-! ## Rules -/

/-- Placeholders are added under the same names, and paired. -/
theorem placeholders {ds : List Definition} {rules₁ rules₁' : RuleTable}
    (h : Beside base base' pairs pads d d') (hrules : TablesBeside pairs rules rules')
    (hx : Draft.placeholders rules ds d = .ok rules₁ d₁)
    (hx' : Draft.placeholders rules' ds d' = .ok rules₁' d₁') :
    ∃ pairs₁, Beside base base' pairs₁ pads d₁ d₁' ∧ TablesBeside pairs₁ rules₁ rules₁' := by
  induction ds generalizing rules rules' d d' pairs with
  | nil =>
    obtain ⟨rfl, rfl⟩ := Drafting.pure_eq_ok hx
    obtain ⟨rfl, rfl⟩ := Drafting.pure_eq_ok hx'
    exact ⟨pairs, h, hrules⟩
  | cons e ds ih =>
    rw [Draft.placeholders] at hx hx'
    rw [hrules.contains_eq] at hx
    split at hx
    · next hold =>
      rw [if_pos hold] at hx'
      exact ih h hrules hx hx'
    · next hnew =>
      rw [if_neg hnew] at hx'
      obtain ⟨id, d₂, hrule, hx⟩ := Drafting.bind_eq_ok.1 hx
      obtain ⟨id', d₂', hrule', hx'⟩ := Drafting.bind_eq_ok.1 hx'
      exact ih (h.rule hrule hrule')
        ((hrules.mono (List.subset_cons_self _ _)).insert List.mem_cons_self) hx hx'

theorem labelled {label : Option String} {part part' body body' : ParserId}
    (h : Beside base base' pairs pads d d') (hpart : (part, part') ∈ pairs)
    (hx : Draft.labelled label part d = .ok body d₁)
    (hx' : Draft.labelled label part' d' = .ok body' d₁') :
    ∃ pairs₁, Beside base base' pairs₁ pads d₁ d₁' ∧ pairs ⊆ pairs₁ ∧ (body, body') ∈ pairs₁ := by
  cases label with
  | none =>
    obtain ⟨rfl, rfl⟩ := Drafting.pure_eq_ok hx
    obtain ⟨rfl, rfl⟩ := Drafting.pure_eq_ok hx'
    exact ⟨pairs, h, List.Subset.refl _, hpart⟩
  | some label =>
    exact ⟨_, h.insert hx hx' (.alike (.expect hpart)), List.subset_cons_self _ _,
      List.mem_cons_self⟩

/-- The two ids of a pair tell each other. -/
theorem biUnique (h : Beside base base' pairs pads d d') :
    Relator.BiUnique fun p q => (p, q) ∈ pairs := by
  have hnodup' := (List.nodup_append.1 h.nodup').1
  constructor
  · intro p p' q hpq hpq'
    exact congrArg Prod.fst (List.inj_on_of_nodup_map hnodup' hpq hpq' rfl)
  · intro p q q' hpq hpq'
    exact congrArg Prod.snd (List.inj_on_of_nodup_map h.nodup hpq hpq' rfl)

/-- **Paired placeholders that are given paired bodies stay paired.** -/
theorem define {rule rule' body body' : ParserId} (h : Beside base base' pairs pads d d')
    (hrule : (rule, rule') ∈ pairs) (hbody : (body, body') ∈ pairs)
    (hx : Draft.define rule body d = .ok (.ok ()) d₁)
    (hx' : Draft.define rule' body' d' = .ok (.ok ()) d₁') :
    Beside base base' pairs pads d₁ d₁' := by
  obtain ⟨-, name, hopen, rfl⟩ := define_done hx
  obtain ⟨-, name', hopen', rfl⟩ := define_done hx'
  obtain ⟨hkept, hrefines⟩ := h.kept.define hopen (Or.inl (h.created hbody).1)
  obtain ⟨hkept', hrefines'⟩ := h.kept'.define hopen' (Or.inl (h.created hbody).2)
  refine
    { h with
      kept := hkept
      kept' := hkept'
      nodes := fun {p q} hpq => ?_
      pad_nodes := fun hq => ?_ }
  · obtain ⟨name₁, kind, kind', hp, hq, hkind⟩ := h.nodes hpq
    dsimp only
    rw [Graph.node?_replace hopen, Graph.node?_replace hopen']
    by_cases hp' : p = rule
    · subst hp'
      cases h.biUnique.right hpq hrule
      rw [if_pos rfl, if_pos rfl]
      cases hopen.symm.trans hp
      cases hopen'.symm.trans hq
      exact ⟨_, _, _, rfl, rfl, .alike (.rule hbody)⟩
    · have hq' : q ≠ rule' := by
        rintro rfl
        exact hp' (h.biUnique.left hpq hrule)
      rw [if_neg hp', if_neg hq']
      exact ⟨_, _, _, hp, hq, hkind.mono hrefines' (List.Subset.refl _) (List.Subset.refl _)⟩
  · obtain ⟨kind, hq, hkind⟩ := h.pad_nodes hq
    refine ⟨kind, hrefines'.kept hq ?_, hkind.mono hrefines' (List.Subset.refl _)⟩
    rintro rfl
    nomatch hkind

/-- **What is added for definitions is paired**, if no body is refused. -/
theorem bodies {ds : List Definition} (h : Beside base base' pairs pads d d')
    (hrules : TablesBeside pairs rules rules')
    (hx : Draft.bodies true rules ds d = .ok (.ok ()) d₁)
    (hx' : Draft.bodies false rules' ds d' = .ok (.ok ()) d₁') :
    ∃ pairs₁ pads₁, Beside base base' pairs₁ pads₁ d₁ d₁' ∧ pairs ⊆ pairs₁ := by
  induction ds generalizing d d' pairs pads with
  | nil =>
    obtain ⟨-, rfl⟩ := Drafting.pure_eq_ok hx
    obtain ⟨-, rfl⟩ := Drafting.pure_eq_ok hx'
    exact ⟨pairs, pads, h, List.Subset.refl _⟩
  | cons e ds ih =>
    obtain ⟨part, d₂, body, d₃, rule, d₄, hpart, hbody, hget, hdefine, hx⟩ := bodies_cons_done hx
    obtain ⟨part', d₂', body', d₃', rule', d₄', hpart', hbody', hget', hdefine', hx'⟩ :=
      bodies_cons_done hx'
    obtain ⟨pairs₂, pads₂, h₂, hsub₂, hone⟩ := h.expression e.body hrules hpart hpart'
    obtain ⟨pairs₃, h₃, hsub₃, hpair⟩ := h₂.labelled hone hbody hbody'
    have hsub := List.Subset.trans hsub₂ hsub₃
    have hrule := hrules.mono hsub e.name
    rw [hget, hget', Option.rel_some_some] at hrule
    obtain ⟨pairs₁, pads₁, h₁, hsub₁⟩ :=
      ih (h₃.define hrule hpair hdefine hdefine') (hrules.mono hsub) hx hx'
    exact ⟨pairs₁, pads₁, h₁, List.Subset.trans hsub hsub₁⟩

/-! ## The graphs that two drafts lead to -/

/-- Padding is numbered from the inside out. -/
def depth : Kind → Nat
  | .terminal _ => 0
  | .repetition _ _ _ => 1
  | .transform _ _ => 2
  | _ => 3

theorem kind?_of_mem (h : Beside base base' pairs pads d d') {q : ParserId} (hq : q ∈ pads) :
    ∃ kind, d'.graph.kind? q = some kind ∧ PadKind d'.graph pads kind := by
  obtain ⟨kind, hnode, hkind⟩ := h.pad_nodes hq
  exact ⟨kind, Graph.kind?_of_node? hnode, hkind⟩

/-- What leads on from padding is padding with a lower number. -/
theorem pad_operand (h : Beside base base' pairs pads d d') {q o : ParserId} (hq : q ∈ pads)
    (ho : o ∈ d'.graph.operands q) :
    o ∈ pads ∧ ((d'.graph.kind? o).map depth).getD 0 < ((d'.graph.kind? q).map depth).getD 0 := by
  obtain ⟨kind, hkind, hpad⟩ := h.kind?_of_mem hq
  rw [Graph.operands_of_kind? hkind] at ho
  rw [hkind]
  cases hpad with
  | bare => exact absurd ho List.not_mem_nil
  | run hmem hspace =>
    cases List.mem_singleton.1 ho
    rw [Graph.kind?, hspace]
    exact ⟨hmem, Nat.zero_lt_one⟩
  | skip hmem hrun =>
    cases List.mem_singleton.1 ho
    rw [Graph.kind?, hrun]
    exact ⟨hmem, Nat.one_lt_two⟩
  | both hmem hmem' hbare hskips =>
    rcases List.mem_cons.1 ho with rfl | ho
    · rw [Graph.kind?, hbare]
      exact ⟨hmem, Nat.zero_lt_succ 2⟩
    · cases List.mem_singleton.1 ho
      obtain ⟨run, space, hspaces, -, -⟩ := hskips
      rw [Graph.kind?, hspaces]
      exact ⟨hmem', Nat.lt_succ_self 2⟩

/-- A terminal with white space after it is nullable where the terminal is. -/
theorem nullable_both {g : Graph} {both bare spaces : ParserId} {t : Terminal}
    (hboth : g.node? both = some ⟨none, .sequence [bare, spaces]⟩)
    (hbare : g.node? bare = some ⟨none, .terminal t⟩) (hspaces : Skips g spaces) :
    g.Nullable both ↔ t.isNullable := by
  obtain ⟨run, space, hskip, hrun, -⟩ := hspaces
  have hskips : g.Nullable spaces :=
    .transform (Graph.kind?_of_node? hskip) (.noRound (Graph.kind?_of_node? hrun))
  rw [Graph.nullable_iff_of_kind? (Graph.kind?_of_node? hboth)]
  simp [Kind.isNullable, hskips, Graph.nullable_iff_of_kind? (Graph.kind?_of_node? hbare)]

/-- **The graphs of two drafts side by side are the same but for padding.** -/
theorem padded (h : Beside base base' pairs pads d d') :
    d.graph.Padded pads.contains (fun p q => (p, q) ∈ pairs) d'.graph where
  biUnique := h.biUnique
  not_pad {p q} hpq := by
    obtain ⟨-, -, hdisjoint⟩ := List.nodup_append.1 h.nodup'
    rw [← Bool.not_eq_true, List.contains_iff_mem]
    exact fun hmem => hdisjoint q (List.mem_map_of_mem hpq) q hmem rfl
  nodes p q hpq := by
    obtain ⟨name, kind, kind', hp, hq, hkind⟩ := h.nodes hpq
    refine ⟨name, kind, kind', hp, hq, ?_⟩
    cases hkind with
    | alike hkind => exact .alike hkind
    | wrapped hmem hboth hbare hspaces =>
      exact .wrapped (List.contains_iff_mem.2 hmem) (nullable_both hboth hbare hspaces)
  pad_operands hq ho :=
    List.contains_iff_mem.2 (h.pad_operand (List.contains_iff_mem.1 hq) ho).1
  pad_order := ⟨_, fun hq ho => (h.pad_operand (List.contains_iff_mem.1 hq) ho).2⟩
  pad_name? {q} hq := by
    obtain ⟨kind, hnode, -⟩ := h.pad_nodes (List.contains_iff_mem.1 hq)
    rw [Graph.name?, hnode]
    rfl
  pad_isUndefinedRule {q} hq := by
    obtain ⟨kind, hkind, hpad⟩ := h.kind?_of_mem (List.contains_iff_mem.1 hq)
    rw [Graph.isUndefinedRule, hkind]
    cases hpad <;> rfl
  pad_repeats {q part min} hq hrepeats := by
    obtain ⟨kind, hkind, hpad⟩ := h.kind?_of_mem (List.contains_iff_mem.1 hq)
    cases hkind.symm.trans hrepeats
    cases hpad with
    | run _ hspace =>
      -- a white space character is not matched by nothing
      rw [Graph.nullable_iff_of_kind? (Graph.kind?_of_node? hspace)]
      exact Bool.false_ne_true

end Beside

/-- The rules of the same names are paired. -/
theorem TablesBeside.resolveAll (h : TablesBeside pairs rules rules') {names : List String}
    {roots roots' : List ParserId} (hx : Draft.resolveAll rules names d = .ok roots d₁)
    (hx' : Draft.resolveAll rules' names d' = .ok roots' d₁') :
    List.Forall₂ (fun p q => (p, q) ∈ pairs) roots roots' := by
  induction names generalizing d d' roots roots' with
  | nil =>
    obtain ⟨rfl, -⟩ := Drafting.pure_eq_ok hx
    obtain ⟨rfl, -⟩ := Drafting.pure_eq_ok hx'
    exact .nil
  | cons name names ih =>
    obtain ⟨id, d₂, hid, hx⟩ := Drafting.bind_eq_ok.1 hx
    obtain ⟨ids, d₃, hids, hx⟩ := Drafting.bind_eq_ok.1 hx
    obtain ⟨rfl, rfl⟩ := Drafting.pure_eq_ok hx
    obtain ⟨id', d₂', hid', hx'⟩ := Drafting.bind_eq_ok.1 hx'
    obtain ⟨ids', d₃', hids', hx'⟩ := Drafting.bind_eq_ok.1 hx'
    obtain ⟨rfl, rfl⟩ := Drafting.pure_eq_ok hx'
    have hname := h name
    rw [(resolve_eq_ok hid).1, (resolve_eq_ok hid').1, Option.rel_some_some] at hname
    exact .cons hname (ih hids hids')

theorem TablesBeside.names_eq (h : TablesBeside pairs rules rules') : rules.names = rules'.names := by
  have hmem : ∀ (t : RuleTable) name, name ∈ t.names ↔ t.contains name :=
    fun t name => RuleTable.mem_names.trans Option.isSome_iff_exists.symm
  refine ItemSet.eq_of_ascending rules.ascending rules'.ascending fun name => ?_
  exact (hmem rules name).trans (h.contains_eq name ▸ (hmem rules' name).symm)

/-- **Two builds of the same definitions come to the same**, be they accepted or rejected. -/
theorem build_insensitive {ds : List Definition} {r r' : Except GrammarError Compilation}
    (h : base.Sound) (h' : base'.Sound) (hcheck : check base ds [] = .ok .empty)
    (hcheck' : check base' ds [] = .ok .empty)
    (hx : build true .empty ds ⟨base, none, [], []⟩ = .ok r d)
    (hx' : build false .empty ds ⟨base', none, [], []⟩ = .ok r' d') :
    r.map (fun c => (c.table.names, c.pending)) =
      r'.map fun c => (c.table.names, c.pending) := by
  obtain ⟨rules, d₁, roots, hrules, hroots, hbodies, rfl⟩ := parts_of_build h hcheck hx
  obtain ⟨rules', d₁', roots', hrules', hroots', hbodies', rfl⟩ := parts_of_build h' hcheck' hx'
  have hempty : TablesBeside [] .empty .empty := fun _ => .none
  obtain ⟨pairs₁, h₁, htables⟩ := (beside_start h h').placeholders hempty hrules hrules'
  obtain ⟨pairs, pads, h₂, hsub⟩ := h₁.bodies htables hbodies hbodies'
  have hvalid : d.graph.validateExcept [] roots = d'.graph.validateExcept [] roots' :=
    h₂.padded.validateExcept_eq .nil ((htables.mono hsub).resolveAll hroots hroots')
  rw [verdict_empty, verdict_empty, hvalid]
  cases d'.graph.validateExcept [] roots' with
  | error e => rfl
  | ok u => exact congrArg (fun names => Except.ok (names, [])) htables.names_eq

end Draft

/-! ## The whole compilation -/

theorem checkDefinitions_empty_eq (g g' : Graph) (seen : List String) (ds : List Definition) :
    checkDefinitions g .empty seen ds = checkDefinitions g' .empty seen ds := by
  induction ds generalizing seen with
  | nil => rfl
  | cons d ds ih =>
    rw [checkDefinitions, checkDefinitions, RuleTable.get?_empty, Option.any_none, Option.any_none,
      ih]

/-- Where nothing is bound, the checks do not look at the graph. -/
theorem check_nil_eq (g g' : Graph) (ds : List Definition) : check g ds [] = check g' ds [] := by
  have hcheck : ∀ g : Graph, check g ds [] = (checkDefinitions g .empty [] ds >>= fun _ =>
      checkReferences .empty ds >>= fun _ => .ok RuleTable.empty) := fun _ => rfl
  rw [hcheck, hcheck, checkDefinitions_empty_eq g g']

/-- **Whether white space counts plays no part in what definitions are rejected for**, nor in the
names of the rules where they are accepted, whatever graphs they are built into. -/
theorem assemble_insensitive {g g' : Graph} (hg : g.Sound) (hg' : g'.Sound) {ds : List Definition}
    (hordered : ∀ d ∈ ds, d.body.Ordered) :
    ∃ r r' g₁ g₁', assemble ds [] true g = .ok r g₁ ∧ assemble ds [] false g' = .ok r' g₁' ∧
      r.map (fun c => (c.table.names, c.pending)) =
        r'.map fun c => (c.table.names, c.pending) := by
  cases hcheck : check g ds [] with
  | error e =>
    have hcheck' : check g' ds [] = .error e := check_nil_eq g' g ds ▸ hcheck
    unfold assemble
    rw [hcheck, hcheck']
    exact ⟨_, _, _, _, rfl, rfl, rfl⟩
  | ok bound =>
    cases check_nil_eq_ok hcheck
    have hcheck' : check g' ds [] = .ok .empty := check_nil_eq g' g ds ▸ hcheck
    obtain ⟨r, d, hbuild⟩ := Draft.build_succeeds true hg hcheck hordered
    obtain ⟨r', d', hbuild'⟩ := Draft.build_succeeds false hg' hcheck' hordered
    have hsame := Draft.build_insensitive hg hg' hcheck hcheck' hbuild hbuild'
    refine ⟨r, r', ?_⟩
    unfold assemble
    rw [hcheck, hcheck']
    dsimp only
    rw [hbuild, hbuild']
    cases r with
    | error e =>
      cases r' with
      | error e' => exact ⟨_, _, rfl, rfl, hsame⟩
      | ok c' => exact nomatch hsame
    | ok c =>
      cases r' with
      | error e' => exact nomatch hsame
      | ok c' => exact ⟨_, _, rfl, rfl, hsame⟩

end ParserGraph.Grammar
