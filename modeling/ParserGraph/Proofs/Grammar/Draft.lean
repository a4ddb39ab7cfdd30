import ParserGraph.Proofs.Graph.Arena
import ParserGraph.Proofs.Graph.Reach
import ParserGraph.Proofs.Grammar.Realization

/-!
# Drafts — what a draft knows about what it did

A draft keeps a record of the nodes it added and the placeholders it gave a
body. `Draft.Over` says that the record is complete: what is not in it is as
in the graph the draft started from, the base. Adding a node keeps the record
complete and leaves every other node as it was (`Draft.Goes`), and so do the
steps that are made of additions; each comes with what it built. Giving a
placeholder its body keeps the record complete too (`Draft.Over.define`).
-/

namespace ParserGraph.Grammar

/-! ## Steps one after another -/

namespace Drafting

variable {α β : Type} {d d' : Draft}

/-- One step after another ends when both do. -/
theorem bind_eq_ok {x : Drafting α} {f : α → Drafting β} {b : β} :
    (x >>= f) d = .ok b d' ↔ ∃ a mid, x d = .ok a mid ∧ f a mid = .ok b d' := by
  change EStateM.bind x f d = .ok b d' ↔ _
  unfold EStateM.bind
  constructor
  · intro h
    split at h
    · next a mid hx => exact ⟨a, mid, hx, h⟩
    · exact nomatch h
  · rintro ⟨a, mid, hx, hf⟩
    rw [hx]
    exact hf

theorem pure_eq_ok {a b : α} (h : (pure a : Drafting α) d = .ok b d') : a = b ∧ d = d' := by
  cases h
  exact ⟨rfl, rfl⟩

end Drafting

namespace Draft

variable {base : Graph} {bound : List ParserId} {d d' d'' : Draft}

/-- A parser that the draft may refer to: one it added or one it is bound to. -/
def Knows (d : Draft) (bound : List ParserId) (id : ParserId) : Prop :=
  id ∈ d.created ∨ id ∈ bound

/-- A draft over a base, bound to some parsers: what it did is on its record. -/
structure Over (base : Graph) (bound : List ParserId) (d : Draft) : Prop where
  /-- The graph is sound. -/
  sound : d.graph.Sound
  /-- The limit on nested parsers is that of the base. -/
  maxDepth_eq : d.graph.maxDepth = base.maxDepth
  /-- As many nodes more live as were added. -/
  live_eq : d.graph.live = base.live + d.created.length
  /-- No node is recorded twice. -/
  nodup_created : d.created.Nodup
  /-- The nodes that were added live. -/
  created_live : ∀ id ∈ d.created, d.graph.contains id
  /-- They did not live in the base. -/
  created_fresh : ∀ id ∈ d.created, base.node? id = none
  /-- An id that is not on the record names what it named in the base. -/
  node?_eq : ∀ id, id ∉ d.created → id ∉ d.patched → d.graph.node? id = base.node? id
  /-- A placeholder of the base that was given a body was open. -/
  patched_open : ∀ id ∈ d.patched, id ∉ d.created → ∃ name body,
    base.node? id = some ⟨name, .rule none⟩ ∧ d.graph.node? id = some ⟨name, .rule (some body)⟩
  /-- The nodes that were added refer to known parsers only. -/
  operands_known : ∀ id ∈ d.created, ∀ o ∈ d.graph.operands id, d.Knows bound o
  /-- The parser of skipped white space was added and does that. -/
  spaces_skip : ∀ id, d.spaces = some id → id ∈ d.created ∧ Skips d.graph id

/-- A draft that has done nothing. -/
theorem over_start (h : base.Sound) : Over base bound ⟨base, none, [], []⟩ where
  sound := h
  maxDepth_eq := rfl
  live_eq := rfl
  nodup_created := List.nodup_nil
  created_live := fun _ hid => absurd hid List.not_mem_nil
  created_fresh := fun _ hid => absurd hid List.not_mem_nil
  node?_eq := fun _ _ _ => rfl
  patched_open := fun _ hid => absurd hid List.not_mem_nil
  operands_known := fun _ hid => absurd hid List.not_mem_nil
  spaces_skip := fun _ hs => nomatch hs

/-- A draft goes on to another by adding nodes. -/
structure Goes (base : Graph) (bound : List ParserId) (d d' : Draft) : Prop where
  /-- The record stays complete. -/
  kept : d'.Over base bound
  /-- Every node stays what it is. -/
  extends_graph : d.graph.Extends d'.graph
  /-- What was added stays recorded. -/
  created_subset : d.created ⊆ d'.created
  /-- No placeholder is given a body. -/
  patched_eq : d'.patched = d.patched

theorem Goes.refl (h : d.Over base bound) : Goes base bound d d :=
  ⟨h, .refl _, List.Subset.refl _, rfl⟩

theorem Goes.trans (h : Goes base bound d d') (h' : Goes base bound d' d'') :
    Goes base bound d d'' :=
  ⟨h'.kept, h.extends_graph.trans h'.extends_graph,
    List.Subset.trans h.created_subset h'.created_subset, h'.patched_eq.trans h.patched_eq⟩

theorem Goes.knows (h : Goes base bound d d') {id : ParserId} (hid : d.Knows bound id) :
    d'.Knows bound id :=
  hid.imp_left fun hmem => h.created_subset hmem

/-! ## Adding nodes -/

/-- **Adding a node keeps the record complete.** -/
theorem Over.add (h : d.Over base bound) {id : ParserId} {node : Node} {g : Graph}
    (hadd : d.graph.Added id node g) (hops : ∀ o ∈ node.kind.operands, d.Knows bound o) :
    Goes base bound d { d with graph := g, created := id :: d.created } := by
  have hnew : id ∉ d.created := by
    intro hmem
    have hlive := h.created_live id hmem
    rw [Graph.contains, hadd.fresh] at hlive
    simp at hlive
  have hnode : g.node? id = some node := hadd.node?_self
  have hother : ∀ id', id' ≠ id → g.node? id' = d.graph.node? id' :=
    fun id' hne => by rw [hadd.node?_eq, if_neg hne]
  have hext : d.graph.Extends g := hadd.extends
  refine ⟨?_, hext, List.subset_cons_self id d.created, rfl⟩
  refine
    { sound := hadd.sound
      maxDepth_eq := hadd.maxDepth_eq.trans h.maxDepth_eq
      live_eq := ?_
      nodup_created := List.nodup_cons.2 ⟨hnew, h.nodup_created⟩
      created_live := fun id' hid' => ?_
      created_fresh := fun id' hid' => ?_
      node?_eq := fun id' hcreated hpatched => ?_
      patched_open := fun id' hpatched hcreated => ?_
      operands_known := fun id' hid' o ho => ?_
      spaces_skip := fun id' hs => ?_ }
  · have hlive := hadd.live_eq
    have hbase := h.live_eq
    dsimp only
    rw [List.length_cons]
    omega
  · rcases List.mem_cons.1 hid' with rfl | hid'
    · exact Option.isSome_iff_exists.2 ⟨node, hnode⟩
    · exact hext.contains (h.created_live id' hid')
  · rcases List.mem_cons.1 hid' with rfl | hid'
    · -- the id named nothing in the draft, so it named nothing in the base
      by_cases hpatched : id' ∈ d.patched
      · obtain ⟨name, body, -, hbody⟩ := h.patched_open id' hpatched hnew
        rw [hadd.fresh] at hbody
        simp at hbody
      · rw [← h.node?_eq id' hnew hpatched]
        exact hadd.fresh
    · exact h.created_fresh id' hid'
  · obtain ⟨hne, hcreated⟩ := not_or.1 (mt List.mem_cons.2 hcreated)
    exact (hother id' hne).trans (h.node?_eq id' hcreated hpatched)
  · obtain ⟨hne, hcreated⟩ := not_or.1 (mt List.mem_cons.2 hcreated)
    obtain ⟨name, body, hopen, hbody⟩ := h.patched_open id' hpatched hcreated
    exact ⟨name, body, hopen, (hother id' hne).trans hbody⟩
  · have hknows : d.Knows bound o := by
      rcases List.mem_cons.1 hid' with rfl | hid'
      · rw [Graph.operands_of_node? hnode] at ho
        exact hops o ho
      · obtain ⟨node', hnode'⟩ := Option.isSome_iff_exists.1 (h.created_live id' hid')
        rw [Graph.operands_of_node? (hext id' node' hnode')] at ho
        exact h.operands_known id' hid' o (Graph.operands_of_node? hnode' ▸ ho)
    exact hknows.imp_left (List.mem_cons_of_mem _)
  · obtain ⟨hid', hskips⟩ := h.spaces_skip id' hs
    exact ⟨List.mem_cons_of_mem _ hid', hskips.mono hext.refines⟩

theorem add_eq_ok {step : Build ParserId} {id : ParserId} (h : Draft.add step d = .ok id d') :
    ∃ g, step d.graph = .ok id g ∧ d' = { d with graph := g, created := id :: d.created } := by
  unfold Draft.add at h
  split at h
  · next id g hstep =>
    cases h
    exact ⟨g, hstep, rfl⟩
  · exact nomatch h

/-- A constructor adds its node to a draft. -/
theorem insert_goes {kind : Kind} {id : ParserId} (h : d.Over base bound)
    (hx : Draft.add (Build.insert kind) d = .ok id d')
    (hops : ∀ o ∈ kind.operands, d.Knows bound o) :
    Goes base bound d d' ∧ d'.graph.node? id = some ⟨none, kind⟩ ∧ id ∈ d'.created := by
  obtain ⟨g, hstep, rfl⟩ := add_eq_ok hx
  obtain ⟨hadd, -⟩ := Build.insert_eq_ok h.sound hstep
  exact ⟨h.add hadd hops, hadd.node?_self, List.mem_cons_self⟩

/-- A placeholder is added to a draft. -/
theorem rule_goes {name : String} {id : ParserId} (h : d.Over base bound)
    (hx : Draft.add (Build.rule name) d = .ok id d') :
    Goes base bound d d' ∧ d'.graph.node? id = some ⟨some name, .rule none⟩ ∧ id ∈ d'.created := by
  obtain ⟨g, hstep, rfl⟩ := add_eq_ok hx
  have hadd := Build.rule_eq_ok h.sound hstep
  exact ⟨h.add hadd (fun o ho => absurd ho List.not_mem_nil), hadd.node?_self,
    List.mem_cons_self⟩

/-- The parser of skipped white space is added once. -/
theorem skipper_goes {id : ParserId} (h : d.Over base bound) (hx : skipper d = .ok id d') :
    Goes base bound d d' ∧ Skips d'.graph id ∧ id ∈ d'.created := by
  obtain ⟨d₀, d₁, hget, hx⟩ := Drafting.bind_eq_ok.1 hx
  cases hget
  cases hspaces : d.spaces with
  | some spaces =>
    rw [hspaces] at hx
    cases hx
    obtain ⟨hid, hskips⟩ := h.spaces_skip _ hspaces
    exact ⟨.refl h, hskips, hid⟩
  | none =>
    rw [hspaces] at hx
    obtain ⟨space, d₁, hspace, hx⟩ := Drafting.bind_eq_ok.1 hx
    obtain ⟨run, d₂, hrun, hx⟩ := Drafting.bind_eq_ok.1 hx
    obtain ⟨skipped, d₃, hskip, hx⟩ := Drafting.bind_eq_ok.1 hx
    obtain ⟨u, d₄, hset, hx⟩ := Drafting.bind_eq_ok.1 hx
    cases hset
    obtain ⟨rfl, rfl⟩ := Drafting.pure_eq_ok hx
    have hspace : Draft.add (Build.insert
        (.terminal (.satisfy "whitespace" CharSet.whiteSpace.contains))) d = .ok space d₁ := hspace
    obtain ⟨hgo₁, hnode₁, hmem₁⟩ := insert_goes h hspace fun o ho => absurd ho List.not_mem_nil
    obtain ⟨hgo₂, hnode₂, hmem₂⟩ := insert_goes hgo₁.kept hrun
      fun o ho => List.mem_singleton.1 ho ▸ Or.inl hmem₁
    obtain ⟨hgo₃, hnode₃, hmem₃⟩ := insert_goes hgo₂.kept hskip
      fun o ho => List.mem_singleton.1 ho ▸ Or.inl hmem₂
    have hgo := (hgo₁.trans hgo₂).trans hgo₃
    have hskips : Skips d₃.graph skipped :=
      ⟨run, space, hnode₃, hgo₃.extends_graph _ _ hnode₂,
        hgo₃.extends_graph _ _ (hgo₂.extends_graph _ _ hnode₁)⟩
    refine ⟨⟨{ hgo.kept with spaces_skip := fun id hs => ?_ }, hgo.extends_graph,
      hgo.created_subset, hgo.patched_eq⟩, hskips, hmem₃⟩
    cases hs
    exact ⟨hmem₃, hskips⟩

/-- A terminal is added, with what skips white space after it unless that counts. -/
theorem terminal_goes {sensitive : Bool} {t : Terminal} {id : ParserId} (h : d.Over base bound)
    (hx : Draft.terminal sensitive t d = .ok id d') :
    Goes base bound d d' ∧ RealizesTerminal d'.graph sensitive id t ∧ id ∈ d'.created := by
  obtain ⟨bare, d₁, hbare, hx⟩ := Drafting.bind_eq_ok.1 hx
  obtain ⟨hgo₁, hnode₁, hmem₁⟩ := insert_goes h hbare fun o ho => absurd ho List.not_mem_nil
  cases sensitive with
  | true =>
    obtain ⟨rfl, rfl⟩ := Drafting.pure_eq_ok hx
    exact ⟨hgo₁, hnode₁, hmem₁⟩
  | false =>
    obtain ⟨spaces, d₂, hspaces, hx⟩ := Drafting.bind_eq_ok.1 hx
    obtain ⟨both, d₃, hboth, hx⟩ := Drafting.bind_eq_ok.1 hx
    -- the nodes are added in the order of evaluation, and each step keeps those before it
    obtain ⟨hgo₂, hskips, hmem₂⟩ := skipper_goes hgo₁.kept hspaces
    have hops : ∀ o ∈ (Kind.sequence [bare, spaces]).operands, d₂.Knows bound o := by
      intro o ho
      rcases List.mem_cons.1 ho with rfl | ho
      · exact Or.inl (hgo₂.created_subset hmem₁)
      · exact List.mem_singleton.1 ho ▸ Or.inl hmem₂
    obtain ⟨hgo₃, hnode₃, hmem₃⟩ := insert_goes hgo₂.kept hboth hops
    obtain ⟨hgo₄, hnode₄, hmem₄⟩ := insert_goes hgo₃.kept hx
      fun o ho => List.mem_singleton.1 ho ▸ Or.inl hmem₃
    have hlast := hgo₃.trans hgo₄
    refine ⟨(hgo₁.trans hgo₂).trans hlast, ⟨both, bare, spaces, hnode₄,
      hgo₄.extends_graph _ _ hnode₃, ?_, hskips.mono hlast.extends_graph.refines⟩, hmem₄⟩
    exact (hgo₂.trans hlast).extends_graph _ _ hnode₁

/-- Parts are added under a node that folds their trees. -/
theorem folded_goes {step : Build ParserId} {id : ParserId} (kind : Kind) (h : d.Over base bound)
    (hx : folded step d = .ok id d')
    (hstep : ∀ g id g', step g = .ok id g' → Build.insert kind g = .ok id g')
    (hops : ∀ o ∈ kind.operands, d.Knows bound o) :
    Goes base bound d d' ∧ (∃ whole, d'.graph.node? whole = some ⟨none, kind⟩ ∧
      d'.graph.node? id = some ⟨none, .transform whole Tree.fold⟩) ∧ id ∈ d'.created := by
  obtain ⟨whole, d₁, hwhole, hx⟩ := Drafting.bind_eq_ok.1 hx
  have hinsert : Draft.add (Build.insert kind) d = .ok whole d₁ := by
    obtain ⟨g, hg, rfl⟩ := add_eq_ok hwhole
    rw [Draft.add, hstep _ _ _ hg]
  obtain ⟨hgo₁, hnode₁, hmem₁⟩ := insert_goes h hinsert hops
  obtain ⟨hgo₂, hnode₂, hmem₂⟩ := insert_goes hgo₁.kept hx
    fun o ho => List.mem_singleton.1 ho ▸ Or.inl hmem₁
  exact ⟨hgo₁.trans hgo₂, ⟨whole, hgo₂.extends_graph _ _ hnode₁, hnode₂⟩, hmem₂⟩

/-! ## Adding expressions -/

section

variable {sensitive : Bool} {rules : RuleTable}

/-- The parser of a name is the one in the table. -/
theorem resolve_eq_ok {name : String} {id : ParserId} (hx : resolve rules name d = .ok id d') :
    rules.get? name = some id ∧ d = d' := by
  unfold resolve RuleTable.get at hx
  cases hget : rules.get? name with
  | none =>
    rw [hget] at hx
    exact nomatch hx
  | some found =>
    rw [hget] at hx
    cases hx
    exact ⟨rfl, rfl⟩

mutual

/-- **Adding an expression realizes it.** -/
theorem expression_goes (e : Expr) {d d' : Draft} {id : ParserId} (h : d.Over base bound)
    (hrules : ∀ name id, rules.get? name = some id → d.Knows bound id)
    (hx : expression sensitive rules e d = .ok id d') :
    Goes base bound d d' ∧ Realizes d'.graph sensitive rules id e ∧ d'.Knows bound id := by
  cases e with
  | char c =>
    obtain ⟨hgo, ht, hmem⟩ := terminal_goes h hx
    exact ⟨hgo, .char ht, Or.inl hmem⟩
  | literal text =>
    obtain ⟨hgo, ht, hmem⟩ := terminal_goes h hx
    exact ⟨hgo, .literal ht, Or.inl hmem⟩
  | pattern p =>
    obtain ⟨hgo, ht, hmem⟩ := terminal_goes h hx
    exact ⟨hgo, .pattern ht, Or.inl hmem⟩
  | reference name position =>
    obtain ⟨hname, rfl⟩ := resolve_eq_ok hx
    exact ⟨.refl h, .reference hname, hrules name id hname⟩
  | sequence items =>
    obtain ⟨parts, d₁, hparts, hx⟩ := Drafting.bind_eq_ok.1 hx
    obtain ⟨hgo₁, hall, hknows⟩ := expressions_goes items h hrules hparts
    -- the parts stay realized while the nodes above them are added
    obtain ⟨hgo₂, ⟨whole, hwhole, hid⟩, hmem⟩ := folded_goes (.sequence parts) hgo₁.kept hx
      (fun _ _ _ h => h) hknows
    exact ⟨hgo₁.trans hgo₂, .sequence (hall.mono hgo₂.extends_graph.refines) hwhole hid,
      Or.inl hmem⟩
  | alternation items =>
    obtain ⟨branches, d₁, hbranches, hx⟩ := Drafting.bind_eq_ok.1 hx
    obtain ⟨hgo₁, hall, hknows⟩ := expressions_goes items h hrules hbranches
    obtain ⟨hgo₂, hid, hmem⟩ := insert_goes hgo₁.kept hx hknows
    exact ⟨hgo₁.trans hgo₂, .alternation (hall.mono hgo₂.extends_graph.refines) hid, Or.inl hmem⟩
  | repetition item min max =>
    obtain ⟨part, d₁, hpart, hx⟩ := Drafting.bind_eq_ok.1 hx
    obtain ⟨hgo₁, hreal, hknows⟩ := expression_goes item h hrules hpart
    obtain ⟨hgo₂, ⟨whole, hwhole, hid⟩, hmem⟩ := folded_goes (.repetition part min max)
      hgo₁.kept hx (fun _ _ _ h => Build.repetition_eq_ok h)
      (fun o ho => List.mem_singleton.1 ho ▸ hknows)
    exact ⟨hgo₁.trans hgo₂, .repetition (hreal.mono hgo₂.extends_graph.refines) hwhole hid,
      Or.inl hmem⟩
  | optional item =>
    obtain ⟨part, d₁, hpart, hx⟩ := Drafting.bind_eq_ok.1 hx
    obtain ⟨hgo₁, hreal, hknows⟩ := expression_goes item h hrules hpart
    obtain ⟨hgo₂, hid, hmem⟩ := insert_goes hgo₁.kept hx
      fun o ho => List.mem_singleton.1 ho ▸ hknows
    exact ⟨hgo₁.trans hgo₂, .optional (hreal.mono hgo₂.extends_graph.refines) hid, Or.inl hmem⟩
  | absent item =>
    obtain ⟨part, d₁, hpart, hx⟩ := Drafting.bind_eq_ok.1 hx
    obtain ⟨hgo₁, hreal, hknows⟩ := expression_goes item h hrules hpart
    obtain ⟨hgo₂, hid, hmem⟩ := insert_goes hgo₁.kept hx
      fun o ho => List.mem_singleton.1 ho ▸ hknows
    exact ⟨hgo₁.trans hgo₂, .absent (hreal.mono hgo₂.extends_graph.refines) hid, Or.inl hmem⟩

/-- Adding expressions realizes them one by one. -/
theorem expressions_goes (es : List Expr) {d d' : Draft} {ids : List ParserId}
    (h : d.Over base bound) (hrules : ∀ name id, rules.get? name = some id → d.Knows bound id)
    (hx : expressions sensitive rules es d = .ok ids d') :
    Goes base bound d d' ∧ RealizesAll d'.graph sensitive rules ids es ∧
      ∀ id ∈ ids, d'.Knows bound id := by
  cases es with
  | nil =>
    obtain ⟨rfl, rfl⟩ := Drafting.pure_eq_ok hx
    exact ⟨.refl h, .nil, fun _ hid => absurd hid List.not_mem_nil⟩
  | cons e es =>
    obtain ⟨id, d₁, hid, hx⟩ := Drafting.bind_eq_ok.1 hx
    obtain ⟨ids', d₂, hids, hx⟩ := Drafting.bind_eq_ok.1 hx
    obtain ⟨rfl, rfl⟩ := Drafting.pure_eq_ok hx
    obtain ⟨hgo₁, hreal, hknows⟩ := expression_goes e h hrules hid
    obtain ⟨hgo₂, hall, hknows'⟩ := expressions_goes es hgo₁.kept
      (fun name id hname => hgo₁.knows (hrules name id hname)) hids
    refine ⟨hgo₁.trans hgo₂, .cons (hreal.mono hgo₂.extends_graph.refines) hall, fun o ho => ?_⟩
    rcases List.mem_cons.1 ho with rfl | ho
    · exact hgo₂.knows hknows
    · exact hknows' o ho

end

end

end Draft

end ParserGraph.Grammar
