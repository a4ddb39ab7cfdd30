import ParserGraph.Proofs.Grammar.Rollback
import ParserGraph.Proofs.Grammar.Steps
import ParserGraph.Proofs.Grammar.Totality

/-!
# Frames of compiling — which nodes a grammar may change

A grammar that is built adds nodes and gives bodies to placeholders: to those
it added, and to those among its bindings that bear the name of one of its
rules (`Draft.bound_of_patched`). A grammar that is rejected changes nothing
that an id could tell. So every other node is left as it was
(`leaves_compile_eq`).
-/

namespace ParserGraph

namespace RuleTable

variable {t : RuleTable} {name : String} {id x : ParserId}

theorem mem_map_snd_place {rules : List (String × ParserId)}
    (h : x ∈ (place name id rules).map Prod.snd) : x = id ∨ x ∈ rules.map Prod.snd := by
  induction rules with
  | nil => exact Or.inl (List.mem_singleton.1 h)
  | cons other rest ih =>
    unfold place at h
    split at h
    · exact List.mem_cons.1 h
    split at h
    · exact (List.mem_cons.1 h).imp_right (List.mem_cons_of_mem _)
    · rcases List.mem_cons.1 h with rfl | h
      · exact Or.inr List.mem_cons_self
      · exact (ih h).imp_right (List.mem_cons_of_mem _)

/-- Putting a parser into a table adds no other. -/
theorem mem_roots_insert (h : x ∈ (t.insert name id).roots) : x = id ∨ x ∈ t.roots :=
  mem_map_snd_place h

end RuleTable

namespace Grammar

variable {g base : Graph} {bound bound' : RuleTable} {bindings : List ParserId}
  {ds : List Definition} {sensitive : Bool} {id x : ParserId}

/-! ## What is bound -/

theorem mem_of_bind {ids : List ParserId} (h : bind g bound ids = .ok bound')
    (hx : x ∈ bound'.roots) : x ∈ bound.roots ∨ x ∈ ids := by
  induction ids generalizing bound with
  | nil =>
    cases h
    exact Or.inl hx
  | cons id ids ih =>
    rw [bind] at h
    split at h
    · cases h
    · cases h
    · split at h
      · cases h
      · rcases ih h with hroot | hmem
        · rcases RuleTable.mem_roots_insert hroot with rfl | hroot
          · exact Or.inr List.mem_cons_self
          · exact Or.inl hroot
        · exact Or.inr (List.mem_cons_of_mem _ hmem)

/-- What is bound is among the bindings. -/
theorem mem_bindings_of_check (h : check g ds bindings = .ok bound) (hx : x ∈ bound.roots) :
    x ∈ bindings := by
  obtain ⟨found, hbind, h⟩ := except_bind_eq_ok h
  obtain ⟨u, -, h⟩ := except_bind_eq_ok h
  obtain ⟨u', -, h⟩ := except_bind_eq_ok h
  cases h
  exact (mem_of_bind hbind hx).resolve_left List.not_mem_nil

/-! ## What is given a body -/

namespace Draft

variable {known : List ParserId} {rules : RuleTable} {d d' : Draft}

theorem mem_patched_of_define {rule body : ParserId} {done : Except GraphError Unit}
    (hx : Draft.define rule body d = .ok done d') (hid : id ∈ d'.patched) :
    id = rule ∨ id ∈ d.patched := by
  unfold Draft.define at hx
  split at hx
  · cases hx
    exact List.mem_cons.1 hid
  · cases hx
    exact Or.inr hid

/-- **Bodies are given to the rules of definitions only.** -/
theorem mem_patched_of_bodies {r : Except GraphError Unit} (h : d.Over base known)
    (hnames : d.Names known rules) (hx : bodies sensitive rules ds d = .ok r d')
    (hid : id ∈ d'.patched) : id ∈ d.patched ∨ ∃ e ∈ ds, rules.get? e.name = some id := by
  induction ds generalizing d with
  | nil =>
    obtain ⟨-, rfl⟩ := Drafting.pure_eq_ok hx
    exact Or.inl hid
  | cons e ds ih =>
    obtain ⟨d₂, rule, body, done, d₃, hgo, -, -, hknown, hget, hdefine, hx⟩ :=
      bodies_cons_eq_ok h hnames hx
    -- what the definition is given, and what was given a body before it
    have hstep : id ∈ d₃.patched →
        id ∈ d.patched ∨ ∃ e' ∈ e :: ds, rules.get? e'.name = some id := by
      intro hid
      rcases mem_patched_of_define hdefine hid with rfl | hid
      · exact Or.inr ⟨e, List.mem_cons_self, hget⟩
      · exact Or.inl (hgo.patched_eq ▸ hid)
    cases done with
    | error error =>
      obtain ⟨-, rfl⟩ := Drafting.pure_eq_ok hx
      exact hstep hid
    | ok u =>
      obtain ⟨hover, hnames₃⟩ := define_names hgo.kept (hnames.mono hgo) hknown hdefine
      rcases ih hover hnames₃ hx with hid | ⟨e', he', hname⟩
      · exact hstep hid
      · exact Or.inr ⟨e', List.mem_cons_of_mem _ he', hname⟩

/-- A build adds placeholders and bodies, and changes nothing after that. If it goes through, no
body was refused, and its table is that of the placeholders. -/
theorem bodies_of_build {r : Except GrammarError Compilation}
    (hx : build sensitive bound ds d = .ok r d') :
    ∃ rules d₁ done, placeholders bound ds d = .ok rules d₁ ∧
      bodies sensitive rules ds d₁ = .ok done d' ∧
      ∀ c, r = .ok c → c.table = rules ∧ done = .ok () := by
  obtain ⟨rules, d₁, hrules, hx⟩ := Drafting.bind_eq_ok.1 hx
  obtain ⟨roots, d₁', hroots, hx⟩ := Drafting.bind_eq_ok.1 hx
  obtain ⟨rfl, -⟩ := resolveAll_eq_ok hroots
  obtain ⟨done, d₂, hbodies, hx⟩ := Drafting.bind_eq_ok.1 hx
  cases done with
  | error error =>
    obtain ⟨rfl, rfl⟩ := Drafting.pure_eq_ok hx
    exact ⟨rules, d₁, _, hrules, hbodies, fun c hc => nomatch hc⟩
  | ok u =>
    obtain ⟨d₃, d₂', hget, hx⟩ := Drafting.bind_eq_ok.1 hx
    cases hget
    cases hvalid : d₂.graph.validateExcept ((d₂.pending bound).map Prod.snd) roots with
    | error v =>
      rw [hvalid] at hx
      obtain ⟨rfl, rfl⟩ := Drafting.pure_eq_ok hx
      exact ⟨rules, d₁, _, hrules, hbodies, fun c hc => nomatch hc⟩
    | ok v =>
      rw [hvalid] at hx
      obtain ⟨rfl, rfl⟩ := Drafting.pure_eq_ok hx
      refine ⟨rules, d₁, _, hrules, hbodies, fun c hc => ?_⟩
      cases hc
      exact ⟨rfl, rfl⟩

/-- **A placeholder that was there before is given a body only if it is bound**, under the name of a
definition. -/
theorem bound_of_patched {r : Except GrammarError Compilation} (hsound : base.Sound)
    (hcheck : check base ds bindings = .ok bound)
    (hx : build sensitive bound ds ⟨base, none, [], []⟩ = .ok r d) (hlive : base.contains id)
    (hid : id ∈ d.patched) : id ∈ bindings ∧ ∃ e ∈ ds, base.name? id = some e.name := by
  obtain ⟨rules, d₁, done, hrules, hbodies, -⟩ := bodies_of_build hx
  obtain ⟨hgo, hnames, -, -, -⟩ :=
    placeholders_goes (over_start hsound) (names_start hcheck) hrules
  have hnone : id ∉ d₁.patched := by
    rw [hgo.patched_eq]
    exact List.not_mem_nil
  obtain ⟨e, he, hget⟩ := (mem_patched_of_bodies hgo.kept hnames hbodies hid).resolve_left hnone
  obtain ⟨hknows, kind, hnode⟩ := hnames e.name id hget
  -- an id that named something before was not given out
  have hnew : id ∉ d₁.created := by
    intro hmem
    rw [Graph.contains, hgo.kept.created_fresh id hmem] at hlive
    exact absurd hlive Bool.false_ne_true
  refine ⟨mem_bindings_of_check hcheck (hknows.resolve_left hnew), e, he, ?_⟩
  rw [hgo.kept.node?_eq id hnew hnone] at hnode
  rw [Graph.name?, hnode]
  rfl

end Draft

/-! ## What is left as it was -/

/-- A parser that a text would give a body to: it is bound, and bears the name of a definition. -/
def Defines (g : Graph) (dialect : Pattern.Dialect) (text : String) (bindings : List ParserId)
    (id : ParserId) : Prop :=
  id ∈ bindings ∧ ∃ ds, definitions dialect text = .ok (.ok ds) ∧ ∃ d ∈ ds, g.name? id = some d.name

/-- **Compiling leaves every node as it was but those that the text defines**, and these too if it
is rejected. -/
theorem leaves_compile_eq (dialect : Pattern.Dialect) (text : String) (bindings : List ParserId)
    (sensitive : Bool) (hsound : g.Sound) :
    ((compile dialect text bindings sensitive).leaves g).maxDepth = g.maxDepth ∧
      ∀ id, g.contains id →
        ((∃ c g', compile dialect text bindings sensitive g = .ok (.ok c) g') →
          ¬ Defines g dialect text bindings id) →
        ((compile dialect text bindings sensitive).leaves g).node? id = g.node? id := by
  rw [leaves_compile]
  split
  · next ds hdefs =>
    rw [Build.leaves, assemble]
    cases hcheck : check g ds bindings with
    | error e => exact ⟨rfl, fun _ _ _ => rfl⟩
    | ok bound =>
      obtain ⟨r, d, hbuild⟩ :=
        Draft.build_succeeds sensitive hsound hcheck (definitions_ordered hdefs)
      obtain ⟨hover, -, -⟩ := Draft.build_spec hsound hcheck hbuild
      dsimp only
      rw [hbuild]
      cases r with
      | error e =>
        obtain ⟨-, hdepth, hnode⟩ := hover.undone_restores
        exact ⟨hdepth, fun id _ _ => hnode id⟩
      | ok c =>
        refine ⟨hover.maxDepth_eq, fun id hlive hspared => ?_⟩
        have hbuilt : compile dialect text bindings sensitive g = .ok (.ok c) d.graph := by
          rw [compile_of_definitions hdefs, assemble, hcheck]
          dsimp only
          rw [hbuild]
        have hcreated : id ∉ d.created := by
          intro hmem
          rw [Graph.contains, hover.created_fresh id hmem] at hlive
          exact absurd hlive Bool.false_ne_true
        have hpatched : id ∉ d.patched := by
          intro hmem
          obtain ⟨hbound, e, he, hname⟩ :=
            Draft.bound_of_patched hsound hcheck hbuild hlive hmem
          exact hspared ⟨c, _, hbuilt⟩ ⟨hbound, ds, hdefs, e, he, hname⟩
        exact hover.node?_eq id hcreated hpatched
  · exact ⟨rfl, fun _ _ _ => rfl⟩

end Grammar

end ParserGraph
