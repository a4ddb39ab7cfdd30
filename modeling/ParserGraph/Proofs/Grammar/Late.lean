import ParserGraph.Proofs.Grammar.Rollback
import ParserGraph.Proofs.Validation.Refinement

/-!
# Late bodies — a bound placeholder may be given its body after compiling

A placeholder that a grammar is bound to is none of the rules that the grammar
defines, so no step of a build looks at its body: nodes are added in the same
slots, and the same placeholders are given the same bodies, whether it has one
or not (`Drafting.Heedless`). What looks at it is validation, and a body never
makes that easier (`Graph.Refines.validateExcept`). So where a grammar is
accepted once the placeholder has its body, it is accepted before, and giving
the body then leads to the same graph (`compile_define_late`).
-/

namespace ParserGraph

/-! ## A node that is replaced before and after other changes -/

namespace Graph

variable {g : Graph} {rule id : ParserId} {old other node : Node}

/-- Of two nodes, either may be replaced first. -/
theorem replace_comm (hrule : g.node? rule = some old) (hid : g.node? id = some other)
    (hne : id ≠ rule) (node node' : Node) :
    (g.replace rule node).replace id node' = (g.replace id node').replace rule node := by
  have hindex : rule.index ≠ id.index := fun he => hne (eq_of_index_eq hrule hid he).symm
  unfold replace
  rw [Array.setIfInBounds_comm _ _ hindex]

/-- A new node goes where it would have gone before a node was replaced: the slot of that node is
not free. -/
theorem place_replace (h : g.Sound) (hrule : g.node? rule = some old) (node new : Node) :
    (g.replace rule node).place new = ((g.place new).1, (g.place new).2.replace rule node) := by
  obtain ⟨hbounds, -⟩ := Array.getElem?_eq_some_iff.1 (node?_eq_some_iff.1 hrule)
  unfold place
  cases hfree : g.free with
  | cons index free =>
    have hindex : rule.index ≠ index := fun he =>
      h.not_mem_free hrule (he ▸ hfree ▸ List.mem_cons_self)
    have hreplaced : (g.replace rule node).free = index :: free := hfree
    rw [hreplaced]
    dsimp only [put, replace]
    rw [Array.getElem?_setIfInBounds_ne hindex, Array.setIfInBounds_comm _ _ hindex]
  | nil =>
    have hreplaced : (g.replace rule node).free = [] := hfree
    rw [hreplaced]
    have hpush : (g.slots.setIfInBounds rule.index (.live rule.generation node)).push
        (.live 0 new) =
        (g.slots.push (.live 0 new)).setIfInBounds rule.index (.live rule.generation node) := by
      grind
    dsimp only [replace]
    rw [Array.size_setIfInBounds, hpush]

end Graph

namespace Grammar

/-! ## Steps that take no notice of a body -/

section

variable {α β : Type} {d d' : Draft} {rule : ParserId} {name : Option String} {body : ParserId}

/-- The draft with a body for a placeholder. -/
def Draft.filled (d : Draft) (rule : ParserId) (name : Option String) (body : ParserId) : Draft :=
  { d with graph := d.graph.replace rule ⟨name, .rule (some body)⟩ }

/-- A draft in which a placeholder is open. -/
structure Draft.Awaits (d : Draft) (rule : ParserId) (name : Option String) : Prop where
  sound : d.graph.Sound
  node : d.graph.node? rule = some ⟨name, .rule none⟩

/-- A step that does the same whether a placeholder has its body or not, and leaves it open where it
has none. -/
def Drafting.Heedless (rule : ParserId) (name : Option String) (body : ParserId)
    (x : Drafting α) : Prop :=
  ∀ d a d', d.Awaits rule name → x d = .ok a d' →
    d'.Awaits rule name ∧ x (d.filled rule name body) = .ok a (d'.filled rule name body)

namespace Drafting.Heedless

theorem pure (a : α) : Heedless rule name body (Pure.pure a) := by
  intro d a' d' hd hx
  obtain ⟨rfl, rfl⟩ := pure_eq_ok hx
  exact ⟨hd, rfl⟩

theorem bind {x : Drafting α} {f : α → Drafting β} (hx : x.Heedless rule name body)
    (hf : ∀ a d d', x d = .ok a d' → (f a).Heedless rule name body) :
    (x >>= f).Heedless rule name body := by
  intro d b d'' hd h
  obtain ⟨a, d', hok, hok'⟩ := bind_eq_ok.1 h
  obtain ⟨hd', hfilled⟩ := hx d a d' hd hok
  obtain ⟨hd'', hfilled'⟩ := hf a d d' hok d' b d'' hd' hok'
  exact ⟨hd'', bind_eq_ok.2 ⟨a, _, hfilled, hfilled'⟩⟩

/-- A node is added in the same slot. -/
theorem insert (kind : Kind) : (Draft.add (Build.insert kind)).Heedless rule name body := by
  intro d id d' hd hx
  obtain ⟨g, hstep, rfl⟩ := Draft.add_eq_ok hx
  obtain ⟨hadd, hlive⟩ := Build.insert_eq_ok hd.sound hstep
  refine ⟨⟨hadd.sound, hadd.extends _ _ hd.node⟩, ?_⟩
  have hnone : ∀ g' : Graph, (∀ o, g'.contains o ↔ d.graph.contains o) →
      kind.operands.find? (!g'.contains ·) = none := by
    intro g' hsame
    exact List.find?_eq_none.2 fun o ho => by rw [(hsame o).2 (hlive o ho)]; simp
  have hplaced : .ok (d.graph.place ⟨none, kind⟩).1 (d.graph.place ⟨none, kind⟩).2 =
      (.ok id g : EStateM.Result Misuse Graph ParserId) := by
    rw [← hstep, Build.insert, hnone _ fun _ => Iff.rfl]
  cases hplaced
  unfold Draft.add Build.insert
  dsimp only [Draft.filled]
  rw [hnone _ (Graph.contains_replace hd.node _), Graph.place_replace hd.sound hd.node]

/-- A placeholder is added in the same slot. -/
theorem rule_of (other : String) : (Draft.add (Build.rule other)).Heedless rule name body := by
  intro d id d' hd hx
  obtain ⟨g, hstep, rfl⟩ := Draft.add_eq_ok hx
  have hadd := Build.rule_eq_ok hd.sound hstep
  refine ⟨⟨hadd.sound, hadd.extends _ _ hd.node⟩, ?_⟩
  have hplaced := Graph.place_added hd.sound ⟨none, .rule none⟩
  rw [Build.rule_eq hd.sound] at hstep
  cases hstep
  -- the new placeholder is another node than the open one
  have hne : (d.graph.place ⟨none, .rule none⟩).1 ≠ rule := by
    intro he
    have hfresh := hplaced.fresh
    rw [he, hd.node] at hfresh
    exact nomatch hfresh
  have hsound : (d.filled rule name body).graph.Sound := Graph.sound_replace hd.sound hd.node _
  unfold Draft.add
  rw [Build.rule_eq hsound]
  dsimp only [Draft.filled]
  rw [Graph.place_replace hd.sound hd.node]
  dsimp only
  rw [Graph.replace_comm (hplaced.extends _ _ hd.node) hplaced.node?_self hne]

/-- Another placeholder is given its body, or is refused it, just the same. -/
theorem define {rule' : ParserId} (body' : ParserId) (hne : rule' ≠ rule) :
    (Draft.define rule' body').Heedless rule name body := by
  intro d done d' hd hx
  have hbody : (d.filled rule name body).graph.contains body' = d.graph.contains body' :=
    Bool.eq_iff_iff.2 (Graph.contains_replace hd.node _ _)
  have hrule : (d.filled rule name body).graph.node? rule' = d.graph.node? rule' := by
    rw [Draft.filled, Graph.node?_replace hd.node, if_neg hne]
  cases hdefine : d.graph.define rule' body' with
  | error e =>
    rw [Draft.define, hdefine] at hx
    cases hx
    have hsame : (d.filled rule name body).graph.define rule' body' = .error e := by
      -- what is refused is told from the body and from the placeholder alone
      revert hdefine
      unfold Graph.define
      rw [hbody, hrule]
      cases d.graph.contains body' with
      | false => exact id
      | true =>
        cases d.graph.node? rule' with
        | none => exact id
        | some node =>
          obtain ⟨name', kind⟩ := node
          cases kind with
          | rule inner =>
            cases inner with
            | none =>
              intro h
              cases h
            | some inner => exact id
          | _ => exact id
    refine ⟨hd, ?_⟩
    rw [Draft.define, hsame]
  | ok g =>
    rw [Draft.define, hdefine] at hx
    cases hx
    obtain ⟨hlive, name', hopen, rfl⟩ := Graph.define_eq_ok hdefine
    refine ⟨⟨Graph.sound_replace hd.sound hopen _, ?_⟩, ?_⟩
    · dsimp only
      rw [Graph.node?_replace hopen, if_neg hne.symm]
      exact hd.node
    · rw [Draft.define, Graph.define_of_undefined (hbody.trans hlive) (hrule.trans hopen)]
      dsimp only [Draft.filled]
      rw [Graph.replace_comm hd.node hopen hne]

/-- The parser of skipped white space is looked up, or added, just the same. -/
theorem skipper : Draft.skipper.Heedless rule name body := by
  intro d id d' hd hx
  obtain ⟨d₀, d₁, hget, hx⟩ := bind_eq_ok.1 hx
  cases hget
  -- the draft has the same parser with the body as without
  cases hspaces : d.spaces with
  | some spaces =>
    rw [hspaces] at hx
    cases hx
    have hspaces' : (d.filled rule name body).spaces = some id := hspaces
    refine ⟨hd, bind_eq_ok.2 ⟨_, _, rfl, ?_⟩⟩
    rw [hspaces']
    rfl
  | none =>
    have hsteps : (do
        let space ← Draft.add Build.whitespace
        let run ← Draft.add (Build.many space)
        let skipped ← Draft.add (Build.skip run)
        modify fun d => { d with spaces := some skipped }
        Pure.pure skipped : Drafting ParserId).Heedless rule name body := by
      refine (insert (.terminal _)).bind fun space _ _ _ => ?_
      refine (insert (.repetition space 0 none)).bind fun run _ _ _ => ?_
      refine (insert (.transform run Tree.skip)).bind fun skipped _ _ _ => ?_
      refine Heedless.bind (fun d a d' hd hx => ?_) fun _ _ _ _ => pure skipped
      cases hx
      exact ⟨⟨hd.sound, hd.node⟩, rfl⟩
    rw [hspaces] at hx
    obtain ⟨hd', hfilled⟩ := hsteps d id d' hd hx
    have hspaces' : (d.filled rule name body).spaces = none := hspaces
    refine ⟨hd', bind_eq_ok.2 ⟨_, _, rfl, ?_⟩⟩
    rw [hspaces']
    exact hfilled

theorem terminal (sensitive : Bool) (t : Terminal) :
    (Draft.terminal sensitive t).Heedless rule name body := by
  refine (insert (.terminal t)).bind fun id _ _ _ => ?_
  cases sensitive with
  | true => exact pure id
  | false =>
    refine skipper.bind fun spaces _ _ _ => ?_
    exact (insert (.sequence [id, spaces])).bind fun both _ _ _ =>
      insert (.transform both Tree.first)

theorem folded {step : Build ParserId} (hstep : (Draft.add step).Heedless rule name body) :
    (Draft.folded step).Heedless rule name body :=
  hstep.bind fun whole _ _ _ => insert (.transform whole Tree.fold)

theorem repetition (part : ParserId) (min : Nat) (max : Option Nat) :
    (Draft.add (Build.repetition part min max)).Heedless rule name body := by
  unfold Build.repetition
  cases max with
  | none => exact insert _
  | some high =>
    dsimp only
    split
    · -- bounds that are not in order are refused in any graph
      intro d id d' hd hx
      obtain ⟨g, hstep, -⟩ := Draft.add_eq_ok hx
      exact nomatch hstep
    · exact insert _

theorem resolve (rules : RuleTable) (other : String) :
    (Draft.resolve rules other).Heedless rule name body := by
  unfold Draft.resolve
  split
  · exact pure _
  · intro d id d' hd hx
    exact nomatch hx

mutual

/-- **An expression is added in the same slots.** -/
theorem expression (sensitive : Bool) (rules : RuleTable) (e : Expr) :
    (Draft.expression sensitive rules e).Heedless rule name body := by
  cases e with
  | char c => exact terminal sensitive _
  | literal text => exact terminal sensitive _
  | pattern p => exact terminal sensitive _
  | reference other position => exact resolve rules other
  | sequence items =>
    exact (expressions sensitive rules items).bind fun parts _ _ _ =>
      folded (insert (.sequence parts))
  | alternation items =>
    exact (expressions sensitive rules items).bind fun branches _ _ _ =>
      insert (.alternation branches)
  | repetition item min max =>
    exact (expression sensitive rules item).bind fun part _ _ _ => folded (repetition part min max)
  | optional item =>
    exact (expression sensitive rules item).bind fun part _ _ _ => insert (.optional part)
  | absent item =>
    exact (expression sensitive rules item).bind fun part _ _ _ => insert (.lookahead part true)

theorem expressions (sensitive : Bool) (rules : RuleTable) (items : List Expr) :
    (Draft.expressions sensitive rules items).Heedless rule name body := by
  cases items with
  | nil => exact pure []
  | cons item items =>
    exact (expression sensitive rules item).bind fun id _ _ _ =>
      (expressions sensitive rules items).bind fun ids _ _ _ => pure (id :: ids)

end

theorem resolveAll (rules : RuleTable) (names : List String) :
    (Draft.resolveAll rules names).Heedless rule name body := by
  induction names with
  | nil => exact pure []
  | cons other names ih =>
    exact (resolve rules other).bind fun id _ _ _ => ih.bind fun ids _ _ _ => pure (id :: ids)

theorem placeholders (rules : RuleTable) (ds : List Definition) :
    (Draft.placeholders rules ds).Heedless rule name body := by
  induction ds generalizing rules with
  | nil => exact pure rules
  | cons d ds ih =>
    rw [Draft.placeholders]
    split
    · exact ih rules
    · exact (rule_of d.name).bind fun id _ _ _ => ih _

theorem labelled (label : Option String) (part : ParserId) :
    (Draft.labelled label part).Heedless rule name body := by
  cases label with
  | none => exact pure part
  | some label => exact insert (.expect part label)

/-- **Bodies are added and given just the same**, if none of them is for the placeholder. -/
theorem bodies (sensitive : Bool) {rules : RuleTable} {ds : List Definition}
    (hother : ∀ e ∈ ds, rules.get? e.name ≠ some rule) :
    (Draft.bodies sensitive rules ds).Heedless rule name body := by
  induction ds with
  | nil => exact pure _
  | cons e ds ih =>
    obtain ⟨he, hds⟩ := List.forall_mem_cons.1 hother
    rw [Draft.bodies_cons]
    refine (expression sensitive rules e.body).bind fun part _ _ _ => ?_
    refine (labelled e.label part).bind fun body _ _ _ => ?_
    refine (resolve rules e.name).bind fun rule' _ _ hrule => ?_
    have hne : rule' ≠ rule := by
      rintro rfl
      exact he (Draft.resolve_eq_ok hrule).1
    refine (define body hne).bind fun done _ _ _ => ?_
    cases done with
    | error e => exact pure _
    | ok u => exact ih hds

end Drafting.Heedless

end

/-! ## The checks -/

section

variable {g g' : Graph} {bound : RuleTable} {ds : List Definition}

/-- What is bound depends on the names of nodes only. -/
theorem bind_congr (hnames : ∀ id, (g.node? id).map Node.name = (g'.node? id).map Node.name)
    (bound : RuleTable) (ids : List ParserId) : bind g bound ids = bind g' bound ids := by
  induction ids generalizing bound with
  | nil => rfl
  | cons id ids ih =>
    have hname := hnames id
    rw [bind, bind]
    cases hnode : g.node? id with
    | none =>
      rw [hnode] at hname
      rw [Option.map_eq_none_iff.1 hname.symm]
    | some node =>
      rw [hnode] at hname
      obtain ⟨node', hnode', hsame⟩ := Option.map_eq_some_iff.1 hname.symm
      obtain ⟨name, kind⟩ := node
      obtain ⟨name', kind'⟩ := node'
      cases hsame
      rw [hnode']
      cases name with
      | none => rfl
      | some name =>
        dsimp only
        rw [ih]

/-- Where more placeholders are open, no fewer definitions pass. -/
theorem checkDefinitions_mono (hopen : ∀ id, g'.isUndefinedRule id → g.isUndefinedRule id)
    {seen : List String} (h : checkDefinitions g' bound seen ds = .ok ()) :
    checkDefinitions g bound seen ds = .ok () := by
  induction ds generalizing seen with
  | nil => rfl
  | cons d ds ih =>
    rw [checkDefinitions] at h ⊢
    split at h
    · cases h
    · next hok =>
      rw [Bool.or_eq_true, not_or] at hok
      rw [if_neg, ih h]
      rw [Bool.or_eq_true, not_or]
      refine ⟨hok.1, fun hclosed => hok.2 ?_⟩
      obtain ⟨id, hid, hclosed⟩ := (Option.any_eq_true _ _).1 hclosed
      rw [hid]
      rw [Bool.not_eq_true', ← Bool.not_eq_true] at hclosed
      simpa using mt (hopen id) hclosed

/-- Definitions that pass the checks pass them where more placeholders are open. -/
theorem check_mono {bindings : List ParserId}
    (hnames : ∀ id, (g.node? id).map Node.name = (g'.node? id).map Node.name)
    (hopen : ∀ id, g'.isUndefinedRule id → g.isUndefinedRule id)
    (h : check g' ds bindings = .ok bound) : check g ds bindings = .ok bound := by
  obtain ⟨found, hbind, h⟩ := except_bind_eq_ok h
  obtain ⟨u, hdefinitions, h⟩ := except_bind_eq_ok h
  obtain ⟨u', hreferences, h⟩ := except_bind_eq_ok h
  cases h
  unfold check
  rw [bind_congr hnames, hbind]
  show (checkDefinitions g bound [] ds >>= fun _ => _) = _
  rw [checkDefinitions_mono hopen hdefinitions]
  show (checkReferences bound ds >>= fun _ => _) = _
  rw [hreferences]
  rfl

end

/-! ## The build -/

section

variable {g : Graph} {bound : RuleTable} {ds : List Definition} {bindings : List ParserId}
  {sensitive : Bool} {rule body : ParserId} {name : String}

/-- A placeholder that was given its body is open no longer; every other one is as before. -/
theorem isUndefinedRule_replace (hrule : g.node? rule = some ⟨some name, .rule none⟩)
    (id : ParserId) :
    (g.replace rule ⟨some name, .rule (some body)⟩).isUndefinedRule id ↔
      g.isUndefinedRule id ∧ id ≠ rule := by
  unfold Graph.isUndefinedRule Graph.kind?
  rw [Graph.node?_replace hrule]
  by_cases he : id = rule
  · simp [he]
  · simp [he]

/-- What may stay open is what is bound and open. -/
theorem Draft.mem_pending {d : Draft} {id : ParserId} :
    id ∈ (d.pending bound).map Prod.snd ↔ id ∈ bound.roots ∧ d.graph.isUndefinedRule id := by
  unfold pending RuleTable.roots
  simp only [List.mem_map, List.mem_filter]
  constructor
  · rintro ⟨r, ⟨hr, hopen⟩, rfl⟩
    exact ⟨⟨r, hr, rfl⟩, hopen⟩
  · rintro ⟨⟨r, hr, rfl⟩, hopen⟩
    exact ⟨r, ⟨hr, hopen⟩, rfl⟩

/-- What comes of a draft is its table, if its graph is valid. -/
theorem Draft.verdict_eq_ok {d : Draft} {rules : RuleTable} {roots : List ParserId}
    {c : Compilation} : d.verdict bound rules roots = .ok c ↔
      d.graph.validateExcept ((d.pending bound).map Prod.snd) roots = .ok () ∧
        c = ⟨rules, (d.pending bound).map Prod.fst⟩ := by
  unfold verdict
  cases d.graph.validateExcept ((d.pending bound).map Prod.snd) roots with
  | error e => exact iff_of_false (fun h => nomatch h) fun h => nomatch h.1
  | ok u => exact ⟨fun h => ⟨rfl, (Except.ok.inj h).symm⟩, fun h => congrArg _ h.2.symm⟩

/-- A draft is valid before a bound placeholder has its body if it is valid after. -/
theorem Draft.Awaits.validateExcept {d : Draft} {roots : List ParserId}
    (h : d.Awaits rule (some name)) (hbound : rule ∈ bound.roots)
    (hvalid : (d.filled rule (some name) body).graph.validateExcept
      (((d.filled rule (some name) body).pending bound).map Prod.snd) roots = .ok ()) :
    d.graph.validateExcept ((d.pending bound).map Prod.snd) roots = .ok () := by
  refine (Graph.refines_replace h.node).validateExcept hvalid fun id hopen hpending => ?_
  refine Draft.mem_pending.2 ⟨?_, hopen⟩
  by_cases he : id = rule
  · exact he ▸ hbound
  · exact (Draft.mem_pending.1 (hpending ((isUndefinedRule_replace h.node id).2 ⟨hopen, he⟩))).1

/-- **A build does the same whether a bound placeholder has its body or not**, and goes through
before if it does after. -/
theorem build_late {c : Compilation} {d' : Draft} (hsound : g.Sound) (hbody : g.contains body)
    (hrule : g.node? rule = some ⟨some name, .rule none⟩) (hbound : bound.get? name = some rule)
    (hcheck : check g ds bindings = .ok bound)
    (hcheck' : check (g.replace rule ⟨some name, .rule (some body)⟩) ds bindings = .ok bound)
    (hordered : ∀ e ∈ ds, e.body.Ordered)
    (hx : Draft.build sensitive bound ds
      ⟨g.replace rule ⟨some name, .rule (some body)⟩, none, [], []⟩ = .ok (.ok c) d') :
    ∃ c' d, Draft.build sensitive bound ds ⟨g, none, [], []⟩ = .ok (.ok c') d ∧
      c'.table = c.table ∧ d.graph.define rule body = .ok d'.graph := by
  obtain ⟨r, d, hbuild⟩ := Draft.build_succeeds sensitive hsound hcheck hordered
  obtain ⟨rules, d₁, roots, hrules, hroots, hbodies, hr⟩ :=
    Draft.parts_of_build hsound hcheck hbuild
  obtain ⟨rules', d₁', roots', hrules', hroots', hbodies', hc⟩ :=
    Draft.parts_of_build (Graph.sound_replace hsound hrule _) hcheck' hx
  -- the placeholders and their bodies are the same, step by step
  have hstart : Draft.Awaits ⟨g, none, [], []⟩ rule (some name) := ⟨hsound, hrule⟩
  have hplaceholders : (Draft.placeholders bound ds).Heedless rule (some name) body :=
    .placeholders bound ds
  obtain ⟨hawaits, hfilled⟩ := hplaceholders _ _ _ hstart hrules
  cases hfilled.symm.trans hrules'
  have hresolve : (Draft.resolveAll rules (ds.map (·.name))).Heedless rule (some name) body :=
    .resolveAll rules _
  obtain ⟨-, hfilled⟩ := hresolve _ _ _ hawaits hroots
  cases hfilled.symm.trans hroots'
  obtain ⟨hgo, hnames, -⟩ :=
    Draft.placeholders_goes (Draft.over_start hsound) (Draft.names_start hcheck) hrules
  have hother : ∀ e ∈ ds, rules.get? e.name ≠ some rule := by
    intro e he hget
    -- a rule of the grammar with this placeholder would be one that is defined already
    obtain ⟨-, kind, hnode⟩ := hnames e.name rule hget
    cases hawaits.node.symm.trans hnode
    have hopen := (check_spec hcheck').2.2 e he rule hbound
    exact ((isUndefinedRule_replace hrule rule).1 hopen).2 rfl
  have hgiven : (Draft.bodies sensitive rules ds).Heedless rule (some name) body :=
    .bodies sensitive hother
  obtain ⟨hawaits', hfilled⟩ := hgiven _ _ _ hawaits hbodies
  cases hfilled.symm.trans hbodies'
  obtain ⟨hvalid, rfl⟩ := Draft.verdict_eq_ok.1 hc.symm
  have hvalid' := hawaits'.validateExcept (RuleTable.mem_roots_of_get? hbound) hvalid
  obtain rfl : r = .ok ⟨rules, (d.pending bound).map Prod.fst⟩ :=
    hr.trans (Draft.verdict_eq_ok.2 ⟨hvalid', rfl⟩)
  obtain ⟨hover, -, -⟩ := Draft.build_spec hsound hcheck hbuild
  exact ⟨_, d, hbuild, rfl,
    Graph.define_of_undefined (hover.contains_iff.2 (Or.inr hbody)) hawaits'.node⟩

end

/-- Definitions are assembled before a bound placeholder has its body if they are after. -/
theorem assemble_late {g g₁ g₂ : Graph} {rule body : ParserId} {ds : List Definition}
    {bindings : List ParserId} {sensitive : Bool} {c : Compilation} (hsound : g.Sound)
    (hdefine : g.define rule body = .ok g₁) (hbound : rule ∈ bindings)
    (hordered : ∀ e ∈ ds, e.body.Ordered)
    (hassemble : assemble ds bindings sensitive g₁ = .ok (.ok c) g₂) :
    ∃ c' g', assemble ds bindings sensitive g = .ok (.ok c') g' ∧
      g'.define rule body = .ok g₂ ∧ c'.table = c.table := by
  obtain ⟨hbody, name, hrule, rfl⟩ := Graph.define_eq_ok hdefine
  rcases assemble_eq_ok hassemble with ⟨_, -, hc, -⟩ | ⟨bound, d', hcheck', hbuild, hresult⟩
  · exact nomatch hc
  rcases hresult with ⟨_, hc, -⟩ | ⟨_, hc, rfl⟩
  · exact nomatch hc
  cases hc
  -- the placeholder is bound under its name
  obtain ⟨bare, hname, hget⟩ := (bound_of_check hcheck').1 rule hbound
  obtain rfl : name = some bare := by
    rw [Graph.name?, Graph.node?_replace hrule, if_pos rfl] at hname
    exact hname
  have hcheck : check g ds bindings = .ok bound := by
    refine check_mono (fun id => ?_) (fun id hid => ?_) hcheck'
    · rw [Graph.node?_replace hrule]
      split
      · next he => rw [he, hrule]; rfl
      · rfl
    · exact ((isUndefinedRule_replace hrule id).1 hid).1
  obtain ⟨c', d, hbuild', htable, hlate⟩ :=
    build_late hsound hbody hrule hget hcheck hcheck' hordered hbuild
  refine ⟨c', d.graph, ?_, hlate, htable⟩
  rw [assemble, hcheck]
  dsimp only
  rw [hbuild']

/-- **A bound placeholder may be given its body after compiling as well as before.** Where giving an
open placeholder a body and then compiling with it among the bindings is accepted, compiling is
accepted before, with the same table; and giving the placeholder its body then leads to the very
same graph, in which everything runs as it does there. This is so of texts in any dialect, and of
lists of definitions whose bounds are in order, as those of all texts are. -/
theorem compile_define_late {g g₁ g₂ : Graph} {rule body : ParserId} {bindings : List ParserId}
    {sensitive : Bool} {c : Compilation} (hg : g.Built) (hdefine : g.define rule body = .ok g₁)
    (hbound : rule ∈ bindings) :
    (∀ dialect text, compile dialect text bindings sensitive g₁ = .ok (.ok c) g₂ →
      ∃ c' g', compile dialect text bindings sensitive g = .ok (.ok c') g' ∧
        g'.define rule body = .ok g₂ ∧ c'.table = c.table) ∧
    ∀ ds : List Definition, (∀ d ∈ ds, d.body.Ordered) →
      assemble ds bindings sensitive g₁ = .ok (.ok c) g₂ →
      ∃ c' g', assemble ds bindings sensitive g = .ok (.ok c') g' ∧
        g'.define rule body = .ok g₂ ∧ c'.table = c.table := by
  refine ⟨fun dialect text hcompile => ?_, fun ds hordered hassemble =>
    assemble_late hg.sound hdefine hbound hordered hassemble⟩
  obtain ⟨ds, hdefs, hassemble⟩ := assemble_of_compile hcompile
  rw [compile_of_definitions hdefs]
  exact assemble_late hg.sound hdefine hbound (definitions_ordered hdefs) hassemble

/-- A graph with one open placeholder and a parser that it may be given. -/
def openRuleBeside : Graph :=
  ⟨#[.live 0 ⟨some "a", .rule none⟩, .live 0 ⟨none, .terminal (.char 'y')⟩], [], 2, 256⟩

/-- The same graph once the placeholder has that body, and a rule for it after an `x` was added. -/
def closedRuleBeside : Graph :=
  ⟨#[.live 0 ⟨some "a", .rule (some ⟨1, 0⟩)⟩, .live 0 ⟨none, .terminal (.char 'y')⟩,
    .live 0 ⟨some "b", .rule (some ⟨5, 0⟩)⟩, .live 0 ⟨none, .terminal (.char 'x')⟩,
    .live 0 ⟨none, .sequence [⟨3, 0⟩, ⟨0, 0⟩]⟩, .live 0 ⟨none, .transform ⟨4, 0⟩ Tree.fold⟩],
    [], 6, 256⟩

/-- A text with one rule that refers to another, and what it states. -/
theorem definitions_referring : definitions .plain "b:'x'a;" =
    .ok (.ok [⟨"b", none, .sequence [.char 'x', .reference "a" ⟨5, 1, 6⟩], ⟨0, 1, 1⟩⟩]) :=
  definitions_of_states (by decide +kernel)

/-- A rule for an `x` and then the placeholder is compiled with the placeholder open. Giving it its
body after that leads to the graph that comes of giving it its body first. -/
theorem compile_define_late_referring :
    openRuleBeside.Built ∧
      ∃ g₁ c c' g', openRuleBeside.define ⟨0, 0⟩ ⟨1, 0⟩ = .ok g₁ ∧
        compile .plain "b:'x'a;" [⟨0, 0⟩] true g₁ = .ok (.ok c) closedRuleBeside ∧
        compile .plain "b:'x'a;" [⟨0, 0⟩] true openRuleBeside = .ok (.ok c') g' ∧
        g'.define ⟨0, 0⟩ ⟨1, 0⟩ = .ok closedRuleBeside ∧ c'.table = c.table := by
  have hbuilt : openRuleBeside.Built :=
    .insert (.named (.insert .empty (rfl : Build.insert (.rule none) Graph.empty = .ok ⟨0, 0⟩
      ⟨#[.live 0 ⟨none, .rule none⟩], [], 1, 256⟩)) (rfl : Build.named ⟨0, 0⟩ "a" _ = _))
      (rfl : Build.insert (.terminal (.char 'y')) _ = .ok ⟨1, 0⟩ openRuleBeside)
  have hdefine : openRuleBeside.define ⟨0, 0⟩ ⟨1, 0⟩ =
      .ok (openRuleBeside.replace ⟨0, 0⟩ ⟨some "a", .rule (some ⟨1, 0⟩)⟩) := rfl
  have hcompile : compile .plain "b:'x'a;" [⟨0, 0⟩] true
      (openRuleBeside.replace ⟨0, 0⟩ ⟨some "a", .rule (some ⟨1, 0⟩)⟩) =
        .ok (.ok ⟨(RuleTable.empty.insert "a" ⟨0, 0⟩).insert "b" ⟨2, 0⟩, []⟩)
          closedRuleBeside := by
    rw [compile_of_definitions definitions_referring]
    cbv
  obtain ⟨c', g', hearly, hlate, htable⟩ :=
    (compile_define_late hbuilt hdefine List.mem_cons_self).1 _ _ hcompile
  exact ⟨hbuilt, _, _, c', g', hdefine, hcompile, hearly, hlate, htable⟩

end Grammar

end ParserGraph
