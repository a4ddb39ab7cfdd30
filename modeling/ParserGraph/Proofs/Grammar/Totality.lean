import ParserGraph.Proofs.Grammar.Build

/-!
# Totality — definitions that are read can be built

Building stops halfway for three reasons only: a parser that does not live, a
name without a rule, and bounds of a repetition that are not in order. What is
read from a text has its bounds in order (`definitions_ordered`), the checks
find a rule for every name, and a draft refers to nothing that does not live.
So a build that passes the checks goes through (`Draft.build_succeeds`), and
what comes of it is up to the graph it leads to (`assemble_of_check`).
-/

namespace ParserGraph.Grammar

/-! ## Bounds in order -/

mutual

/-- The bounds of every repetition in an expression are in order. -/
def Expr.Ordered : Expr → Prop
  | .char _ => True
  | .literal _ => True
  | .pattern _ => True
  | .reference _ _ => True
  | .sequence items => Expr.OrderedAll items
  | .alternation items => Expr.OrderedAll items
  | .repetition item min max => (∀ high, max = some high → min ≤ high) ∧ item.Ordered
  | .optional item => item.Ordered
  | .absent item => item.Ordered

/-- The bounds of every repetition in several expressions are in order. -/
def Expr.OrderedAll : List Expr → Prop
  | [] => True
  | item :: items => item.Ordered ∧ Expr.OrderedAll items

end

variable {dialect : Pattern.Dialect}

theorem ofText_ordered (text : List Char) : (Expr.ofText text).Ordered := by
  unfold Expr.ofText
  split <;> trivial

section

variable {item e : Expr} {t : Tree}

/-- Inverted bounds are rejected when a suffix is read. -/
theorem bounded_ordered {position : Position} {bounds : List Nat} {openEnded : Bool}
    (hitem : item.Ordered) (h : bounded item position bounds openEnded = .ok e) : e.Ordered := by
  unfold bounded at h
  split at h
  · cases h
    exact ⟨fun high hhigh => (Option.some.inj hhigh).le, hitem⟩
  · cases h
    exact ⟨fun high hhigh => (nomatch hhigh), hitem⟩
  · split at h
    · exact nomatch h
    · next hle =>
      cases h
      exact ⟨fun high hhigh => Option.some.inj hhigh ▸ Nat.le_of_not_lt hle, hitem⟩
  · exact nomatch h

theorem suffixed_ordered (hitem : item.Ordered) (h : suffixed item t = .ok e) : e.Ordered := by
  unfold suffixed at h
  split at h
  · cases h
    split
    · exact ⟨fun high hhigh => (nomatch hhigh), hitem⟩
    · exact ⟨fun high hhigh => (nomatch hhigh), hitem⟩
    · exact hitem
    · exact hitem
  · obtain ⟨bounds, -, h⟩ := except_bind_eq_ok h
    exact bounded_ordered hitem h

theorem patternOf_ordered (h : patternOf dialect t = .ok e) : e.Ordered := by
  unfold patternOf at h
  split at h
  · cases h
    trivial
  · exact nomatch h

theorem referenceOf_ordered (h : referenceOf t = .ok e) : e.Ordered := by
  unfold referenceOf at h
  split at h
  · cases h
    trivial
  · obtain ⟨ident, -, h⟩ := except_bind_eq_ok h
    cases h
    trivial

end

mutual

/-- **What is read has its bounds in order.** -/
theorem alternativesOf_ordered :
    ∀ (t : Tree) (e : Expr), alternativesOf dialect t = .ok e → e.Ordered
  | ⟨_, _, _, children⟩, e, h => by
    rw [alternativesOf] at h
    obtain ⟨branches, hbranches, h⟩ := except_bind_eq_ok h
    have hall := sequencesOf_ordered children branches hbranches
    split at h
    · cases h
      exact hall.1
    · cases h
      exact hall

theorem sequencesOf_ordered :
    ∀ (ts : List Tree) (es : List Expr), sequencesOf dialect ts = .ok es → Expr.OrderedAll es
  | [], es, h => by
    rw [sequencesOf] at h
    cases h
    trivial
  | t :: ts, es, h => by
    rw [sequencesOf] at h
    split at h
    · obtain ⟨item, hitem, h⟩ := except_bind_eq_ok h
      obtain ⟨items, hitems, h⟩ := except_bind_eq_ok h
      cases h
      exact ⟨sequenceOf_ordered t item hitem, sequencesOf_ordered ts items hitems⟩
    · exact sequencesOf_ordered ts es h

theorem sequenceOf_ordered : ∀ (t : Tree) (e : Expr), sequenceOf dialect t = .ok e → e.Ordered
  | ⟨_, _, _, children⟩, e, h => by
    rw [sequenceOf] at h
    obtain ⟨factors, hfactors, h⟩ := except_bind_eq_ok h
    have hall := factorsOf_ordered children factors hfactors
    split at h
    · cases h
      exact hall.1
    · cases h
      exact hall

theorem factorsOf_ordered :
    ∀ (ts : List Tree) (es : List Expr), factorsOf dialect ts = .ok es → Expr.OrderedAll es
  | [], es, h => by
    rw [factorsOf] at h
    cases h
    trivial
  | t :: ts, es, h => by
    rw [factorsOf] at h
    split at h
    · obtain ⟨item, hitem, h⟩ := except_bind_eq_ok h
      obtain ⟨items, hitems, h⟩ := except_bind_eq_ok h
      cases h
      exact ⟨factorOf_ordered t item hitem, factorsOf_ordered ts items hitems⟩
    · exact factorsOf_ordered ts es h

theorem factorOf_ordered : ∀ (t : Tree) (e : Expr), factorOf dialect t = .ok e → e.Ordered
  | ⟨_, _, _, []⟩, e, h => by
    rw [factorOf] at h
    exact nomatch h
  | ⟨_, _, _, base :: rest⟩, e, h => by
    rw [factorOf] at h
    obtain ⟨item, hitem, h⟩ := except_bind_eq_ok h
    have hordered := baseOf_ordered base item hitem
    split at h
    · exact suffixed_ordered hordered h
    · cases h
      exact hordered

theorem baseOf_ordered : ∀ (t : Tree) (e : Expr), baseOf dialect t = .ok e → e.Ordered
  | ⟨_, _, _, children⟩, e, h => by
    rw [baseOf] at h
    split at h
    · cases h
      exact ofText_ordered _
    split at h
    · exact patternOf_ordered h
    split at h
    · exact referenceOf_ordered h
    split at h
    · exact groupOf_ordered _ children e h
    · exact nomatch h

theorem groupOf_ordered (group : Tree) :
    ∀ (ts : List Tree) (e : Expr), groupOf dialect group ts = .ok e → e.Ordered
  | [], e, h => by
    rw [groupOf] at h
    exact nomatch h
  | t :: ts, e, h => by
    rw [groupOf] at h
    split at h
    · exact alternativesOf_ordered t e h
    · exact groupOf_ordered group ts e h

end

theorem ofTree_ordered {t : Tree} {d : Definition} (h : Definition.ofTree dialect t = .ok d) :
    d.body.Ordered := by
  obtain ⟨ident, -, h⟩ := except_bind_eq_ok h
  obtain ⟨alternatives, -, h⟩ := except_bind_eq_ok h
  obtain ⟨body, hbody, h⟩ := except_bind_eq_ok h
  cases h
  exact alternativesOf_ordered alternatives body hbody

theorem mapM_ofTree_ordered {ts : List Tree} {ds : List Definition}
    (h : ts.mapM (Definition.ofTree dialect) = .ok ds) : ∀ d ∈ ds, d.body.Ordered := by
  induction ts generalizing ds with
  | nil =>
    cases h
    exact fun _ hd => absurd hd List.not_mem_nil
  | cons t ts ih =>
    rw [List.mapM_cons] at h
    obtain ⟨d, hd, h⟩ := except_bind_eq_ok h
    obtain ⟨ds', hds, h⟩ := except_bind_eq_ok h
    cases h
    exact List.forall_mem_cons.2 ⟨ofTree_ordered hd, ih hds⟩

/-- **The definitions of a text have their bounds in order.** -/
theorem definitions_ordered {text : String} {ds : List Definition}
    (h : definitions dialect text = .ok (.ok ds)) : ∀ d ∈ ds, d.body.Ordered := by
  obtain ⟨read, -, h⟩ := except_bind_eq_ok h
  cases read with
  | error e => exact nomatch h
  | ok t => exact mapM_ofTree_ordered (Except.ok.inj h)

/-! ## References -/

/-- **Every reference that passed the checks leads to a rule** that is defined or bound. -/
theorem references_of_check {g : Graph} {ds : List Definition} {bindings : List ParserId}
    {bound : RuleTable} (h : check g ds bindings = .ok bound) :
    ∀ e ∈ ds, ∀ r ∈ e.body.references, r.1 ∈ ds.map Definition.name ∨ bound.contains r.1 := by
  obtain ⟨found, -, h⟩ := except_bind_eq_ok h
  obtain ⟨u, -, h⟩ := except_bind_eq_ok h
  obtain ⟨u', hreferences, h⟩ := except_bind_eq_ok h
  cases h
  unfold checkReferences at hreferences
  dsimp only at hreferences
  split at hreferences
  · exact nomatch hreferences
  · next hnone =>
    intro e he r hr
    have hfound := List.find?_eq_none.1 hnone r (List.mem_flatMap.2 ⟨e, he, hr⟩)
    rw [Bool.and_eq_true, Bool.not_eq_true', Bool.not_eq_true', not_and_or, Bool.not_eq_false,
      Bool.not_eq_false, List.contains_iff_mem] at hfound
    exact hfound

/-! ## Steps that go through -/

/-- A step that is not a misuse. -/
def Drafting.Succeeds {α : Type} (x : Drafting α) (d : Draft) : Prop := ∃ a d', x d = .ok a d'

namespace Drafting

variable {α β : Type} {d : Draft}

theorem succeeds_pure (a : α) : Succeeds (pure a) d := ⟨a, d, rfl⟩

/-- One step after another goes through if the first does and the second does wherever the first
leads. -/
theorem Succeeds.bind {x : Drafting α} {f : α → Drafting β} (hx : Succeeds x d)
    (hf : ∀ a d', x d = .ok a d' → Succeeds (f a) d') : Succeeds (x >>= f) d := by
  obtain ⟨a, d', hok⟩ := hx
  obtain ⟨b, d'', hok'⟩ := hf a d' hok
  exact ⟨b, d'', bind_eq_ok.2 ⟨a, d', hok, hok'⟩⟩

end Drafting

namespace Draft

open Drafting

variable {base : Graph} {bound : List ParserId} {sensitive : Bool} {rules : RuleTable}
  {ds : List Definition} {d : Draft}

/-- A node over parsers that live can be added. -/
theorem insert_succeeds (kind : Kind) (h : ∀ o ∈ kind.operands, d.graph.contains o) :
    Succeeds (Draft.add (Build.insert kind)) d := by
  have hnone : kind.operands.find? (!d.graph.contains ·) = none :=
    List.find?_eq_none.2 fun o ho => by rw [h o ho]; simp
  unfold Succeeds Draft.add Build.insert
  rw [hnone]
  exact ⟨_, _, rfl⟩

theorem skipper_succeeds (h : d.Over base bound) : Succeeds skipper d := by
  refine Succeeds.bind ⟨d, d, rfl⟩ fun d₀ d₁ hget => ?_
  cases hget
  cases d.spaces with
  | some spaces => exact succeeds_pure spaces
  | none =>
    refine (insert_succeeds (.terminal (.satisfy "whitespace" CharSet.whiteSpace.contains))
      fun o ho => absurd ho List.not_mem_nil).bind fun space d₁ hspace => ?_
    obtain ⟨hgo₁, hnode₁, hmem₁⟩ := insert_goes h hspace fun o ho => absurd ho List.not_mem_nil
    refine (insert_succeeds (.repetition space 0 none) fun o ho =>
      List.mem_singleton.1 ho ▸ hgo₁.kept.created_live _ hmem₁).bind fun run d₂ hrun => ?_
    obtain ⟨hgo₂, hnode₂, hmem₂⟩ := insert_goes hgo₁.kept hrun
      fun o ho => List.mem_singleton.1 ho ▸ Or.inl hmem₁
    refine (insert_succeeds (.transform run Tree.skip) fun o ho =>
      List.mem_singleton.1 ho ▸ hgo₂.kept.created_live _ hmem₂).bind fun skipped d₃ _ => ?_
    exact Succeeds.bind ⟨_, _, rfl⟩ fun _ _ _ => succeeds_pure skipped

theorem terminal_succeeds {t : Terminal} (h : d.Over base bound) :
    Succeeds (Draft.terminal sensitive t) d := by
  refine (insert_succeeds _ fun o ho => absurd ho List.not_mem_nil).bind fun bare d₁ hbare => ?_
  obtain ⟨hgo₁, -, hmem₁⟩ := insert_goes h hbare fun o ho => absurd ho List.not_mem_nil
  cases sensitive with
  | true => exact succeeds_pure bare
  | false =>
    refine (skipper_succeeds hgo₁.kept).bind fun spaces d₂ hspaces => ?_
    obtain ⟨hgo₂, -, hmem₂⟩ := skipper_goes hgo₁.kept hspaces
    have hknows : ∀ o ∈ (Kind.sequence [bare, spaces]).operands, o ∈ d₂.created := by
      intro o ho
      rcases List.mem_cons.1 ho with rfl | ho
      · exact hgo₂.created_subset hmem₁
      · exact List.mem_singleton.1 ho ▸ hmem₂
    refine (insert_succeeds (.sequence [bare, spaces]) fun o ho =>
      hgo₂.kept.created_live o (hknows o ho)).bind fun both d₃ hboth => ?_
    obtain ⟨hgo₃, -, hmem₃⟩ := insert_goes hgo₂.kept hboth fun o ho => Or.inl (hknows o ho)
    exact insert_succeeds _ fun o ho => List.mem_singleton.1 ho ▸ hgo₃.kept.created_live _ hmem₃

/-- What is built over parsers that live can be folded. -/
theorem folded_succeeds {step : Build ParserId} (kind : Kind) (h : d.Over base bound)
    (hstep : ∀ g, step g = Build.insert kind g) (hknows : ∀ o ∈ kind.operands, d.Knows bound o)
    (hlive : ∀ o ∈ kind.operands, d.graph.contains o) : Succeeds (folded step) d := by
  obtain rfl : step = Build.insert kind := funext hstep
  refine (insert_succeeds kind hlive).bind fun whole d₁ hwhole => ?_
  obtain ⟨hgo₁, -, hmem₁⟩ := insert_goes h hwhole hknows
  exact insert_succeeds _ fun o ho => List.mem_singleton.1 ho ▸ hgo₁.kept.created_live _ hmem₁

/-- Every name of the table that is referred to has its parser. -/
theorem resolve_succeeds {name : String} (h : rules.contains name) :
    Succeeds (resolve rules name) d := by
  obtain ⟨id, hget⟩ := Option.isSome_iff_exists.1 h
  unfold Succeeds resolve RuleTable.get
  rw [hget]
  exact ⟨_, _, rfl⟩

mutual

/-- **An expression with its bounds in order can be added**, if every name it refers to has a
rule. -/
theorem expression_succeeds (e : Expr) {d : Draft} (h : d.Over base bound)
    (hnames : d.Names bound rules) (hrefs : ∀ r ∈ e.references, rules.contains r.1)
    (hordered : e.Ordered) : Succeeds (expression sensitive rules e) d := by
  have hknown : ∀ name id, rules.get? name = some id → d.Knows bound id :=
    fun name id hget => (hnames name id hget).1
  cases e with
  | char c => exact terminal_succeeds h
  | literal text => exact terminal_succeeds h
  | pattern p => exact terminal_succeeds h
  | reference name position => exact resolve_succeeds (hrefs _ List.mem_cons_self)
  | sequence items =>
    refine (expressions_succeeds items h hnames hrefs hordered).bind fun parts d₁ hparts => ?_
    obtain ⟨hgo₁, hall, hknows⟩ := expressions_goes items h hknown hparts
    exact folded_succeeds (.sequence parts) hgo₁.kept (fun _ => rfl) hknows
      (hall.contains (hnames.mono hgo₁).live)
  | alternation items =>
    refine (expressions_succeeds items h hnames hrefs hordered).bind fun branches d₁ hbranches => ?_
    obtain ⟨hgo₁, hall, -⟩ := expressions_goes items h hknown hbranches
    exact insert_succeeds _ (hall.contains (hnames.mono hgo₁).live)
  | repetition item min max =>
    obtain ⟨hbounds, hordered⟩ := hordered
    refine (expression_succeeds item h hnames hrefs hordered).bind fun part d₁ hpart => ?_
    obtain ⟨hgo₁, hreal, hknows⟩ := expression_goes item h hknown hpart
    refine folded_succeeds (.repetition part min max) hgo₁.kept (fun g => ?_)
      (fun o ho => List.mem_singleton.1 ho ▸ hknows)
      fun o ho => List.mem_singleton.1 ho ▸ hreal.contains (hnames.mono hgo₁).live
    unfold Build.repetition
    cases max with
    | none => rfl
    | some high => dsimp only; rw [if_neg (Nat.not_lt.2 (hbounds high rfl))]
  | optional item =>
    refine (expression_succeeds item h hnames hrefs hordered).bind fun part d₁ hpart => ?_
    obtain ⟨hgo₁, hreal, -⟩ := expression_goes item h hknown hpart
    exact insert_succeeds _
      fun o ho => List.mem_singleton.1 ho ▸ hreal.contains (hnames.mono hgo₁).live
  | absent item =>
    refine (expression_succeeds item h hnames hrefs hordered).bind fun part d₁ hpart => ?_
    obtain ⟨hgo₁, hreal, -⟩ := expression_goes item h hknown hpart
    exact insert_succeeds _
      fun o ho => List.mem_singleton.1 ho ▸ hreal.contains (hnames.mono hgo₁).live

theorem expressions_succeeds (es : List Expr) {d : Draft} (h : d.Over base bound)
    (hnames : d.Names bound rules) (hrefs : ∀ r ∈ Expr.referencesAll es, rules.contains r.1)
    (hordered : Expr.OrderedAll es) : Succeeds (expressions sensitive rules es) d := by
  cases es with
  | nil => exact succeeds_pure []
  | cons e es =>
    refine (expression_succeeds e h hnames (fun r hr => hrefs r (List.mem_append_left _ hr))
      hordered.1).bind fun id d₁ hid => ?_
    obtain ⟨hgo₁, -, -⟩ := expression_goes e h (fun name id hget => (hnames name id hget).1) hid
    refine (expressions_succeeds es hgo₁.kept (hnames.mono hgo₁)
      (fun r hr => hrefs r (List.mem_append_right _ hr)) hordered.2).bind fun ids d₂ _ => ?_
    exact succeeds_pure (id :: ids)

end

/-- A placeholder is placed and then named, so that it lives. -/
theorem rule_succeeds (h : d.Over base bound) (name : String) :
    Succeeds (Draft.add (Build.rule name)) d := by
  unfold Succeeds Draft.add
  rw [Build.rule_eq h.sound name]
  exact ⟨_, _, rfl⟩

theorem placeholders_succeeds (h : d.Over base bound) : Succeeds (placeholders rules ds) d := by
  induction ds generalizing rules d with
  | nil => exact succeeds_pure rules
  | cons e ds ih =>
    rw [placeholders]
    split
    · exact ih h
    · exact (rule_succeeds h e.name).bind fun id d₁ hrule => ih (rule_goes h hrule).1.kept

theorem resolveAll_succeeds {names : List String} (h : ∀ name ∈ names, rules.contains name) :
    Succeeds (resolveAll rules names) d := by
  induction names generalizing d with
  | nil => exact succeeds_pure []
  | cons name names ih =>
    obtain ⟨hname, hnames⟩ := List.forall_mem_cons.1 h
    exact (resolve_succeeds hname).bind fun id _ _ =>
      (ih hnames).bind fun ids _ _ => succeeds_pure (id :: ids)

theorem labelled_succeeds {label : Option String} {body : ParserId}
    (h : d.graph.contains body) : Succeeds (labelled label body) d := by
  cases label with
  | none => exact succeeds_pure body
  | some label => exact insert_succeeds _ fun o ho => List.mem_singleton.1 ho ▸ h

/-- Giving a placeholder a body goes through, be the body refused or not. -/
theorem define_succeeds (rule body : ParserId) : Succeeds (Draft.define rule body) d := by
  unfold Succeeds Draft.define
  split
  · exact ⟨_, _, rfl⟩
  · exact ⟨_, _, rfl⟩

/-- A body that was not refused leaves all names as they are. -/
theorem define_names {rule body : ParserId} {d' : Draft} (h : d.Over base bound)
    (hnames : d.Names bound rules) (hbody : d.Knows bound body)
    (hx : Draft.define rule body d = .ok (.ok ()) d') :
    d'.Over base bound ∧ d'.Names bound rules := by
  obtain ⟨-, name, hrule, rfl⟩ := define_done hx
  obtain ⟨hover, hrefines⟩ := h.define hrule hbody
  refine ⟨hover, fun name id hget => ?_⟩
  obtain ⟨hknows, kind, hnode⟩ := hnames name id hget
  exact ⟨hknows, hrefines.named hnode⟩

/-- What the table has to hold for a definition to be built. -/
structure Buildable (rules : RuleTable) (e : Definition) : Prop where
  named : rules.contains e.name
  referred : ∀ r ∈ e.body.references, rules.contains r.1
  ordered : e.body.Ordered

theorem bodies_succeeds (h : d.Over base bound) (hnames : d.Names bound rules)
    (hbuildable : ∀ e ∈ ds, Buildable rules e) : Succeeds (bodies sensitive rules ds) d := by
  induction ds generalizing d with
  | nil => exact succeeds_pure _
  | cons e ds ih =>
    obtain ⟨he, hds⟩ := List.forall_mem_cons.1 hbuildable
    rw [bodies_cons]
    refine (expression_succeeds e.body h hnames he.referred he.ordered).bind
      fun part d₁ hpart => ?_
    obtain ⟨hgo₁, hreal, hknows⟩ :=
      expression_goes e.body h (fun name id hget => (hnames name id hget).1) hpart
    have hlive : d₁.graph.contains part := hreal.contains (hnames.mono hgo₁).live
    refine (labelled_succeeds hlive).bind fun body d₂ hbody => ?_
    obtain ⟨hgo₂, -, -, hknown⟩ := labelled_goes hgo₁.kept hreal hknows hlive hbody
    refine (resolve_succeeds he.named).bind fun rule d₂' hrule => ?_
    obtain ⟨-, rfl⟩ := resolve_eq_ok hrule
    refine (define_succeeds rule body).bind fun done d₃ hdefine => ?_
    cases done with
    | error error => exact succeeds_pure _
    | ok u =>
      obtain ⟨hover, hnames₃⟩ :=
        define_names hgo₂.kept (hnames.mono (hgo₁.trans hgo₂)) hknown hdefine
      exact ih hover hnames₃ hds

/-- **A build of definitions that pass the checks goes through**, if their bounds are in order. -/
theorem build_succeeds (sensitive : Bool) {bound : RuleTable} {bindings : List ParserId}
    (hsound : base.Sound)
    (hcheck : check base ds bindings = .ok bound) (hordered : ∀ e ∈ ds, e.body.Ordered) :
    Succeeds (build sensitive bound ds) ⟨base, none, [], []⟩ := by
  have hover₀ : Over base bound.roots ⟨base, none, [], []⟩ := over_start hsound
  refine (placeholders_succeeds hover₀).bind fun rules d₁ hrules => ?_
  obtain ⟨hgo, hnames, hkeep, -, hall⟩ := placeholders_goes hover₀ (names_start hcheck) hrules
  have hdefined : ∀ name ∈ ds.map Definition.name, rules.contains name := by
    intro name hname
    obtain ⟨e, he, rfl⟩ := List.mem_map.1 hname
    exact Option.isSome_iff_exists.2 (hall e he)
  -- a reference leads to a rule that is defined, or to one that was bound and stays in the table
  have hbuildable : ∀ e ∈ ds, Buildable rules e := by
    refine fun e he => ⟨hdefined _ (List.mem_map_of_mem he), fun r hr => ?_, hordered e he⟩
    rcases references_of_check hcheck e he r hr with hname | hbound
    · exact hdefined _ hname
    · obtain ⟨id, hget⟩ := Option.isSome_iff_exists.1 hbound
      exact Option.isSome_iff_exists.2 ⟨id, hkeep _ _ hget⟩
  refine (resolveAll_succeeds hdefined).bind fun roots d₁' hroots => ?_
  obtain ⟨rfl, -⟩ := resolveAll_eq_ok hroots
  refine (bodies_succeeds hgo.kept hnames hbuildable).bind fun done d₂ _ => ?_
  cases done with
  | error e => exact succeeds_pure _
  | ok u =>
    refine Succeeds.bind ⟨d₂, d₂, rfl⟩ fun d₃ d₂' hget => ?_
    cases hget
    dsimp only
    split
    · exact succeeds_pure _
    · exact succeeds_pure _

end Draft

/-- **Definitions that pass the checks are built, and what comes of them is up to the graph they
lead to.** -/
theorem assemble_of_check (sensitive : Bool) {base : Graph} {bindings : List ParserId}
    {bound : RuleTable} {ds : List Definition} (hsound : base.Sound)
    (hcheck : check base ds bindings = .ok bound) (hordered : ∀ e ∈ ds, e.body.Ordered) :
    ∃ d rules roots, Draft.Over base bound.roots d ∧
      Draft.Filled d sensitive bound ds rules roots ∧
      assemble ds bindings sensitive base = match d.verdict bound rules roots with
        | .error e => .ok (.error e) d.undone
        | .ok c => .ok (.ok c) d.graph := by
  obtain ⟨r, d, hbuild⟩ := Draft.build_succeeds sensitive hsound hcheck hordered
  obtain ⟨rules, roots, hover, hfilled, rfl⟩ := Draft.build_eq_ok hsound hcheck hbuild
  refine ⟨d, rules, roots, hover, hfilled, ?_⟩
  unfold assemble
  rw [hcheck]
  dsimp only
  rw [hbuild]
  cases d.verdict bound rules roots <;> rfl

end ParserGraph.Grammar
