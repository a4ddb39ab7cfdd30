import ParserGraph.Proofs.Grammar.Nesting
import ParserGraph.Proofs.Grammar.Totality
import ParserGraph.Proofs.Grammar.Twins
import ParserGraph.Proofs.Operation.Basic
import ParserGraph.Proofs.Run.Likeness
import ParserGraph.Proofs.Validation.Likeness

/-!
# Order — what a grammar comes to, in whatever order and graph

The same definitions in another order, and in a graph with other free slots,
are built as other nodes under other ids. None of this can be told from
outside: the checks ask for names only (`check_nil_fault`), what two builds
add is alike (`Draft.Filled.alike`), and neither validation nor runs look at
ids. So a grammar is rejected for the same kind of fault in both, or its rules
come to the same trees and the same errors (`compile_reordered`).
-/

namespace ParserGraph

/-! ## Kinds of rejections -/

/-- Why a grammar is rejected, whatever is told along with it. -/
inductive GrammarError.Fault where
  | unreadable
  | undefinedRule
  | duplicateRule
  | duplicateBinding
  | unnamedBinding
  | invalidPattern
  | invalidRepetition
  | invalid (fault : ValidationError.Fault)
  | refused
deriving DecidableEq, Repr

/-- The fault that a rejection is for. -/
def GrammarError.fault : GrammarError → Fault
  | unreadable _ => .unreadable
  | undefinedRule _ _ => .undefinedRule
  | duplicateRule _ _ => .duplicateRule
  | duplicateBinding _ => .duplicateBinding
  | unnamedBinding _ => .unnamedBinding
  | invalidPattern _ _ => .invalidPattern
  | invalidRepetition _ _ => .invalidRepetition
  | invalid error => .invalid error.fault
  | refused _ => .refused

namespace Grammar

variable {ds ds' : List Definition}

/-! ## The same definitions in another order -/

/-- The same definitions in any order, wherever they stand in a text. -/
def Reordered (ds ds' : List Definition) : Prop :=
  (ds.map Definition.unplaced).Perm (ds'.map Definition.unplaced)

namespace Reordered

theorem symm (h : Reordered ds ds') : Reordered ds' ds := List.Perm.symm h

/-- Every definition is among the others. -/
theorem exists_mem (h : Reordered ds ds') {e : Definition} (he : e ∈ ds) :
    ∃ e' ∈ ds', e'.unplaced = e.unplaced :=
  List.mem_map.1 (h.subset (List.mem_map_of_mem he))

theorem names (h : Reordered ds ds') :
    (ds.map Definition.name).Perm (ds'.map Definition.name) := by
  have hmap := h.map Definition.name
  rw [List.map_map, List.map_map] at hmap
  exact hmap

end Reordered

/-- Definitions some of which refer to a rule that none of them defines. -/
def Dangling (ds : List Definition) : Prop :=
  ∃ e ∈ ds, ∃ name ∈ e.body.references.map Prod.fst, name ∉ ds.map Definition.name

theorem Reordered.dangling (h : Reordered ds ds') (hds : Dangling ds) : Dangling ds' := by
  obtain ⟨e, he, name, hname, hnone⟩ := hds
  obtain ⟨e', he', hsame⟩ := h.exists_mem he
  have hbody : e'.body.unplaced = e.body.unplaced := congrArg Definition.body hsame
  refine ⟨e', he', name, ?_, mt h.names.mem_iff.2 hnone⟩
  rw [← Expr.references_unplaced, hbody, Expr.references_unplaced]
  exact hname

/-! ## The checks -/

section

variable {g : Graph}

theorem mapError_bind {α β ε ε' : Type} (x : Except ε α) (k : α → Except ε β) (f : ε → ε') :
    (x >>= k).mapError f = x.mapError f >>= fun a => (k a).mapError f := by
  cases x <;> rfl

/-- What ends alike but for errors ends in errors of one kind, or with the same result. -/
theorem mapError_eq {α ε ε' : Type} {x y : Except ε α} {f : ε → ε'}
    (h : x.mapError f = y.mapError f) :
    (∃ e e', x = .error e ∧ y = .error e' ∧ f e = f e') ∨ ∃ a, x = .ok a ∧ y = .ok a := by
  cases x with
  | error e =>
    cases y with
    | error e' => exact Or.inl ⟨e, e', rfl, rfl, Except.error.inj h⟩
    | ok a => exact nomatch h
  | ok a =>
    cases y with
    | error e' => exact nomatch h
    | ok a' => exact Or.inr ⟨a, rfl, congrArg Except.ok (Except.ok.inj h).symm⟩

open Classical in
theorem checkDefinitions_empty_fault (ds : List Definition) (seen : List String) :
    (checkDefinitions g .empty seen ds).mapError GrammarError.fault =
      if (ds.map Definition.name).Nodup ∧ ∀ e ∈ ds, e.name ∉ seen then .ok ()
      else .error .duplicateRule := by
  induction ds generalizing seen with
  | nil =>
    rw [if_pos ⟨List.nodup_nil, fun _ he => absurd he List.not_mem_nil⟩]
    rfl
  | cons e ds ih =>
    rw [checkDefinitions, RuleTable.get?_empty, Option.any_none, Bool.or_false]
    by_cases hseen : e.name ∈ seen
    · rw [if_pos (List.contains_iff_mem.2 hseen),
        if_neg fun h => h.2 e List.mem_cons_self hseen]
      rfl
    · rw [if_neg fun h => hseen (List.contains_iff_mem.1 h), ih]
      -- not to be among those seen any more says that a name does not repeat
      refine if_congr (Iff.intro ?_ ?_) rfl rfl
      · rintro ⟨hnodup, hnew⟩
        refine ⟨List.nodup_cons.2 ⟨fun hmem => ?_, hnodup⟩, List.forall_mem_cons.2
          ⟨hseen, fun e' he' hmem => hnew e' he' (List.mem_cons_of_mem _ hmem)⟩⟩
        obtain ⟨e', he', hname⟩ := List.mem_map.1 hmem
        exact hnew e' he' (hname ▸ List.mem_cons_self)
      · rintro ⟨hnodup, hnew⟩
        obtain ⟨hfirst, hnodup⟩ := List.nodup_cons.1 hnodup
        refine ⟨hnodup, fun e' he' hmem => ?_⟩
        rcases List.mem_cons.1 hmem with hname | hmem
        · exact hfirst (hname ▸ List.mem_map_of_mem he')
        · exact hnew e' (List.mem_cons_of_mem _ he') hmem

open Classical in
theorem checkReferences_empty_fault (ds : List Definition) :
    (checkReferences .empty ds).mapError GrammarError.fault =
      if Dangling ds then .error .undefinedRule else .ok () := by
  unfold checkReferences
  dsimp only
  split
  · next name position hfind =>
    have hnone := List.find?_some hfind
    obtain ⟨e, he, hr⟩ := List.mem_flatMap.1 (List.mem_of_find?_eq_some hfind)
    rw [Bool.and_eq_true, Bool.not_eq_true', ← Bool.not_eq_true, List.contains_iff_mem] at hnone
    rw [if_pos ⟨e, he, name, List.mem_map_of_mem hr, hnone.1⟩]
    rfl
  · next hnone =>
    rw [if_neg]
    · rfl
    · rintro ⟨e, he, name, hname, hundefined⟩
      obtain ⟨r, hr, rfl⟩ := List.mem_map.1 hname
      have hall := List.find?_eq_none.1 hnone r (List.mem_flatMap.2 ⟨e, he, hr⟩)
      exact absurd hundefined (by simpa [RuleTable.contains] using hall)

open Classical in
/-- **The checks of a grammar without bindings ask for names only**: that none is defined twice,
and then that all that are referred to are defined. -/
theorem check_nil_fault (g : Graph) (ds : List Definition) :
    (check g ds []).mapError GrammarError.fault =
      if ¬ (ds.map Definition.name).Nodup then .error .duplicateRule
      else if Dangling ds then .error .undefinedRule
      else .ok .empty := by
  have hcheck : check g ds [] = (checkDefinitions g .empty [] ds >>= fun _ =>
      checkReferences .empty ds >>= fun _ => .ok RuleTable.empty) := rfl
  rw [hcheck, mapError_bind, checkDefinitions_empty_fault]
  by_cases hnodup : (ds.map Definition.name).Nodup
  · rw [if_pos ⟨hnodup, fun _ _ => List.not_mem_nil⟩, if_neg (not_not.2 hnodup)]
    change (checkReferences .empty ds >>= fun _ => .ok RuleTable.empty).mapError
      GrammarError.fault = _
    rw [mapError_bind, checkReferences_empty_fault]
    split <;> rfl
  · rw [if_neg fun h => hnodup h.1, if_pos hnodup]
    rfl

open Classical in
/-- Checks agree on definitions in another order, in whatever graphs. -/
theorem Reordered.check_eq (h : Reordered ds ds') (g g' : Graph) :
    (check g ds []).mapError GrammarError.fault =
      (check g' ds' []).mapError GrammarError.fault := by
  rw [check_nil_fault, check_nil_fault]
  refine if_congr (not_congr h.names.nodup_iff) rfl ?_
  exact if_congr ⟨h.dangling, h.symm.dangling⟩ rfl rfl

end

/-! ## What is built -/

section

variable {base base' : Graph} {sensitive : Bool} {rules rules' : RuleTable}
  {roots roots' : List ParserId} {d d' : Draft}

namespace Draft

/-- Where nothing is bound, the rules of the table are those that are defined. -/
theorem Filled.contains_iff (h : d.Filled sensitive .empty ds rules roots) (name : String) :
    (∃ id, rules.get? name = some id) ↔ name ∈ ds.map Definition.name := by
  constructor
  · rintro ⟨id, hget⟩
    rcases h.bound_or_defined name id hget with hbound | ⟨e, he, rfl⟩
    · exact nomatch hbound
    · exact List.mem_map_of_mem he
  · intro hname
    obtain ⟨e, he, rfl⟩ := List.mem_map.1 hname
    obtain ⟨id, -, hget, -⟩ := h.defined e he
    exact ⟨id, hget⟩

/-- And every one of them has been given a body that realizes its definition. -/
theorem Filled.body (h : d.Filled sensitive .empty ds rules roots) {name : String} {id : ParserId}
    (hget : rules.get? name = some id) :
    ∃ e ∈ ds, e.name = name ∧ ∃ body, d.graph.node? id = some ⟨some name, .rule (some body)⟩ ∧
      RealizesBody d.graph sensitive rules body e := by
  obtain ⟨e, he, rfl⟩ := List.mem_map.1 ((h.contains_iff name).1 ⟨id, hget⟩)
  obtain ⟨id', body, hget', hnode, hbody⟩ := h.defined e he
  cases hget.symm.trans hget'
  exact ⟨e, he, rfl, body, hnode, hbody⟩

/-- **What two drafts added for the same definitions is alike.** -/
theorem Filled.alike (h : d.Filled sensitive .empty ds rules roots)
    (h' : d'.Filled sensitive .empty ds' rules' roots') (hnodup : (ds.map Definition.name).Nodup)
    (hds : Reordered ds ds') :
    d.graph.Alike (Twins d.graph d'.graph rules rules') d'.graph := by
  refine alike_of_twins fun name p q hp hq => ?_
  obtain ⟨e, he, hname, body, hpnode, hbody⟩ := h.body hp
  obtain ⟨e', he', hname', body', hqnode, hbody'⟩ := h'.body hq
  -- the definition that was moved bears the same name, so it is this one
  obtain ⟨e'', he'', hsame⟩ := hds.symm.exists_mem he'
  have he : e'' = e := List.inj_on_of_nodup_map hnodup he'' he
    ((congrArg Definition.name hsame).trans (hname'.trans hname.symm))
  subst he
  have htwin := hbody.unplaced
  rw [hsame] at htwin
  exact ⟨body, body', hpnode, hqnode, htwin.twins hbody'.unplaced⟩

/-- The roots of one are the twins of the roots of the other. -/
theorem Filled.twin_roots (h : d.Filled sensitive .empty ds rules roots)
    (h' : d'.Filled sensitive .empty ds' rules' roots') (hds : Reordered ds ds') :
    (∀ r ∈ roots, ∃ r' ∈ roots', Twins d.graph d'.graph rules rules' r r') ∧
      ∀ r' ∈ roots', ∃ r ∈ roots, Twins d.graph d'.graph rules rules' r r' := by
  refine ⟨fun r hr => ?_, fun r' hr' => ?_⟩
  · obtain ⟨name, hname, hget⟩ := (h.mem_roots r).1 hr
    have hname' : name ∈ ds'.map Definition.name := hds.names.mem_iff.1 hname
    obtain ⟨r', hget'⟩ := (h'.contains_iff name).2 hname'
    exact ⟨r', (h'.mem_roots r').2 ⟨name, hname', hget'⟩, .rule hget hget'⟩
  · obtain ⟨name, hname', hget'⟩ := (h'.mem_roots r').1 hr'
    have hname : name ∈ ds.map Definition.name := hds.names.mem_iff.2 hname'
    obtain ⟨r, hget⟩ := (h.contains_iff name).2 hname
    exact ⟨r, (h.mem_roots r).2 ⟨name, hname, hget⟩, .rule hget hget'⟩

theorem Filled.names_eq (h : d.Filled sensitive .empty ds rules roots)
    (h' : d'.Filled sensitive .empty ds' rules' roots') (hds : Reordered ds ds') :
    rules.names = rules'.names := by
  refine ItemSet.eq_of_ascending rules.ascending rules'.ascending fun name => ?_
  exact (RuleTable.mem_names.trans (h.contains_iff name)).trans
    (hds.names.mem_iff.trans (RuleTable.mem_names.trans (h'.contains_iff name)).symm)

/-- **The graphs that two drafts lead to have the same fault, or none.** -/
theorem Filled.validate_eq (h : d.Filled sensitive .empty ds rules roots)
    (h' : d'.Filled sensitive .empty ds' rules' roots') (hnodup : (ds.map Definition.name).Nodup)
    (hds : Reordered ds ds') :
    (d.graph.validateExcept [] roots).mapError ValidationError.fault =
      (d'.graph.validateExcept [] roots').mapError ValidationError.fault :=
  (h.alike h' hnodup hds).validateExcept_eq (h.twin_roots h' hds).1 (h.twin_roots h' hds).2

/-- **Runs of the rule of one name come to the same.** -/
theorem Filled.run_eq (h : d.Filled sensitive .empty ds rules roots)
    (h' : d'.Filled sensitive .empty ds' rules' roots') (hnodup : (ds.map Definition.name).Nodup)
    (hds : Reordered ds ds') (hover : d.Over base [])
    (hdepth : d.graph.maxDepth = d'.graph.maxDepth) {name : String}
    (hname : name ∈ ds.map Definition.name) :
    ∃ id id', rules.get? name = some id ∧ rules'.get? name = some id' ∧
      ∀ input, ∃ r, d.graph.run id input = .ok r ∧ d'.graph.run id' input = .ok r := by
  obtain ⟨id, hget⟩ := (h.contains_iff name).2 hname
  obtain ⟨id', hget'⟩ := (h'.contains_iff name).2 (hds.names.mem_iff.1 hname)
  refine ⟨id, id', hget, hget', fun input => ?_⟩
  have hmem : id ∈ d.created := (h.known name id hget).resolve_right List.not_mem_nil
  obtain ⟨r, hr⟩ := (hover.closed hmem).run_eq_ok input
  exact ⟨r, hr, ((h.alike h' hnodup hds).run_eq hdepth (.rule hget hget') input).symm.trans hr⟩

end Draft

end

/-! ## The whole compilation -/

/-- A grammar that does not pass the checks is rejected for what they found. -/
theorem assemble_of_check_error {g : Graph} {bindings : List ParserId} {sensitive : Bool}
    {e : GrammarError} (h : check g ds bindings = .error e) :
    assemble ds bindings sensitive g = .ok (.error e) g := by
  unfold assemble
  rw [h]

/-- Two compilations of definitions with these names come to the same: both are rejected for the
same fault, or both have the rules of these names, and for every rule and every input the runs in
the two graphs end with the same tree or the same error. -/
inductive SameOutcome (names : List String) :
    EStateM.Result Misuse Graph (Except GrammarError Compilation) →
    EStateM.Result Misuse Graph (Except GrammarError Compilation) → Prop
  | rejected {e e' : GrammarError} {g g' : Graph} : e.fault = e'.fault →
      SameOutcome names (.ok (.error e) g) (.ok (.error e') g')
  | accepted {c c' : Compilation} {g g' : Graph} : c.table.names = c'.table.names →
      (∀ name, name ∈ c.table.names ↔ name ∈ names) →
      (∀ name ∈ c.table.names, ∃ id id',
        c.table.get? name = some id ∧ c'.table.get? name = some id' ∧
        ∀ input, ∃ r, g.run id input = .ok r ∧ g'.run id' input = .ok r) →
      SameOutcome names (.ok (.ok c) g) (.ok (.ok c') g')

/-- Definitions in another order come to the same in graphs with the same limit. -/
theorem assemble_reordered {base base' : Graph} (hsound : base.Sound) (hsound' : base'.Sound)
    (hdepth : base.maxDepth = base'.maxDepth) (hordered : ∀ d ∈ ds, d.body.Ordered)
    (hordered' : ∀ d ∈ ds', d.body.Ordered) (hds : Reordered ds ds') (sensitive : Bool) :
    SameOutcome (ds.map Definition.name) (assemble ds [] sensitive base)
      (assemble ds' [] sensitive base') := by
  rcases mapError_eq (hds.check_eq base base') with
    ⟨e, e', hcheck, hcheck', hfault⟩ | ⟨bound, hcheck, hcheck'⟩
  · rw [assemble_of_check_error hcheck, assemble_of_check_error hcheck']
    exact .rejected hfault
  cases check_nil_eq_ok hcheck
  obtain ⟨-, hnodup, -⟩ := check_spec hcheck
  obtain ⟨d, rules, roots, hover, hfilled, hassemble⟩ :=
    assemble_of_check sensitive hsound hcheck hordered
  obtain ⟨d', rules', roots', hover', hfilled', hassemble'⟩ :=
    assemble_of_check sensitive hsound' hcheck' hordered'
  rw [hassemble, hassemble', Draft.verdict_empty, Draft.verdict_empty]
  -- what becomes of the drafts is what their graphs are found to be
  rcases mapError_eq (hfilled.validate_eq hfilled' hnodup hds) with
    ⟨v, v', hvalid, hvalid', hfault⟩ | ⟨u, hvalid, hvalid'⟩
  · rw [hvalid, hvalid']
    exact .rejected (congrArg GrammarError.Fault.invalid hfault)
  · rw [hvalid, hvalid']
    have hlimits : d.graph.maxDepth = d'.graph.maxDepth :=
      hover.maxDepth_eq.trans (hdepth.trans hover'.maxDepth_eq.symm)
    have hnames : ∀ name, name ∈ rules.names ↔ name ∈ ds.map Definition.name :=
      fun name => RuleTable.mem_names.trans (hfilled.contains_iff name)
    exact .accepted (hfilled.names_eq hfilled' hds) hnames fun name hname =>
      hfilled.run_eq hfilled' hnodup hds hover hlimits ((hnames name).1 hname)

/-- **Neither the order of the definitions nor what a graph has been through can be told from what
a grammar comes to.** Where programs came to graphs with the same limit on nested parsers, the same
definitions in any order are compiled without misuse, whatever option they are compiled with: either
both are rejected for the same fault, or both have rules of the same names, and for every rule and
every input the runs in the two graphs end with the same tree or the same error. This is so of all
lists of definitions whose bounds are in order, and of all texts that state such lists, in any
dialects. -/
theorem compile_reordered (ops ops' : List Operation)
    (hdepth : (Operation.runAll ops).maxDepth = (Operation.runAll ops').maxDepth)
    (sensitive : Bool) :
    (∀ ds ds' : List Definition, (∀ d ∈ ds, d.body.Ordered) → (∀ d ∈ ds', d.body.Ordered) →
      Reordered ds ds' →
      SameOutcome (ds.map Definition.name) (assemble ds [] sensitive (Operation.runAll ops))
        (assemble ds' [] sensitive (Operation.runAll ops'))) ∧
    ∀ dialect dialect' text text' ds ds', definitions dialect text = .ok (.ok ds) →
      definitions dialect' text' = .ok (.ok ds') → Reordered ds ds' →
      SameOutcome (ds.map Definition.name)
        (compile dialect text [] sensitive (Operation.runAll ops))
        (compile dialect' text' [] sensitive (Operation.runAll ops')) := by
  have hsound := (Operation.past_runAll ops).sound
  have hsound' := (Operation.past_runAll ops').sound
  refine ⟨fun ds ds' hordered hordered' hds =>
    assemble_reordered hsound hsound' hdepth hordered hordered' hds sensitive, ?_⟩
  intro dialect dialect' text text' ds ds' hdefs hdefs' hds
  rw [compile_of_definitions hdefs, compile_of_definitions hdefs']
  exact assemble_reordered hsound hsound' hdepth (definitions_ordered hdefs)
    (definitions_ordered hdefs') hds sensitive

/-! ## Two rules, either of which may come first -/

/-- A rule that goes on with another, and that rule. -/
def pair : List Definition :=
  [⟨"a", none, .sequence [.char 'x', .reference "b" ⟨5, 1, 6⟩], ⟨0, 1, 1⟩⟩,
    ⟨"b", none, .char 'y', ⟨7, 1, 8⟩⟩]

/-- The same rules the other way round. -/
def swappedPair : List Definition :=
  [⟨"b", none, .char 'y', ⟨0, 1, 1⟩⟩,
    ⟨"a", none, .sequence [.char 'x', .reference "b" ⟨11, 1, 12⟩], ⟨6, 1, 7⟩⟩]

theorem definitions_pair : definitions .plain "a:'x'b;b:'y';" = .ok (.ok pair) :=
  definitions_of_states (by decide +kernel)

theorem definitions_swappedPair : definitions .plain "b:'y';a:'x'b;" = .ok (.ok swappedPair) :=
  definitions_of_states (by decide +kernel)

/-- The parsers of the two rules. -/
def pairTable : RuleTable := (RuleTable.empty.insert "a" ⟨0, 0⟩).insert "b" ⟨1, 0⟩

/-- What the two rules are compiled to where white space counts. -/
def pairGraph : Graph where
  slots := #[.live 0 ⟨some "a", .rule (some ⟨4, 0⟩)⟩,
    .live 0 ⟨some "b", .rule (some ⟨5, 0⟩)⟩,
    .live 0 ⟨none, .terminal (.char 'x')⟩,
    .live 0 ⟨none, .sequence [⟨2, 0⟩, ⟨1, 0⟩]⟩,
    .live 0 ⟨none, .transform ⟨3, 0⟩ Tree.fold⟩,
    .live 0 ⟨none, .terminal (.char 'y')⟩]
  free := []
  live := 6
  maxDepth := 256

theorem compile_pair : compile .plain "a:'x'b;b:'y';" [] true (Operation.runAll []) =
    .ok (.ok ⟨pairTable, []⟩) pairGraph := by
  rw [compile_of_definitions definitions_pair]
  cbv

/-- The tree of the first rule, with that of the second in it. -/
def pairTree : Tree :=
  ⟨"a", "", ⟨0, 1, 1⟩, [.leaf "x" ⟨0, 1, 1⟩, (Tree.leaf "y" ⟨1, 1, 2⟩).tagged "b"]⟩

/-- A program that releases the first of two nodes. -/
def vacated : List Operation :=
  [.insert (.terminal .any), .insert (.terminal .pass), .cleanup [⟨0, 0⟩]]

/-- Two rules are compiled into the empty graph, and the other way round where a slot is free: the
rule that goes on with the other comes to the same tree. -/
theorem compile_reordered_vacated :
    (Operation.runAll []).maxDepth = (Operation.runAll vacated).maxDepth ∧
      definitions .plain "a:'x'b;b:'y';" = .ok (.ok pair) ∧
      definitions .plain "b:'y';a:'x'b;" = .ok (.ok swappedPair) ∧ Reordered pair swappedPair ∧
      compile .plain "a:'x'b;b:'y';" [] true (Operation.runAll []) =
        .ok (.ok ⟨pairTable, []⟩) pairGraph ∧
      ∃ c' g' id',
        compile .plain "b:'y';a:'x'b;" [] true (Operation.runAll vacated) = .ok (.ok c') g' ∧
        c'.table.names = ["a", "b"] ∧ c'.table.get? "a" = some id' ∧
        g'.run id' "xy" = .ok (.ok pairTree) := by
  have hdepth : (Operation.runAll []).maxDepth = (Operation.runAll vacated).maxDepth := by cbv
  have hswapped : Reordered pair swappedPair := List.Perm.swap _ _ _
  have hnames : pairTable.names = ["a", "b"] := by cbv
  have hfirst : pairTable.get? "a" = some ⟨0, 0⟩ := by cbv
  have htree : pairGraph.run ⟨0, 0⟩ "xy" = .ok (.ok pairTree) := rfl
  refine ⟨hdepth, definitions_pair, definitions_swappedPair, hswapped, compile_pair, ?_⟩
  have hsame := (compile_reordered [] vacated hdepth true).2 _ _ _ _ _ _ definitions_pair
    definitions_swappedPair hswapped
  rw [compile_pair] at hsame
  generalize compile .plain "b:'y';a:'x'b;" [] true (Operation.runAll vacated) = r' at hsame ⊢
  cases hsame with
  | @accepted _ c' _ g' hsame _ hruns =>
    obtain ⟨id, id', hget, hget', hrun⟩ := hruns "a" (hnames ▸ List.mem_cons_self)
    cases hfirst.symm.trans hget
    obtain ⟨r, hr, hr'⟩ := hrun "xy"
    cases htree.symm.trans hr
    exact ⟨c', g', id', rfl, hsame.symm.trans hnames, hget', hr'⟩

end Grammar

end ParserGraph
